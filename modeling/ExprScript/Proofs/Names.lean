import ExprScript.Names

/-!
# Interned names

A table of names only grows: what has a name keeps it, and the name gives the text back.
-/
namespace ExprScript.Interner

def Knows (table : Interner) (text : String) (name : Name) : Prop :=
  table.numbers[text]? = some name.index

/-- Whether every name gives back the text that it was made for. -/
def Sound (table : Interner) : Prop :=
  ∀ text name, table.Knows text name → table.texts[name.index]? = some text

/-- Whether what has a name in one table has the same name in another one. -/
def Grows (first second : Interner) : Prop :=
  ∀ text name, first.Knows text name → second.Knows text name

variable {table first second third : Interner} {text other : String} {name : Name}

theorem Grows.refl (table : Interner) : table.Grows table := fun _ _ h => h

theorem Grows.trans (h : first.Grows second) (hnext : second.Grows third) : first.Grows third :=
  fun text name hknows => hnext text name (h text name hknows)

theorem Sound.lookup (h : table.Sound) (hknows : table.Knows text name) :
    table.lookup name = text := by
  unfold Interner.lookup
  rw [h text name hknows]
  rfl

theorem Knows.unique {other : Name} (h : table.Knows text name) (hother : table.Knows text other) :
    name = other := by
  have hindex : name.index = other.index := Option.some.inj (h.symm.trans hother)
  obtain ⟨index⟩ := name
  exact congrArg Name.mk hindex

theorem Sound.text_unique (h : table.Sound) (hknows : table.Knows text name)
    (hother : table.Knows other name) : text = other :=
  (h.lookup hknows).symm.trans (h.lookup hother)

/-! ## One more text -/

theorem knows_intern (table : Interner) (text : String) :
    (table.intern text).2.Knows text (table.intern text).1 := by
  unfold intern Knows
  split
  · assumption
  · exact Std.HashMap.getElem?_insert_self

theorem intern_of_knows (h : table.Knows text name) : table.intern text = (name, table) := by
  unfold Knows at h
  simp only [intern, h]

theorem grows_intern (table : Interner) (text : String) : table.Grows (table.intern text).2 := by
  intro other name hknows
  unfold intern
  split
  · exact hknows
  · rename_i hnew
    have hne : text ≠ other := by
      rintro rfl
      unfold Knows at hknows
      rw [hnew] at hknows
      cases hknows
    unfold Knows at hknows ⊢
    rw [Std.HashMap.getElem?_insert, if_neg (by simpa using hne)]
    exact hknows

theorem Sound.intern (h : table.Sound) (text : String) : (table.intern text).2.Sound := by
  unfold Interner.intern
  split
  · exact h
  · intro other name hknows
    unfold Knows at hknows
    dsimp only at hknows ⊢
    rw [Std.HashMap.getElem?_insert] at hknows
    split at hknows
    · rename_i hsame
      have hindex : table.texts.size = name.index := Option.some.inj hknows
      rw [← hindex, Array.getElem?_push_size, eq_of_beq hsame]
    · have hold := h other name hknows
      obtain ⟨hlt, -⟩ := Array.getElem?_eq_some_iff.mp hold
      rw [Array.getElem?_push, if_neg (Nat.ne_of_lt hlt), hold]

theorem sound_empty : empty.Sound := by
  intro text name hknows
  unfold Knows empty at hknows
  dsimp only at hknows
  rw [Std.HashMap.getElem?_insert] at hknows
  split at hknows
  · rename_i hsame
    have hindex : 0 = name.index := Option.some.inj hknows
    rw [← hindex, ← eq_of_beq hsame]
    rfl
  · simp at hknows

end ExprScript.Interner
