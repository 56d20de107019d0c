import ExprScript.Evaluation.Arguments
import ExprScript.Proofs.Value.Functions
import ExprScript.Proofs.Value.Kinds

/-!
# What a call gives its parameters

Every parameter either has a value that fits it or may be left out, and the functions inside the
values are those inside the arguments.
-/
namespace ExprScript.Arguments

variable {P : Function → Prop}

/-! ## Filling the parameters -/

def From (given : List Given) (slots : List (Option Given)) : Prop :=
  ∀ slot ∈ slots, ∀ arg ∈ slot, arg ∈ given

theorem from_cons {given : List Given} {slot : Option Given} {slots : List (Option Given)} :
    From given (slot :: slots) ↔ (∀ arg ∈ slot, arg ∈ given) ∧ From given slots := by
  simp [From]

theorem from_placeNamed {function : String} {formals : List Formal} {all given : List Given}
    {slots result : List (Option Given)} (hgiven : ∀ arg ∈ given, arg ∈ all)
    (hslots : From all slots) (h : placeNamed function formals given slots = .ok result) :
    From all result := by
  induction given generalizing slots with
  | nil =>
    cases h
    exact hslots
  | cons arg given ih =>
    have hrest : ∀ arg ∈ given, arg ∈ all := fun a ha => hgiven a (by simp [ha])
    unfold placeNamed at h
    split at h
    · exact ih hrest hslots h
    · split at h
      · cases h
      · split at h
        · cases h
        · refine ih hrest (fun slot hslot => ?_) h
          rcases List.mem_or_eq_of_mem_set hslot with hold | rfl
          · exact hslots slot hold
          · intro a ha
            cases ha
            exact hgiven arg (by simp)

theorem from_fillFree {all : List Given} (formals : List Formal) {slots : List (Option Given)}
    (spare : Nat) {given : List Given} (hgiven : ∀ arg ∈ given, arg ∈ all)
    (hslots : From all slots) : From all (fillFree formals slots spare given) := by
  induction formals generalizing slots spare given with
  | nil => simp [fillFree, From]
  | cons formal formals ih =>
    cases slots with
    | nil => simp [fillFree, From]
    | cons slot slots =>
      obtain ⟨hslot, hrest⟩ := from_cons.mp hslots
      cases slot with
      | some taken => exact from_cons.mpr ⟨hslot, ih spare hgiven hrest⟩
      | none =>
        cases given with
        | nil => exact from_cons.mpr ⟨by simp, ih spare hgiven hrest⟩
        | cons next given =>
          have hnext : ∀ arg ∈ some next, arg ∈ all := by
            intro arg harg
            cases harg
            exact hgiven next (by simp)
          have hlater : ∀ arg ∈ given, arg ∈ all := fun a ha => hgiven a (by simp [ha])
          simp only [fillFree]
          split
          · exact from_cons.mpr ⟨hnext, ih spare hlater hrest⟩
          · cases spare with
            | zero => exact from_cons.mpr ⟨by simp, ih 0 hgiven hrest⟩
            | succ spare => exact from_cons.mpr ⟨hnext, ih spare hlater hrest⟩

/-- Where no argument is missing, only optional parameters go without. -/
theorem optional_of_missing {formals : List Formal} {slots : List (Option Given)}
    (h : missing? formals slots = none) :
    ∀ pair ∈ formals.zip slots, pair.2 = none → pair.1.optional = true := by
  intro pair hpair hnone
  have hfree : pair.1 ∈ free formals slots := by
    unfold free
    refine List.mem_map.mpr ⟨pair, List.mem_filter.mpr ⟨hpair, ?_⟩, rfl⟩
    simp [hnone]
  have hall := List.find?_eq_none.mp h pair.1 hfree
  simpa using hall

theorem bind_eq_ok {function : String} {formals : List Formal} {given : List Given} {span : Span}
    {slots : List (Option Given)} (h : bind function formals given span = .ok slots) :
    From given slots ∧ ∀ pair ∈ formals.zip slots, pair.2 = none → pair.1.optional = true := by
  unfold bind at h
  obtain ⟨named, hnamed, h⟩ := ok_of_bind h
  have hall : From given named := from_placeNamed (fun _ h => h) (by simp [From]) hnamed
  dsimp only at h
  split at h
  · cases h
  · split at h
    · cases h
    · rename_i hmissing
      cases h
      exact ⟨from_fillFree _ _ (fun arg harg => (List.mem_filter.mp harg).1) hall,
        optional_of_missing hmissing⟩

/-! ## Values for the parameters -/

/-- Whether a parameter may be bound to what a call has for it: a value that fits, or nothing if it
may be left out. -/
def Accepts (type : DeclaredType) (optional : Bool) : Option Value → Prop
  | some value => value.fits type = true
  | none => optional = true

theorem cast_accepts (function : String) (formal : Formal) (given : Given) :
    Checked.Gives (Accepts formal.type formal.optional) (cast function formal given) := by
  unfold cast
  split
  · rename_i htype
    exact .pure (by simp [Accepts, htype, Value.fits])
  · rename_i type htype
    split
    · rename_i value hvalue
      refine .pure ?_
      rw [htype]
      exact Value.fits_of_hasType (Value.hasType_of_castTo hvalue)
    · split
      · rename_i hoptional
        exact .warn _ _ _ (.pure hoptional)
      · exact .throw _

theorem cast_holds (function : String) (formal : Formal) {given : Given}
    (hgiven : given.value.Holds P) :
    Checked.Gives (fun value => ∀ v ∈ value, v.Holds P) (cast function formal given) := by
  unfold cast
  split
  · exact .pure (by simpa using hgiven)
  · split
    · rename_i value hvalue
      exact .pure (by simpa using Value.holds_of_castTo hgiven hvalue)
    · split
      · exact .warn _ _ _ (.pure (by simp))
      · exact .throw _

/-- Values for parameters: each may be bound, and holds only functions with the property. -/
def Suit (P : Function → Prop) (formals : List Formal) (values : List (Option Value)) : Prop :=
  (∀ pair ∈ formals.zip values, Accepts pair.1.type pair.1.optional pair.2) ∧
    ∀ value ∈ values, ∀ v ∈ value, v.Holds P

theorem suit_of_forall₂ {G : Formal × Option Given → Option Value → Prop} {formals : List Formal}
    {slots : List (Option Given)} {values : List (Option Value)}
    (h : List.Forall₂ G (formals.zip slots) values)
    (hG : ∀ pair value, pair ∈ formals.zip slots → G pair value →
      Accepts pair.1.type pair.1.optional value ∧ ∀ v ∈ value, v.Holds P) :
    Suit P formals values := by
  induction formals generalizing slots values with
  | nil =>
    cases h
    simp [Suit]
  | cons formal formals ih =>
    cases slots with
    | nil =>
      cases h
      simp [Suit]
    | cons slot slots =>
      cases h with
      | @cons _ value _ values hfirst hrest =>
        obtain ⟨haccepts, hholds⟩ := hG _ _ (by simp) hfirst
        obtain ⟨hall, hvalues⟩ := ih hrest fun pair value hpair => hG pair value (by simp [hpair])
        constructor
        · intro pair hpair
          rcases List.mem_cons.mp hpair with rfl | hpair
          · exact haccepts
          · exact hall pair hpair
        · intro other hother
          rcases List.mem_cons.mp hother with rfl | hother
          · exact hholds
          · exact hvalues other hother

theorem values_suit (function : String) (formals : List Formal) {given : List Given}
    (hgiven : ∀ arg ∈ given, arg.value.Holds P) (span : Span) :
    Checked.Gives (Suit P formals) (values function formals given span) := by
  unfold values
  refine .bind (.ofExcept fun slots h => bind_eq_ok h) fun slots hslots => ?_
  obtain ⟨hfrom, hoptional⟩ := hslots
  refine (Checked.Gives.mapM
    (G := fun pair value => Accepts pair.1.type pair.1.optional value ∧ ∀ v ∈ value, v.Holds P)
    fun pair hpair => ?_).mono fun values h => suit_of_forall₂ h fun _ _ _ hG => hG
  obtain ⟨formal, slot⟩ := pair
  cases slot with
  | none => exact .pure ⟨hoptional _ hpair rfl, by simp⟩
  | some arg =>
    have harg : arg ∈ given := hfrom _ (List.of_mem_zip hpair).2 arg rfl
    exact (cast_accepts _ _ _).and (cast_holds _ _ (hgiven arg harg))

end ExprScript.Arguments
