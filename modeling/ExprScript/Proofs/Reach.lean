import ExprScript.Proofs.Scopes

/-!
# Scopes that lead to scopes

A scope leads to its parent and to the scopes in which the functions that it stores were made. A set
of scopes that leads nowhere else is closed, and what a name means inside of it does not depend on
the scopes outside.
-/
namespace ExprScript

/-- Whether the functions that a value holds were made in scopes of a set. -/
def Value.MadeIn (inside : ScopeId → Prop) (value : Value) : Prop :=
  value.Holds fun f => inside f.closure

/-- Where one gets from a scope: outward, or through a function in one of its entries. -/
inductive Scope.LeadsTo (scope : Scope) : ScopeId → Prop
  | outward {id : ScopeId} (hparent : scope.parent = some id) : LeadsTo scope id
  | ofConstant {entry : Name × Value} {f : Function} (hentry : entry ∈ scope.constants)
      (hf : f ∈ entry.2.functions) : LeadsTo scope f.closure
  | ofVariable {entry : Name × Variable} {f : Function} (hentry : entry ∈ scope.vars)
      (hf : f ∈ entry.2.value.functions) : LeadsTo scope f.closure

namespace Scope

variable {scope : Scope} {name : Name} {next : ScopeId}

theorem leadsTo_of_entry? {entry : Entry} (hentry : scope.entry? name = some entry) {f : Function}
    (hf : f ∈ entry.value.functions) : scope.LeadsTo f.closure := by
  unfold Scope.entry? at hentry
  split at hentry
  · rename_i value hvalue
    cases hentry
    exact .ofConstant (Entries.mem_of_lookup hvalue) hf
  · obtain ⟨v, hv, rfl⟩ := Option.map_eq_some_iff.mp hentry
    exact .ofVariable (Entries.mem_of_lookup hv) hf

theorem leadsTo_setVariable {v : Variable}
    (h : Scope.LeadsTo { scope with vars := scope.vars.insert name v } next) :
    scope.LeadsTo next ∨ ∃ f ∈ v.value.functions, f.closure = next := by
  cases h with
  | outward hparent => exact .inl (.outward hparent)
  | ofConstant hentry hf => exact .inl (.ofConstant hentry hf)
  | ofVariable hentry hf =>
    rcases Entries.mem_insert hentry with rfl | hold
    · exact .inr ⟨_, hf, rfl⟩
    · exact .inl (.ofVariable hold hf)

end Scope

namespace Scopes

variable {s t r : Scopes} {inside : ScopeId → Prop} {id parent : ScopeId} {name : Name}
  {v : Variable}

/-! ## Getting from scope to scope -/

inductive Reaches (s : Scopes) (starts : ScopeId → Prop) : ScopeId → Prop
  | start {id : ScopeId} (h : starts id) : Reaches s starts id
  | step {id next : ScopeId} {scope : Scope} (h : Reaches s starts id)
      (hscope : s.cells[id.index]? = some scope) (hnext : scope.LeadsTo next) :
      Reaches s starts next

/-- Whether no scope of a set leads out of it. -/
def Closed (inside : ScopeId → Prop) (s : Scopes) : Prop :=
  ∀ id scope next, inside id → s.cells[id.index]? = some scope → scope.LeadsTo next → inside next

theorem Closed.of_reaches (h : s.Closed inside) {starts : ScopeId → Prop}
    (hstarts : ∀ id, starts id → inside id) (hid : s.Reaches starts id) : inside id := by
  induction hid with
  | start hstart => exact hstarts _ hstart
  | step _ hscope hnext ih => exact h _ _ _ ih hscope hnext

/-- What can be reached is closed, with the scopes that there are not yet. -/
theorem closed_reaches (s : Scopes) (starts : ScopeId → Prop) :
    s.Closed fun id => s.Reaches starts id ∨ s.cells.size ≤ id.index := by
  rintro id scope next (hid | hid) hscope hnext
  · exact .inl (.step hid hscope hnext)
  · rw [Array.getElem?_eq_none hid] at hscope
    cases hscope

theorem Closed.child (h : s.Closed inside) (hparent : inside parent) :
    (s.child parent).2.Closed inside := by
  intro id scope next hid hscope hnext
  simp only [Scopes.child, Array.getElem?_push] at hscope
  split at hscope
  · cases hscope
    cases hnext with
    | outward heq =>
      cases heq
      exact hparent
    | ofConstant hentry | ofVariable hentry => cases hentry
  · exact h id scope next hid hscope hnext

theorem Closed.setVariable (h : s.Closed inside) (hv : v.value.MadeIn inside) (owner : ScopeId)
    (name : Name) : (s.setVariable owner name v).Closed inside := by
  intro id scope next hid hscope hnext
  simp only [Scopes.setVariable, Array.getElem?_modify] at hscope
  split at hscope
  · obtain ⟨old, hold, rfl⟩ := Option.map_eq_some_iff.mp hscope
    rcases Scope.leadsTo_setVariable hnext with hbefore | ⟨f, hf, rfl⟩
    · exact h id old next hid hold hbefore
    · exact hv f hf
  · exact h id scope next hid hscope hnext

/-- A walk outward stays in a closed set, and finds what leads nowhere else. -/
theorem Closed.findWithin (h : s.Closed inside) {count : Nat} (hid : inside id)
    {found : ScopeId × Entry} (hfound : s.findWithin name count id = some found) :
    inside found.1 ∧ found.2.value.MadeIn inside := by
  fun_induction Scopes.findWithin s name count id with
  | case1 => cases hfound
  | case2 => cases hfound
  | case3 _ id scope hscope entry hentry =>
    cases hfound
    exact ⟨hid, fun f hf => h id scope _ hid hscope (Scope.leadsTo_of_entry? hentry hf)⟩
  | case4 => cases hfound
  | case5 _ id scope hscope _ parent hparent ih =>
    exact ih (h id scope parent hid hscope (.outward hparent)) hfound

/-! ## Scopes that are the same -/

/-- Whether scopes of a set are the same. -/
def SameOn (P : ScopeId → Prop) (s t : Scopes) : Prop :=
  ∀ id, P id → t.cells[id.index]? = s.cells[id.index]?

variable {P : ScopeId → Prop}

theorem SameOn.refl (P : ScopeId → Prop) (s : Scopes) : s.SameOn P s := fun _ _ => rfl

theorem SameOn.trans (h : s.SameOn P t) (h' : t.SameOn P r) : s.SameOn P r :=
  fun id hid => (h' id hid).trans (h id hid)

theorem SameOn.child (h : s.SameOn P t) (hsize : t.cells.size = s.cells.size) (parent : ScopeId) :
    (s.child parent).2.SameOn P (t.child parent).2 := by
  intro id hid
  simp only [Scopes.child, Array.getElem?_push, hsize, h id hid]

theorem SameOn.setVariable (h : s.SameOn P t) (owner : ScopeId) (name : Name) (v : Variable) :
    (s.setVariable owner name v).SameOn P (t.setVariable owner name v) := by
  intro id hid
  simp only [Scopes.setVariable, Array.getElem?_modify, h id hid]

theorem sameOn_child (h : ∀ id, P id → id.index < s.cells.size) (parent : ScopeId) :
    s.SameOn P (s.child parent).2 := by
  intro id hid
  have hne : id.index ≠ s.cells.size := Nat.ne_of_lt (h id hid)
  simp [Scopes.child, Array.getElem?_push, hne]

theorem sameOn_setVariable {owner : ScopeId} (h : ¬P owner) (name : Name) (v : Variable) :
    s.SameOn P (s.setVariable owner name v) := by
  rintro ⟨index⟩ hid
  have hne : owner.index ≠ index := by
    rintro rfl
    exact h hid
  simp [Scopes.setVariable, Array.getElem?_modify, hne]

/-- What a name means in a closed set depends on that set alone. -/
theorem SameOn.findWithin (h : s.SameOn inside t) (hclosed : s.Closed inside) (hid : inside id)
    (name : Name) (count : Nat) : t.findWithin name count id = s.findWithin name count id := by
  induction count generalizing id with
  | zero => rfl
  | succ count ih =>
    unfold Scopes.findWithin
    rw [h id hid]
    cases hscope : s.cells[id.index]? with
    | none => rfl
    | some scope =>
      dsimp only
      cases scope.entry? name with
      | some entry => rfl
      | none =>
        cases hparent : scope.parent with
        | none => rfl
        | some parent => exact ih (hclosed id scope parent hid hscope (.outward hparent))

end Scopes
end ExprScript
