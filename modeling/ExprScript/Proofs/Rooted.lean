import ExprScript.Proofs.Assignment
import ExprScript.Proofs.Reach

/-!
# Scopes around which the outermost one lies

Scopes are numbered in the order in which they are made, and a scope is made inside one that is
there. So every way outward ends, and it ends in the outermost scope, which is the only one with
constants. This also holds of the scopes in which stored functions were made.
-/
namespace ExprScript

/-- Whether the functions that a value holds were made in some of the first so many scopes. -/
def Value.MadeBefore (size : Nat) (value : Value) : Prop := value.MadeIn (·.index < size)

theorem Value.MadeBefore.mono {value : Value} {size more : Nat} (h : value.MadeBefore size)
    (hsize : size ≤ more) : value.MadeBefore more :=
  fun f hf => Nat.lt_of_lt_of_le (h f hf) hsize

theorem Scope.leadsTo_setConstant {scope : Scope} {name : Name} {value : Value} {next : ScopeId}
    (h : Scope.LeadsTo { scope with constants := scope.constants.insert name value } next) :
    scope.LeadsTo next ∨ ∃ f ∈ value.functions, f.closure = next := by
  cases h with
  | outward hparent => exact .inl (.outward hparent)
  | ofVariable hentry hf => exact .inl (.ofVariable hentry hf)
  | ofConstant hentry hf =>
    rcases Entries.mem_insert hentry with rfl | hold
    · exact .inr ⟨_, hf, rfl⟩
    · exact .inl (.ofConstant hold hf)

namespace Scopes

variable {s t r : Scopes} {id parent : ScopeId} {name : Name} {value : Value} {v : Variable}

/-! ## Parents -/

theorem parent?_child (s : Scopes) (parent id : ScopeId) :
    (s.child parent).2.parent? id =
      if id.index = s.cells.size then some parent else s.parent? id := by
  unfold parent? child
  dsimp only
  rw [Array.getElem?_push]
  split <;> rfl

theorem parent?_setConstant (s : Scopes) (owner : ScopeId) (name : Name) (value : Value)
    (id : ScopeId) : (s.setConstant owner name value).parent? id = s.parent? id := by
  simp only [parent?, setConstant, Array.getElem?_modify]
  split
  · cases s.cells[id.index]? <;> rfl
  · rfl

theorem size_child (s : Scopes) (parent : ScopeId) :
    (s.child parent).2.cells.size = s.cells.size + 1 :=
  Array.size_push _

theorem size_setConstant (s : Scopes) (owner : ScopeId) (name : Name) (value : Value) :
    (s.setConstant owner name value).cells.size = s.cells.size :=
  Array.size_modify

theorem Closed.setConstant {inside : ScopeId → Prop} (h : s.Closed inside)
    (hvalue : value.MadeIn inside) (owner : ScopeId) (name : Name) :
    (s.setConstant owner name value).Closed inside := by
  intro id scope next hid hscope hnext
  simp only [Scopes.setConstant, Array.getElem?_modify] at hscope
  split at hscope
  · obtain ⟨old, hold, rfl⟩ := Option.map_eq_some_iff.mp hscope
    rcases Scope.leadsTo_setConstant hnext with hbefore | ⟨f, hf, rfl⟩
    · exact h id old next hid hold hbefore
    · exact hvalue f hf
  · exact h id scope next hid hscope hnext

/-- Whether all scopes are still there, each inside the same one. -/
structure Extends (s t : Scopes) : Prop where
  size_le : s.cells.size ≤ t.cells.size
  parent?_eq : ∀ id, id.index < s.cells.size → t.parent? id = s.parent? id

theorem Extends.refl (s : Scopes) : s.Extends s := ⟨Nat.le_refl _, fun _ _ => rfl⟩

theorem Extends.trans (h : s.Extends t) (h' : t.Extends r) : s.Extends r where
  size_le := Nat.le_trans h.size_le h'.size_le
  parent?_eq id hid :=
    (h'.parent?_eq id (Nat.lt_of_lt_of_le hid h.size_le)).trans (h.parent?_eq id hid)

theorem extends_child (s : Scopes) (parent : ScopeId) : s.Extends (s.child parent).2 where
  size_le := by
    rw [size_child]
    exact Nat.le_succ _
  parent?_eq id hid := by rw [parent?_child, if_neg (Nat.ne_of_lt hid)]

theorem extends_setVariable (s : Scopes) (owner : ScopeId) (name : Name) (v : Variable) :
    s.Extends (s.setVariable owner name v) where
  size_le := Nat.le_of_eq (size_setVariable s owner name v).symm
  parent?_eq id _ := parent?_setVariable s owner id name v

/-! ## Rooted scopes -/

/-- Whether every scope but the outermost lies inside an earlier one and holds no constants, and no
scope leads to one that is not there. -/
structure Rooted (s : Scopes) : Prop where
  nonempty : 0 < s.cells.size
  outermost : s.parent? .root = none
  inner : ∀ id : ScopeId, id ≠ .root → id.index < s.cells.size →
    ∃ parent, s.parent? id = some parent ∧ parent.index < id.index
  constants : ∀ (id : ScopeId) (scope), id ≠ .root → s.cells[id.index]? = some scope →
    scope.constants = []
  closed : s.Closed (·.index < s.cells.size)

/-- Whether the way outward from a scope comes to an end, which is the outermost scope. -/
def EndsInRoot (s : Scopes) (id : ScopeId) : Prop :=
  ∃ chain, s.Chain id chain ∧ chain.getLast? = some .root

theorem rooted_initial : initial.Rooted where
  nonempty := Nat.one_pos
  outermost := rfl
  inner id hid hlt := absurd (congrArg ScopeId.mk (Nat.lt_one_iff.mp hlt)) hid
  constants id scope _ hscope := by
    have hmem := Array.mem_of_getElem? hscope
    obtain rfl : scope = {} := by simpa [initial] using hmem
    rfl
  closed id scope next _ hscope hnext := by
    have hmem := Array.mem_of_getElem? hscope
    obtain rfl : scope = {} := by simpa [initial] using hmem
    cases hnext with
    | outward hparent => cases hparent
    | ofConstant hentry | ofVariable hentry => cases hentry

namespace Rooted

theorem child (h : s.Rooted) (hparent : parent.index < s.cells.size) :
    (s.child parent).2.Rooted where
  nonempty := by
    rw [size_child]
    exact Nat.succ_pos _
  outermost := by
    have hold : ScopeId.root.index ≠ s.cells.size := Nat.ne_of_lt h.nonempty
    rw [parent?_child, if_neg hold]
    exact h.outermost
  inner id hid hlt := by
    rw [size_child] at hlt
    rw [parent?_child]
    split
    · rename_i hnew
      exact ⟨parent, rfl, hnew ▸ hparent⟩
    · rename_i hold
      exact h.inner id hid (Nat.lt_of_le_of_ne (Nat.le_of_lt_succ hlt) hold)
  constants id scope hid hscope := by
    simp only [Scopes.child, Array.getElem?_push] at hscope
    split at hscope
    · cases hscope
      rfl
    · exact h.constants id scope hid hscope
  closed id scope next hid hscope hnext := by
    have hfar : s.Closed fun id => id.index < s.cells.size + 1 := by
      intro id scope next _ hscope hnext
      obtain ⟨hlt, -⟩ := Array.getElem?_eq_some_iff.mp hscope
      exact Nat.lt_succ_of_lt (h.closed id scope next hlt hscope hnext)
    rw [size_child] at hid ⊢
    exact hfar.child (Nat.lt_succ_of_lt hparent) id scope next hid hscope hnext

theorem setVariable (h : s.Rooted) (hv : v.value.MadeBefore s.cells.size) (owner : ScopeId)
    (name : Name) : (s.setVariable owner name v).Rooted where
  nonempty := by
    rw [size_setVariable]
    exact h.nonempty
  outermost := (parent?_setVariable ..).trans h.outermost
  inner id hid hlt := by
    rw [size_setVariable] at hlt
    rw [parent?_setVariable]
    exact h.inner id hid hlt
  constants id scope hid hscope := by
    simp only [Scopes.setVariable, Array.getElem?_modify] at hscope
    split at hscope
    · obtain ⟨old, hold, rfl⟩ := Option.map_eq_some_iff.mp hscope
      exact h.constants id old hid hold
    · exact h.constants id scope hid hscope
  closed := by
    rw [size_setVariable]
    exact h.closed.setVariable hv owner name

theorem setConstant (h : s.Rooted) (hvalue : value.MadeBefore s.cells.size) (name : Name) :
    (s.setConstant .root name value).Rooted where
  nonempty := by
    rw [size_setConstant]
    exact h.nonempty
  outermost := (parent?_setConstant ..).trans h.outermost
  inner id hid hlt := by
    rw [size_setConstant] at hlt
    rw [parent?_setConstant]
    exact h.inner id hid hlt
  constants id scope hid hscope := by
    have hindex : ScopeId.root.index ≠ id.index := fun heq => hid (congrArg ScopeId.mk heq.symm)
    simp only [Scopes.setConstant, Array.getElem?_modify, if_neg hindex] at hscope
    exact h.constants id scope hid hscope
  closed := by
    rw [size_setConstant]
    exact h.closed.setConstant hvalue .root name

theorem madeBefore_of_entry? (h : s.Rooted) (hid : id.index < s.cells.size) {entry : Entry}
    (hentry : s.entry? id name = some entry) : entry.value.MadeBefore s.cells.size := by
  obtain ⟨found, hfound, rfl⟩ := Option.map_eq_some_iff.mp hentry
  exact (h.closed.findWithin hid hfound).2

theorem madeBefore_of_target (h : s.Rooted) (hid : id.index < s.cells.size)
    (htarget : s.target id name = .error (.constant value)) : value.MadeBefore s.cells.size := by
  obtain ⟨owner, hfound⟩ := find?_of_target s name htarget
  exact (h.closed.findWithin hid hfound).2

/-- Every way outward goes from one scope to an earlier one. -/
theorem endsInRoot (h : s.Rooted) (hid : id.index < s.cells.size) : s.EndsInRoot id := by
  induction hindex : id.index using Nat.strongRecOn generalizing id with
  | ind index ih =>
    subst hindex
    by_cases hroot : id = .root
    · subst hroot
      exact ⟨_, .outermost hid h.outermost, rfl⟩
    · obtain ⟨parent, hparent, hlt⟩ := h.inner id hroot hid
      obtain ⟨chain, hchain, hlast⟩ := ih parent.index hlt (Nat.lt_trans hlt hid) rfl
      refine ⟨id :: chain, .inner hparent hchain, ?_⟩
      rw [List.getLast?_cons, hlast]
      rfl

/-- A walk outward ends by itself: where it may be longer than there are scopes it ends alike. -/
theorem walks_end (h : s.Rooted) (hid : id.index < s.cells.size) (name : Name) {count : Nat}
    (hcount : s.cells.size ≤ count) :
    s.findWithin name count id = s.find? id name ∧
      s.typeWithin name count id = s.type? id name ∧
      s.targetWithin name count id = s.target id name := by
  obtain ⟨chain, hchain, -⟩ := h.endsInRoot hid
  have hfind : s.findWithin name count id = s.find? id name := by
    rw [hchain.findWithin_eq name (Nat.le_trans hchain.length_le hcount), hchain.find?_eq]
  refine ⟨hfind, ?_, ?_⟩
  · rw [typeWithin_eq, hfind, find?, ← typeWithin_eq]
    rfl
  · rw [targetWithin_eq, hfind, target_eq]

end Rooted

end Scopes
end ExprScript
