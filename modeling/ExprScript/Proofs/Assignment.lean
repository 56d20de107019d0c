import ExprScript.Proofs.Evaluation.Shapes
import Mathlib.Data.List.Nodup
import Mathlib.Data.List.Perm.Subperm

/-!
# Assignment along a chain of scopes

From a scope one gets outward from parent to parent. Where this comes to an end, looking a name up,
asking for its declared type and assigning to it all stop at the first scope that has the name. An
assignment changes one variable there and nothing else, from wherever the scopes are looked at.
-/
namespace ExprScript

/-- A variable that is set again stands for its new value, and other names for what they did. -/
theorem Scope.entry?_insert {scope : Scope} {name : Name} {v : Variable}
    (h : scope.entry? name = some (.variable v)) (w : Variable) (other : Name) :
    Scope.entry? { scope with vars := scope.vars.insert name w } other =
      if other = name then some (.variable w) else scope.entry? other := by
  unfold Scope.entry? at h ⊢
  by_cases hother : other = name
  · subst hother
    cases hconstant : scope.constants.lookup other with
    | some value => simp [hconstant] at h
    | none => simp
  · rw [if_neg hother, Entries.lookup_insert_of_ne _ _ hother]

namespace Scopes

def entryIn? (scopes : Scopes) (id : ScopeId) (name : Name) : Option Entry :=
  scopes.cells[id.index]?.bind fun scope => scope.entry? name

def parent? (scopes : Scopes) (id : ScopeId) : Option ScopeId :=
  scopes.cells[id.index]?.bind (·.parent)

/-- The scopes from one outward: each has the next one as its parent, and the last one has none. -/
inductive Chain (scopes : Scopes) : ScopeId → List ScopeId → Prop
  | outermost {id : ScopeId} (hlt : id.index < scopes.cells.size)
      (hparent : scopes.parent? id = none) : Chain scopes id [id]
  | inner {id parent : ScopeId} {chain : List ScopeId} (hparent : scopes.parent? id = some parent)
      (hchain : Chain scopes parent chain) : Chain scopes id (id :: chain)

variable {scopes : Scopes} {id owner : ScopeId} {chain : List ScopeId} {name : Name}
  {v : Variable}

theorem findWithin_succ (scopes : Scopes) (name : Name) (count : Nat) (id : ScopeId) :
    scopes.findWithin name (count + 1) id =
      match scopes.entryIn? id name with
      | some entry => some (id, entry)
      | none => (scopes.parent? id).bind (scopes.findWithin name count) := by
  rw [findWithin, entryIn?, parent?]
  cases scopes.cells[id.index]? with
  | none => rfl
  | some scope =>
    dsimp only [Option.bind_some]
    cases scope.entry? name with
    | some entry => rfl
    | none => cases scope.parent <;> rfl

theorem lt_size_of_parent? {parent : ScopeId} (h : scopes.parent? id = some parent) :
    id.index < scopes.cells.size := by
  obtain ⟨scope, hscope, -⟩ := Option.bind_eq_some_iff.mp h
  exact (Array.getElem?_eq_some_iff.mp hscope).1

/-! ## Chains -/

namespace Chain

theorem lt_size (h : scopes.Chain id chain) : ∀ i ∈ chain, i.index < scopes.cells.size := by
  induction h with
  | outermost hlt => exact List.forall_mem_singleton.mpr hlt
  | inner hparent _ ih => exact List.forall_mem_cons.mpr ⟨lt_size_of_parent? hparent, ih⟩

theorem unique {other : List ScopeId} (h : scopes.Chain id chain) (h' : scopes.Chain id other) :
    chain = other := by
  induction h generalizing other with
  | outermost _ hparent =>
    cases h' with
    | outermost => rfl
    | inner hparent' => rw [hparent] at hparent'; cases hparent'
  | inner hparent _ ih =>
    cases h' with
    | outermost _ hparent' => rw [hparent] at hparent'; cases hparent'
    | inner hparent' hchain =>
      rw [hparent] at hparent'
      cases hparent'
      rw [ih hchain]

theorem exists_outer (h : scopes.Chain id chain) {i : ScopeId} (hi : i ∈ chain) :
    ∃ outer, outer <:+ chain ∧ scopes.Chain i outer := by
  induction h with
  | outermost hlt hparent =>
    obtain rfl := List.mem_singleton.mp hi
    exact ⟨_, List.suffix_rfl, .outermost hlt hparent⟩
  | inner hparent hchain ih =>
    rcases List.mem_cons.mp hi with rfl | hrest
    · exact ⟨_, List.suffix_rfl, .inner hparent hchain⟩
    · obtain ⟨outer, hsuffix, houter⟩ := ih hrest
      exact ⟨outer, hsuffix.trans (List.suffix_cons _ _), houter⟩

/-- No scope comes twice: there would be two chains from it. -/
theorem nodup (h : scopes.Chain id chain) : chain.Nodup := by
  induction h with
  | outermost => simp
  | inner hparent hchain ih =>
    refine List.nodup_cons.mpr ⟨fun hagain => ?_, ih⟩
    obtain ⟨outer, hsuffix, houter⟩ := hchain.exists_outer hagain
    have hlength := hsuffix.length_le
    rw [← (Chain.inner hparent hchain).unique houter, List.length_cons] at hlength
    omega

theorem length_le (h : scopes.Chain id chain) : chain.length ≤ scopes.cells.size := by
  have hindices : (chain.map ScopeId.index).Nodup :=
    h.nodup.map fun i j hij => congrArg ScopeId.mk hij
  have hrange : chain.map ScopeId.index ⊆ List.range scopes.cells.size := by
    intro index hindex
    obtain ⟨i, hi, rfl⟩ := List.mem_map.mp hindex
    exact List.mem_range.mpr (h.lt_size i hi)
  simpa using (hindices.subperm hrange).length_le

/-- A walk outward that may be long enough finds the first entry along the chain. -/
theorem findWithin_eq (h : scopes.Chain id chain) (name : Name) {count : Nat}
    (hcount : chain.length ≤ count) :
    scopes.findWithin name count id =
      chain.findSome? fun i => (scopes.entryIn? i name).map fun entry => (i, entry) := by
  induction h generalizing count with
  | @outermost id _ hparent =>
    obtain ⟨count, rfl⟩ := Nat.exists_eq_add_of_le' hcount
    rw [List.length_singleton, findWithin_succ, hparent]
    cases hentry : scopes.entryIn? id name <;> simp [hentry]
  | @inner id _ chain hparent _ ih =>
    rw [List.length_cons] at hcount
    obtain ⟨count, rfl⟩ := Nat.exists_eq_add_of_le' hcount
    rw [← Nat.add_assoc, findWithin_succ, hparent, Option.bind_some, ih (by omega)]
    cases hentry : scopes.entryIn? id name <;> simp [hentry]

theorem find?_eq (h : scopes.Chain id chain) (name : Name) :
    scopes.find? id name =
      chain.findSome? fun i => (scopes.entryIn? i name).map fun entry => (i, entry) :=
  h.findWithin_eq name h.length_le

end Chain

/-! ## One variable set -/

theorem parent?_setVariable (scopes : Scopes) (owner i : ScopeId) (name : Name) (w : Variable) :
    (scopes.setVariable owner name w).parent? i = scopes.parent? i := by
  simp only [parent?, setVariable, Array.getElem?_modify]
  split
  · cases scopes.cells[i.index]? <;> rfl
  · rfl

/-- A variable that is there is set, and nothing else comes to mean anything else. -/
theorem entryIn?_setVariable (h : scopes.entryIn? owner name = some (.variable v)) (w : Variable)
    (i : ScopeId) (other : Name) :
    (scopes.setVariable owner name w).entryIn? i other =
      if i = owner ∧ other = name then some (.variable w) else scopes.entryIn? i other := by
  obtain ⟨scope, hscope, hentry⟩ := Option.bind_eq_some_iff.mp h
  by_cases howner : i = owner
  · subst howner
    simp [entryIn?, setVariable, Array.getElem?_modify, hscope, Scope.entry?_insert hentry w other]
  · have hindex : owner.index ≠ i.index := fun heq => howner (congrArg ScopeId.mk heq.symm)
    simp [entryIn?, setVariable, Array.getElem?_modify, hindex, howner]

theorem findWithin_setVariable (h : scopes.entryIn? owner name = some (.variable v)) (w : Variable)
    (count : Nat) (i : ScopeId) (other : Name) :
    (scopes.setVariable owner name w).findWithin other count i =
      (scopes.findWithin other count i).map fun found =>
        if found.1 = owner ∧ other = name then (owner, .variable w) else found := by
  induction count generalizing i with
  | zero => rfl
  | succ count ih =>
    rw [findWithin_succ, findWithin_succ, parent?_setVariable, entryIn?_setVariable h]
    by_cases hplace : i = owner ∧ other = name
    · obtain ⟨rfl, rfl⟩ := hplace
      simp [h]
    · rw [if_neg hplace]
      cases scopes.entryIn? i other with
      | some entry => simp [hplace]
      | none => cases scopes.parent? i <;> simp [ih]

theorem size_setVariable (scopes : Scopes) (owner : ScopeId) (name : Name) (w : Variable) :
    (scopes.setVariable owner name w).cells.size = scopes.cells.size := by
  simp [setVariable]

/-- From any scope, a name stands for something else than before only if it stood for the variable
that was set. -/
theorem entry?_setVariable (h : scopes.entryIn? owner name = some (.variable v)) (w : Variable)
    (i : ScopeId) (other : Name) :
    Scopes.entry? (scopes.setVariable owner name w) i other =
      if (scopes.find? i other).map (·.1) = some owner ∧ other = name then some (.variable w)
      else scopes.entry? i other := by
  unfold entry? find?
  rw [size_setVariable, findWithin_setVariable h]
  cases scopes.findWithin other scopes.cells.size i with
  | none => rfl
  | some found =>
    by_cases hplace : found.1 = owner ∧ other = name <;> simp [hplace]

/-! ## Assignment -/

theorem assign_eq (scopes : Scopes) (id : ScopeId) (name : Name) (value : Value) :
    scopes.assign id name value =
      match scopes.find? id name with
      | none => .error .undefined
      | some (_, .constant old) => .error (.constant old)
      | some (owner, .variable v) => .ok (scopes.setVariable owner name { v with value }) := by
  rw [assign, target_eq]
  rcases scopes.find? id name with _ | ⟨owner, old | v⟩ <;> rfl

/-- The machine stores what is assigned. Where nothing is assigned it stays as it is. -/
theorem store_eq (m : Machine) (name : Name) (value : Value) (span : Span) :
    Eval.store name value span m =
      match m.scopes.assign m.context.scope name value with
      | .ok after => .ok value { m with scopes := after }
      | .error (.constant old) => .ok old m
      | .error .undefined =>
        .error (.fatal (Fault.unknownIdentifier span (m.names.lookup name))) m := by
  unfold Eval.store assign
  rcases m.scopes.target m.context.scope name with (old | _) | ⟨owner, v⟩ <;> rfl

/-- Scopes that differ in one variable, which has kept its type but has a new value. -/
structure Revalued (before : Scopes) (owner : ScopeId) (name : Name) (v : Variable) (value : Value)
    (after : Scopes) : Prop where
  size : after.cells.size = before.cells.size
  elsewhere : ∀ i, i ≠ owner → after.cells[i.index]? = before.cells[i.index]?
  /-- The scope of the variable has its constants, its parent and its other variables. -/
  there : ∃ scope later, before.cells[owner.index]? = some scope ∧
    after.cells[owner.index]? = some later ∧
    later.constants = scope.constants ∧ later.parent = scope.parent ∧
    scope.vars.lookup name = some v ∧ later.vars.lookup name = some { v with value } ∧
    ∀ other, other ≠ name → later.vars.lookup other = scope.vars.lookup other
  /-- From any scope, a name stands for what it stood for unless that was the variable. -/
  seen : ∀ i other, after.entry? i other =
    if (before.find? i other).map (·.1) = some owner ∧ other = name
    then some (.variable { v with value }) else before.entry? i other
  types : ∀ i other, after.type? i other = before.type? i other

theorem entryIn?_of_find? {found : ScopeId × Entry} (h : scopes.find? id name = some found) :
    scopes.entryIn? found.1 name = some found.2 :=
  Option.bind_eq_some_iff.mpr (entry?_of_findWithin h)

theorem revalued_setVariable (h : scopes.entryIn? owner name = some (.variable v)) (value : Value) :
    scopes.Revalued owner name v value (scopes.setVariable owner name { v with value }) where
  size := size_setVariable _ _ _ _
  elsewhere i hi := by
    have hindex : owner.index ≠ i.index := fun heq => hi (congrArg ScopeId.mk heq.symm)
    simp [setVariable, Array.getElem?_modify, hindex]
  there := by
    obtain ⟨scope, hscope, hentry⟩ := Option.bind_eq_some_iff.mp h
    refine ⟨scope, { scope with vars := scope.vars.insert name { v with value } }, hscope, ?_, rfl,
      rfl, Scope.lookup_of_entry? hentry, Entries.lookup_insert_self _ _ _, fun other hother =>
      Entries.lookup_insert_of_ne _ _ hother⟩
    simp [setVariable, Array.getElem?_modify, hscope]
  seen := entry?_setVariable h _
  types i other := by
    rw [type?_eq, type?_eq, entry?_setVariable h]
    split
    · rename_i hplace
      obtain ⟨howner, rfl⟩ := hplace
      obtain ⟨⟨place, entry⟩, hfound, rfl⟩ := Option.map_eq_some_iff.mp howner
      obtain rfl : entry = .variable v :=
        Option.some.inj ((entryIn?_of_find? hfound).symm.trans h)
      unfold entry?
      rw [hfound]
      rfl
    · rfl

/-- Where a chain has an entry, the scopes before the one that counts have none. -/
theorem Chain.split_of_find? (h : scopes.Chain id chain) {entry : Entry}
    (hfound : scopes.find? id name = some (owner, entry)) :
    ∃ inner outer, chain = inner ++ owner :: outer ∧
      (∀ i ∈ inner, scopes.entryIn? i name = none) ∧
      scopes.entryIn? owner name = some entry := by
  rw [h.find?_eq name] at hfound
  obtain ⟨inner, i, outer, rfl, hentry, hinner⟩ := List.findSome?_eq_some_iff.mp hfound
  obtain ⟨entry, hentry, heq⟩ := Option.map_eq_some_iff.mp hentry
  cases heq
  exact ⟨inner, outer, rfl, fun j hj => Option.map_eq_none_iff.mp (hinner j hj), hentry⟩

theorem Chain.entry?_eq (h : scopes.Chain id chain) (name : Name) :
    scopes.entry? id name = chain.findSome? fun i => scopes.entryIn? i name := by
  unfold entry?
  rw [h.find?_eq name, List.map_findSome?]
  simp [Function.comp_def]

/-- Along a chain of scopes, looking a name up, asking for its type and assigning to it agree. What
the name stands for is the first entry on the way outward. Assigning fails for a name that stands
for nothing and for a constant, and then changes nothing. It gives any other name its new value, by
changing that one variable in the first scope that has the name. -/
theorem assign_agrees_with_lookup (h : scopes.Chain id chain) (name : Name) (value : Value) :
    (scopes.entry? id name = chain.findSome? fun i => scopes.entryIn? i name) ∧
    scopes.type? id name = (scopes.entry? id name).map Entry.type ∧
    (scopes.assign id name value = .error .undefined ↔ scopes.entry? id name = none) ∧
    (∀ old, scopes.assign id name value = .error (.constant old) ↔
      scopes.entry? id name = some (.constant old)) ∧
    (∀ m : Machine, m.scopes = scopes → m.context.scope = id → ∀ span,
      Eval.store name value span m =
        match scopes.assign id name value with
        | .ok after => .ok value { m with scopes := after }
        | .error (.constant old) => .ok old m
        | .error .undefined =>
          .error (.fatal (Fault.unknownIdentifier span (m.names.lookup name))) m) ∧
    ∀ v, scopes.entry? id name = some (.variable v) →
      ∃ inner owner outer after, chain = inner ++ owner :: outer ∧
        (∀ i ∈ inner, scopes.entryIn? i name = none) ∧
        scopes.entryIn? owner name = some (.variable v) ∧
        scopes.assign id name value = .ok after ∧
        after.entry? id name = some (.variable { v with value }) ∧
        after.type? id name = scopes.type? id name ∧
        scopes.Revalued owner name v value after := by
  refine ⟨h.entry?_eq name, type?_eq scopes name id, ?_, fun old => ?_, ?_, fun v hv => ?_⟩
  · rw [assign_eq, Scopes.entry?]
    rcases scopes.find? id name with _ | ⟨owner, old | v⟩ <;> simp
  · rw [assign_eq, Scopes.entry?]
    rcases scopes.find? id name with _ | ⟨owner, old | v⟩ <;> simp
  · rintro m rfl rfl span
    exact store_eq m name value span
  · obtain ⟨⟨owner, _⟩, hfound, rfl⟩ := Option.map_eq_some_iff.mp hv
    obtain ⟨inner, outer, hchain, hinner, hentry⟩ := h.split_of_find? hfound
    have hafter := revalued_setVariable hentry value
    refine ⟨inner, owner, outer, _, hchain, hinner, hentry, ?_, ?_, hafter.types id name, hafter⟩
    · rw [assign_eq, hfound]
    · rw [hafter.seen, hfound]
      simp

/-- Two scopes in one: what is assigned to the outer variable from one of them is seen from the
other, and the constant that one of them hides is still one for the other. -/
theorem shared_variable_assigned :
    let x : Name := ⟨0⟩
    let y : Name := ⟨1⟩
    let scopes : Scopes := ⟨#[
      { constants := [(y, .int 1)], vars := [(x, ⟨.int 1, .typed .int⟩)] },
      { vars := [(y, ⟨.null, .auto⟩)], parent := some ⟨0⟩ },
      { parent := some ⟨0⟩ }]⟩
    scopes.Chain ⟨1⟩ [⟨1⟩, ⟨0⟩] ∧
      (∃ after, scopes.assign ⟨1⟩ x (.int 2) = .ok after ∧
        after.entry? ⟨2⟩ x = some (.variable ⟨.int 2, .typed .int⟩)) ∧
      ∃ after, scopes.assign ⟨1⟩ y (.int 2) = .ok after ∧
        after.entry? ⟨2⟩ y = some (.constant (.int 1)) := by
  intro x y scopes
  have hchain : scopes.Chain ⟨1⟩ [⟨1⟩, ⟨0⟩] := .inner rfl (.outermost (by decide) rfl)
  refine ⟨hchain, ?_, ?_⟩
  · obtain ⟨-, -, -, -, -, hassigned⟩ := assign_agrees_with_lookup hchain x (.int 2)
    obtain ⟨-, -, -, after, -, -, -, hafter, -⟩ := hassigned _ rfl
    refine ⟨after, hafter, ?_⟩
    cases hafter
    rfl
  · obtain ⟨-, -, -, -, -, hassigned⟩ := assign_agrees_with_lookup hchain y (.int 2)
    obtain ⟨-, -, -, after, -, -, -, hafter, -⟩ := hassigned _ rfl
    refine ⟨after, hafter, ?_⟩
    cases hafter
    rfl

end Scopes
end ExprScript
