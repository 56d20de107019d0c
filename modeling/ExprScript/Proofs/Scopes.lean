import ExprScript.Proofs.Value.Functions
import ExprScript.Proofs.Value.Kinds

/-!
# What scopes hold

The three walks outward, to the entry of a name, to its declared type and to the variable that an
assignment changes, end at the same entry. Variables keep values of their types as long as only such
values are put into them.
-/
namespace ExprScript

/-! ## Entries -/

namespace Entries

variable {α : Type} {entries : Entries α} {name : Name} {a : α}

theorem mem_of_lookup (h : entries.lookup name = some a) : (name, a) ∈ entries := by
  obtain ⟨before, after, rfl, -⟩ := List.lookup_eq_some_iff.mp h
  simp

theorem mem_replace {entry : Name × α} (h : entry ∈ entries.replace name a) :
    entry = (name, a) ∨ entry ∈ entries := by
  induction entries with
  | nil => cases h
  | cons first rest ih =>
    unfold replace at h
    split at h
    · rcases List.mem_cons.mp h with rfl | h
      · exact .inl rfl
      · exact .inr (List.mem_cons_of_mem _ h)
    · rcases List.mem_cons.mp h with rfl | h
      · exact .inr List.mem_cons_self
      · exact (ih h).imp id (List.mem_cons_of_mem _)

theorem mem_insert {entry : Name × α} (h : entry ∈ entries.insert name a) :
    entry = (name, a) ∨ entry ∈ entries := by
  unfold insert at h
  split at h
  · exact mem_replace h
  · exact List.mem_cons.mp h

end Entries

/-- Whether a variable holds a value of its type, and every value only such functions. -/
structure Scope.Sound (P : Function → Prop) (scope : Scope) : Prop where
  constants : ∀ entry ∈ scope.constants, entry.2.Holds P
  typed : ∀ entry ∈ scope.vars, entry.2.WellTyped
  values : ∀ entry ∈ scope.vars, entry.2.value.Holds P

def Entry.Sound (P : Function → Prop) (entry : Entry) : Prop :=
  entry.value.Holds P ∧ ∀ v, entry = .variable v → v.WellTyped

namespace Scope

variable {P : Function → Prop} {scope : Scope}

theorem sound_empty (parent : Option ScopeId) : Scope.Sound P { parent } := by
  constructor <;> simp

theorem Sound.lookup (h : scope.Sound P) {name : Name} {entry : Entry}
    (hentry : scope.entry? name = some entry) : entry.Sound P := by
  unfold Scope.entry? at hentry
  split at hentry
  · rename_i value hvalue
    cases hentry
    exact ⟨h.constants _ (Entries.mem_of_lookup hvalue), fun v hv => by cases hv⟩
  · obtain ⟨v, hv, rfl⟩ := Option.map_eq_some_iff.mp hentry
    have hmem := Entries.mem_of_lookup hv
    refine ⟨h.values _ hmem, fun w hw => ?_⟩
    cases hw
    exact h.typed _ hmem

theorem Sound.setVariable (h : scope.Sound P) {v : Variable} (hv : v.WellTyped)
    (hvalue : v.value.Holds P) (name : Name) :
    Scope.Sound P { scope with vars := scope.vars.insert name v } where
  constants := h.constants
  typed entry hentry := by
    rcases Entries.mem_insert hentry with rfl | hold
    · exact hv
    · exact h.typed entry hold
  values entry hentry := by
    rcases Entries.mem_insert hentry with rfl | hold
    · exact hvalue
    · exact h.values entry hold

theorem Sound.setConstant (h : scope.Sound P) {value : Value} (hvalue : value.Holds P)
    (name : Name) :
    Scope.Sound P { scope with constants := scope.constants.insert name value } where
  constants entry hentry := by
    rcases Entries.mem_insert hentry with rfl | hold
    · exact hvalue
    · exact h.constants entry hold
  typed := h.typed
  values := h.values

end Scope

namespace Scopes

/-! ## The walks -/

variable (scopes : Scopes) (name : Name)

theorem typeWithin_eq (count : Nat) (id : ScopeId) :
    scopes.typeWithin name count id = (scopes.findWithin name count id).map (·.2.type) := by
  fun_induction findWithin scopes name count id <;> simp_all [typeWithin]

theorem type?_eq (id : ScopeId) :
    scopes.type? id name = (scopes.entry? id name).map Entry.type := by
  simp [type?, entry?, find?, typeWithin_eq, Function.comp_def]

/-- What assigning to a name comes to, by what the name stands for. -/
def targetOf : Option (ScopeId × Entry) → Except AssignFailure (ScopeId × Variable)
  | none => .error .undefined
  | some (_, .constant old) => .error (.constant old)
  | some (owner, .variable v) => .ok (owner, v)

theorem targetWithin_eq (count : Nat) (id : ScopeId) :
    scopes.targetWithin name count id = targetOf (scopes.findWithin name count id) := by
  fun_induction targetWithin scopes name count id <;> simp_all [findWithin, targetOf]

theorem target_eq (id : ScopeId) : scopes.target id name = targetOf (scopes.find? id name) :=
  targetWithin_eq scopes name scopes.cells.size id

/-- Assigning fails with the value of a constant where the name stands for that constant. -/
theorem find?_of_target {id : ScopeId} {old : Value}
    (h : scopes.target id name = .error (.constant old)) :
    ∃ owner, scopes.find? id name = some (owner, .constant old) := by
  rw [target_eq] at h
  cases hfound : scopes.find? id name with
  | none =>
    rw [hfound] at h
    cases h
  | some found =>
    obtain ⟨owner, entry⟩ := found
    rw [hfound] at h
    cases entry <;> cases h
    exact ⟨owner, rfl⟩

/-- The variable that an assignment changes is of the type that the name was declared with. -/
theorem type?_of_target {id owner : ScopeId} {v : Variable}
    (h : scopes.target id name = .ok (owner, v)) : scopes.type? id name = some v.type := by
  rw [target_eq] at h
  rw [type?_eq, entry?]
  cases hfound : scopes.find? id name with
  | none =>
    rw [hfound] at h
    cases h
  | some found =>
    obtain ⟨place, entry⟩ := found
    rw [hfound] at h
    cases entry <;> cases h
    rfl

/-! ## Sound scopes -/

def Sound (P : Function → Prop) (scopes : Scopes) : Prop := ∀ scope ∈ scopes.cells, scope.Sound P

variable {P : Function → Prop} {scopes : Scopes} {name : Name}

theorem sound_initial : initial.Sound P := by
  intro scope hscope
  obtain rfl : scope = {} := by simpa [initial] using hscope
  exact Scope.sound_empty none

theorem Sound.child (h : scopes.Sound P) (parent : ScopeId) : (scopes.child parent).2.Sound P := by
  intro scope hscope
  rcases Array.mem_push.mp hscope with hold | rfl
  · exact h scope hold
  · exact Scope.sound_empty _

theorem Sound.modify (h : scopes.Sound P) (id : ScopeId) {f : Scope → Scope}
    (hf : ∀ scope, scope.Sound P → (f scope).Sound P) :
    Sound P ⟨scopes.cells.modify id.index f⟩ := by
  intro scope hscope
  obtain ⟨i, hi, rfl⟩ := Array.mem_iff_getElem.mp hscope
  have hlt : i < scopes.cells.size := by simpa using hi
  rw [Array.getElem_modify]
  have hold : scopes.cells[i].Sound P := h _ (Array.getElem_mem hlt)
  split
  · exact hf _ hold
  · exact hold

theorem Sound.setVariable (h : scopes.Sound P) (id : ScopeId) (name : Name) {v : Variable}
    (hv : v.WellTyped) (hvalue : v.value.Holds P) : (scopes.setVariable id name v).Sound P :=
  h.modify id fun _ hscope => hscope.setVariable hv hvalue name

theorem Sound.setConstant (h : scopes.Sound P) (id : ScopeId) (name : Name) {value : Value}
    (hvalue : value.Holds P) : (scopes.setConstant id name value).Sound P :=
  h.modify id fun _ hscope => hscope.setConstant hvalue name

theorem Sound.findWithin (h : scopes.Sound P) {count : Nat} {id : ScopeId}
    {found : ScopeId × Entry} (hfound : scopes.findWithin name count id = some found) :
    found.2.Sound P := by
  fun_induction Scopes.findWithin scopes name count id with
  | case1 => cases hfound
  | case2 => cases hfound
  | case3 _ _ scope hscope entry hentry =>
    cases hfound
    exact (h scope (Array.mem_of_getElem? hscope)).lookup hentry
  | case4 => cases hfound
  | case5 _ _ _ _ _ _ _ ih => exact ih hfound

theorem Sound.lookup (h : scopes.Sound P) {id : ScopeId} {entry : Entry}
    (hentry : scopes.entry? id name = some entry) : entry.Sound P := by
  obtain ⟨found, hfound, rfl⟩ := Option.map_eq_some_iff.mp hentry
  exact h.findWithin hfound

theorem Sound.constant_of_target (h : scopes.Sound P) {id : ScopeId} {old : Value}
    (htarget : scopes.target id name = .error (.constant old)) : old.Holds P := by
  obtain ⟨owner, hfound⟩ := find?_of_target scopes name htarget
  exact (h.findWithin hfound).1

/-- An assignment in the declared type of a name keeps scopes sound. -/
theorem Sound.store (h : scopes.Sound P) {id owner : ScopeId} {v : Variable} {value : Value}
    (htarget : scopes.target id name = .ok (owner, v))
    (hfits : value.fits ((scopes.type? id name).getD .auto) = true) (hvalue : value.Holds P) :
    (scopes.setVariable owner name { v with value }).Sound P := by
  rw [type?_of_target scopes name htarget] at hfits
  exact h.setVariable owner name hfits hvalue

/-- Whether every variable with a concrete type holds a value of exactly that type, or else an
infinity in place of a number. -/
def Typed (scopes : Scopes) : Prop :=
  ∀ scope ∈ scopes.cells, ∀ entry ∈ scope.vars, ∀ type, entry.2.type = .typed type →
    entry.2.value.hasType type = true ∨
      (type = .int ∨ type = .float) ∧ ∃ dividend, entry.2.value = .infinity dividend

theorem Sound.typed (h : scopes.Sound P) : scopes.Typed := by
  intro scope hscope entry hentry type htype
  have hfits := (h scope hscope).typed entry hentry
  unfold Variable.WellTyped at hfits
  rw [htype] at hfits
  exact Value.fits_typed_iff.mp hfits

end Scopes
end ExprScript
