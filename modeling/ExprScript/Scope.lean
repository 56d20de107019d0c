import ExprScript.Value.Basic

/-!
# Scopes

Scopes lie in one array and point to their parents. A scope holds constants and variables; a name
means the nearest entry on the way outward, and in one scope a constant comes before a variable.
-/
namespace ExprScript

/-! ## Entries by name -/

/-- Entries by name; the first one counts. -/
abbrev Entries (α : Type) := List (Name × α)

namespace Entries

variable {α : Type}

def replace (name : Name) (a : α) : Entries α → Entries α
  | [] => []
  | entry :: rest =>
    if entry.1 = name then (name, a) :: rest else entry :: replace name a rest

def insert (entries : Entries α) (name : Name) (a : α) : Entries α :=
  if (entries.lookup name).isSome then entries.replace name a else (name, a) :: entries

def erase (entries : Entries α) (name : Name) : Entries α :=
  entries.filter (·.1 ≠ name)

theorem lookup_replace_of_ne (entries : Entries α) (a : α) {name other : Name} (h : other ≠ name) :
    (entries.replace name a).lookup other = entries.lookup other := by
  induction entries with
  | nil => rfl
  | cons entry rest ih =>
    obtain ⟨key, b⟩ := entry
    by_cases hk : key = name
    · subst hk
      have hne : (other == key) = false := by simpa using h
      simp [replace, List.lookup_cons, hne]
    · simp only [replace, hk, ↓reduceIte, List.lookup_cons]
      split <;> simp_all

theorem lookup_replace_self (entries : Entries α) (a : α) (name : Name)
    (h : (entries.lookup name).isSome) : (entries.replace name a).lookup name = some a := by
  induction entries with
  | nil => simp at h
  | cons entry rest ih =>
    obtain ⟨key, b⟩ := entry
    by_cases hk : key = name
    · subst hk
      simp [replace]
    · have hne : (name == key) = false := by simpa using fun e => hk e.symm
      simp only [List.lookup_cons, hne] at h
      simp [replace, hk, List.lookup_cons, hne, ih h]

@[simp] theorem lookup_insert_self (entries : Entries α) (name : Name) (a : α) :
    (entries.insert name a).lookup name = some a := by
  unfold insert
  split
  · exact lookup_replace_self entries a name ‹_›
  · simp

theorem lookup_insert_of_ne (entries : Entries α) (a : α) {name other : Name} (h : other ≠ name) :
    (entries.insert name a).lookup other = entries.lookup other := by
  unfold insert
  split
  · exact lookup_replace_of_ne entries a h
  · have hne : (other == name) = false := by simpa using h
    simp [List.lookup_cons, hne]

@[simp] theorem lookup_erase_self (entries : Entries α) (name : Name) :
    (entries.erase name).lookup name = none := by
  rw [List.lookup_eq_none_iff]
  intro entry hentry
  have hne := (List.mem_filter.mp hentry).2
  simpa using fun e => (of_decide_eq_true hne) e.symm

theorem lookup_erase_of_ne (entries : Entries α) {name other : Name} (h : other ≠ name) :
    (entries.erase name).lookup other = entries.lookup other := by
  induction entries with
  | nil => rfl
  | cons entry rest ih =>
    obtain ⟨key, b⟩ := entry
    by_cases hk : key = name
    · subst hk
      have hne : (other == key) = false := by simpa using h
      have hdrop : erase ((key, b) :: rest) key = erase rest key :=
        List.filter_cons_of_neg (by simp)
      rw [hdrop, ih, List.lookup_cons, hne]
    · have hkeep : erase ((key, b) :: rest) name = (key, b) :: erase rest name :=
        List.filter_cons_of_pos (by simpa using hk)
      rw [hkeep, List.lookup_cons, List.lookup_cons, ih]

end Entries

/-! ## One scope -/

/-- A variable keeps the type it was declared with. -/
structure Variable where
  value : Value
  type : DeclaredType

inductive Entry where
  | constant (value : Value)
  | variable (v : Variable)

def Entry.value : Entry → Value
  | .constant value => value
  | .variable v => v.value

/-- Constants take any value. -/
def Entry.type : Entry → DeclaredType
  | .constant _ => .auto
  | .variable v => v.type

def Entry.isConstant : Entry → Bool
  | .constant _ => true
  | .variable _ => false

structure Scope where
  constants : Entries Value := []
  vars : Entries Variable := []
  parent : Option ScopeId := none

instance : Inhabited Scope := ⟨{}⟩

def Scope.entry? (scope : Scope) (name : Name) : Option Entry :=
  match scope.constants.lookup name with
  | some value => some (.constant value)
  | none => (scope.vars.lookup name).map .variable

/-! ## All scopes -/

/-- The scopes made so far; none is ever dropped. -/
structure Scopes where
  cells : Array Scope

/-- The scope around everything else. -/
def ScopeId.root : ScopeId := ⟨0⟩

namespace Scopes

def initial : Scopes := ⟨#[{}]⟩

def child (scopes : Scopes) (parent : ScopeId) : ScopeId × Scopes :=
  (⟨scopes.cells.size⟩, ⟨scopes.cells.push { parent := some parent }⟩)

/-- The nearest entry of a name, with the scope that has it, among so many scopes outward. -/
def findWithin (scopes : Scopes) (name : Name) : Nat → ScopeId → Option (ScopeId × Entry)
  | 0, _ => none
  | count + 1, id =>
    match scopes.cells[id.index]? with
    | none => none
    | some scope =>
      match scope.entry? name with
      | some entry => some (id, entry)
      | none =>
        match scope.parent with
        | none => none
        | some parent => findWithin scopes name count parent

/-- The nearest entry of a name and its scope. No chain of parents is longer than there are scopes,
unless it turns in a circle. -/
def find? (scopes : Scopes) (id : ScopeId) (name : Name) : Option (ScopeId × Entry) :=
  scopes.findWithin name scopes.cells.size id

def entry? (scopes : Scopes) (id : ScopeId) (name : Name) : Option Entry :=
  (scopes.find? id name).map (·.2)

/-- The declared type of the nearest entry of a name, among so many scopes outward. -/
def typeWithin (scopes : Scopes) (name : Name) : Nat → ScopeId → Option DeclaredType
  | 0, _ => none
  | count + 1, id =>
    match scopes.cells[id.index]? with
    | none => none
    | some scope =>
      match scope.entry? name with
      | some entry => some entry.type
      | none =>
        match scope.parent with
        | none => none
        | some parent => typeWithin scopes name count parent

def type? (scopes : Scopes) (id : ScopeId) (name : Name) : Option DeclaredType :=
  scopes.typeWithin name scopes.cells.size id

def setVariable (scopes : Scopes) (id : ScopeId) (name : Name) (v : Variable) : Scopes :=
  ⟨scopes.cells.modify id.index fun scope =>
    { scope with vars := scope.vars.insert name v }⟩

def setConstant (scopes : Scopes) (id : ScopeId) (name : Name) (value : Value) : Scopes :=
  ⟨scopes.cells.modify id.index fun scope =>
    { scope with constants := scope.constants.insert name value }⟩

/-- Drops a variable of one scope; other scopes and constants stay. -/
def remove (scopes : Scopes) (id : ScopeId) (name : Name) : Option Value × Scopes :=
  let old := scopes.cells[id.index]?.bind fun scope => scope.vars.lookup name
  (old.map (·.value), ⟨scopes.cells.modify id.index fun scope =>
    { scope with vars := scope.vars.erase name }⟩)

inductive AssignFailure where
  /-- The name is a constant, which keeps this value. -/
  | constant (value : Value)
  | undefined

/-- The variable that assigning to a name changes and its scope, among so many scopes outward. -/
def targetWithin (scopes : Scopes) (name : Name) :
    Nat → ScopeId → Except AssignFailure (ScopeId × Variable)
  | 0, _ => .error .undefined
  | count + 1, id =>
    match scopes.cells[id.index]? with
    | none => .error .undefined
    | some scope =>
      match scope.entry? name with
      | some (.constant old) => .error (.constant old)
      | some (.variable v) => .ok (id, v)
      | none =>
        match scope.parent with
        | none => .error .undefined
        | some parent => targetWithin scopes name count parent

/-- The variable that assigning to a name changes, and its scope. -/
def target (scopes : Scopes) (id : ScopeId) (name : Name) :
    Except AssignFailure (ScopeId × Variable) :=
  scopes.targetWithin name scopes.cells.size id

/-- Gives the nearest variable of a name a new value; its type stays. -/
def assign (scopes : Scopes) (id : ScopeId) (name : Name) (value : Value) :
    Except AssignFailure Scopes :=
  match scopes.target id name with
  | .error why => .error why
  | .ok (owner, v) => .ok (scopes.setVariable owner name { v with value })

end Scopes
end ExprScript
