import ExprScript.Proofs.Evaluation.Upkeep
import ExprScript.Proofs.Scopes

/-!
# What a run leaves of the scopes around it

A run declares names in the scope that is current and in scopes that it opens itself. Scripts that
it runs declare names in the outermost scope. In all other scopes a run gives at most new values to
variables: the names, their types, the constants and the parent stay.
-/
namespace ExprScript

/-! ## The shape of a scope -/

namespace Entries

def types (vars : Entries Variable) : List (Name × DeclaredType) :=
  vars.map fun entry => (entry.1, entry.2.type)

variable {vars : Entries Variable} {name : Name} {old new : Variable}

theorem types_replace (hold : vars.lookup name = some old) (htype : new.type = old.type) :
    (vars.replace name new).types = vars.types := by
  induction vars with
  | nil => rfl
  | cons entry rest ih =>
    obtain ⟨key, v⟩ := entry
    by_cases hkey : key = name
    · subst hkey
      obtain rfl : v = old := by simpa using hold
      simp [replace, types, htype]
    · have hne : (name == key) = false := by simpa using fun heq => hkey heq.symm
      rw [List.lookup_cons, hne] at hold
      have hrest := ih hold
      simp only [types] at hrest ⊢
      simp [replace, hkey, hrest]

/-- A variable that gets another value of its type is still one of its type. -/
theorem types_insert (hold : vars.lookup name = some old) (htype : new.type = old.type) :
    (vars.insert name new).types = vars.types := by
  unfold insert
  rw [hold]
  exact types_replace hold htype

end Entries

/-- Two states of a scope that differ in nothing but the values of variables. -/
structure Scope.SameShape (before after : Scope) : Prop where
  types : after.vars.types = before.vars.types
  constants : after.constants = before.constants
  parent : after.parent = before.parent

theorem Scope.SameShape.refl (scope : Scope) : scope.SameShape scope := ⟨rfl, rfl, rfl⟩

theorem Scope.SameShape.trans {first second third : Scope} (h : first.SameShape second)
    (h' : second.SameShape third) : first.SameShape third :=
  ⟨h'.types.trans h.types, h'.constants.trans h.constants, h'.parent.trans h.parent⟩

theorem Scope.lookup_of_entry? {scope : Scope} {name : Name} {v : Variable}
    (h : scope.entry? name = some (.variable v)) : scope.vars.lookup name = some v := by
  unfold Scope.entry? at h
  split at h
  · cases h
  · obtain ⟨w, hw, heq⟩ := Option.map_eq_some_iff.mp h
    cases heq
    exact hw

namespace Scopes

/-- Every scope is still there and of the shape that it had, with some exceptions. -/
def KeepShapes (before : Scopes) (except : ScopeId → Prop) (after : Scopes) : Prop :=
  ∀ id scope, before.cells[id.index]? = some scope → ¬ except id →
    ∃ later, after.cells[id.index]? = some later ∧ scope.SameShape later

variable {before scopes after : Scopes} {except : ScopeId → Prop} {id owner : ScopeId}
  {name : Name} {v : Variable}

theorem KeepShapes.refl (scopes : Scopes) (except : ScopeId → Prop) :
    scopes.KeepShapes except scopes :=
  fun _ scope hscope _ => ⟨scope, hscope, .refl scope⟩

theorem KeepShapes.trans (h : before.KeepShapes except scopes)
    (h' : scopes.KeepShapes except after) : before.KeepShapes except after := by
  intro id scope hscope hkept
  obtain ⟨later, hlater, hshape⟩ := h id scope hscope hkept
  obtain ⟨last, hlast, hshape'⟩ := h' id later hlater hkept
  exact ⟨last, hlast, hshape.trans hshape'⟩

theorem keepShapes_child (scopes : Scopes) (except : ScopeId → Prop) (parent : ScopeId) :
    scopes.KeepShapes except (scopes.child parent).2 := by
  intro id scope hscope _
  obtain ⟨hlt, -⟩ := Array.getElem?_eq_some_iff.mp hscope
  refine ⟨scope, ?_, .refl scope⟩
  have hne : id.index ≠ scopes.cells.size := Nat.ne_of_lt hlt
  simp only [child, Array.getElem?_push, hne, ↓reduceIte]
  exact hscope

theorem keepShapes_modify {f : Scope → Scope}
    (h : ∀ scope, scopes.cells[id.index]? = some scope → ¬ except id → scope.SameShape (f scope)) :
    scopes.KeepShapes except ⟨scopes.cells.modify id.index f⟩ := by
  intro other scope hscope hkept
  by_cases hsame : id.index = other.index
  · obtain rfl : id = other := by
      cases id
      cases other
      simpa using hsame
    exact ⟨f scope, by simp [Array.getElem?_modify, hscope], h scope hscope hkept⟩
  · exact ⟨scope, by simpa [Array.getElem?_modify, hsame] using hscope, .refl scope⟩

theorem entry?_of_findWithin {count : Nat} {found : ScopeId × Entry}
    (h : scopes.findWithin name count id = some found) :
    ∃ scope, scopes.cells[found.1.index]? = some scope ∧ scope.entry? name = some found.2 := by
  fun_induction Scopes.findWithin scopes name count id with
  | case1 => cases h
  | case2 => cases h
  | case3 _ _ scope hscope entry hentry =>
    cases h
    exact ⟨scope, hscope, hentry⟩
  | case4 => cases h
  | case5 _ _ _ _ _ _ _ ih => exact ih h

/-- The variable that an assignment changes is in the scope that the assignment changes. -/
theorem lookup_of_target (h : scopes.target id name = .ok (owner, v)) :
    ∃ scope, scopes.cells[owner.index]? = some scope ∧ scope.vars.lookup name = some v := by
  rw [target_eq] at h
  cases hfound : scopes.find? id name with
  | none =>
    rw [hfound] at h
    cases h
  | some found =>
    obtain ⟨scope, hscope, hentry⟩ := entry?_of_findWithin hfound
    obtain ⟨place, entry⟩ := found
    rw [hfound] at h
    cases entry <;> cases h
    exact ⟨scope, hscope, Scope.lookup_of_entry? hentry⟩

theorem keepShapes_store (except : ScopeId → Prop)
    (h : scopes.target id name = .ok (owner, v)) (value : Value) :
    scopes.KeepShapes except (scopes.setVariable owner name { v with value }) := by
  obtain ⟨holder, hholder, hlookup⟩ := lookup_of_target h
  apply keepShapes_modify
  intro scope hscope _
  rw [hholder] at hscope
  cases hscope
  exact ⟨Entries.types_insert hlookup rfl, rfl, rfl⟩

end Scopes

/-! ## Runs that keep shapes -/

/-- Shapes are kept, with some exceptions. Those and all new scopes are open. -/
def Upkeep.shapes (before : Scopes) (except : ScopeId → Prop) : Upkeep where
  opens id := before.cells.size ≤ id.index ∨ except id
  scopes now := before.cells.size ≤ now.cells.size ∧ before.KeepShapes except now
  names _ := True

variable {before : Scopes} {except : ScopeId → Prop}

theorem Upkeep.shapes_lawful : (Upkeep.shapes before except).Lawful where
  child {scopes} h parent := by
    obtain ⟨hsize, hkeep⟩ := h
    refine ⟨⟨?_, hkeep.trans (Scopes.keepShapes_child scopes except parent)⟩, .inl hsize⟩
    simp only [Scopes.child, Array.size_push]
    omega
  declare {scopes id} h hopen name v := by
    obtain ⟨hsize, hkeep⟩ := h
    refine ⟨by simpa [Scopes.setVariable] using hsize, ?_⟩
    intro other scope hscope hkept
    obtain ⟨hlt, -⟩ := Array.getElem?_eq_some_iff.mp hscope
    obtain ⟨later, hlater, hshape⟩ := hkeep other scope hscope hkept
    have hne : id.index ≠ other.index := by
      rcases hopen with hnew | hopen
      · omega
      · intro hsame
        cases id
        cases other
        cases hsame
        exact hkept hopen
    exact ⟨later, by simpa [Scopes.setVariable, Array.getElem?_modify, hne] using hlater, hshape⟩
  store {scopes id name owner v} h htarget value := by
    obtain ⟨hsize, hkeep⟩ := h
    refine ⟨by simpa [Scopes.setVariable] using hsize, ?_⟩
    exact hkeep.trans (Scopes.keepShapes_store except htarget value)
  lexes _ _ _ := trivial

namespace Eval

/-- Does a task, down to so many levels of nesting, where scripts run in a way that is given. -/
def evalRunning (scripts : Script → Eval Value) : Nat → Task → Eval Value
  | 0, _ => giveUp .outOfLevels
  | _ + 1, .program script => scripts script
  | level + 1, task => runTask (evalRunning scripts level) level task

/-- Whether doing a task depends on how scripts run. A script might as well end the session, and
nothing stops that, so these are the tasks that run a script on the way. -/
def RunsScript (level : Nat) (task : Task) (m : Machine) : Prop :=
  ∃ scripts, evalRunning scripts level task m ≠ eval level task m

end Eval

def Machine.AtBlock (m : Machine) (id : NodeId) : Prop :=
  ∃ node ∈ m.context.script.arena.node? id, ∃ statements, node.expr = .block statements

namespace Simulation

variable {S : Simulation} {U : Upkeep} {run : Task → Eval Value} {id : NodeId} {m : Machine}

theorem rel_evalRunning (law : S.LawfulSteps) {scripts : Script → Eval Value}
    (hscripts : ∀ region setting script, S.script script →
      S.Rel region setting S.value (scripts script) (scripts script)) (level : Nat) :
    S.Alike (Eval.evalRunning scripts level) (Eval.evalRunning scripts level) := by
  induction level with
  | zero => exact fun _ _ _ _ => law.outOfLevels
  | succ level ih =>
    intro region setting task htask
    cases task with
    | program script => exact hscripts region setting script htask
    | node id => exact law.runTask ih (levels_self level) htask (by simp)
    | body f values => exact law.runTask ih (levels_self level) htask (by simp)
    | native action value span => exact law.runTask ih (levels_self level) htask (by simp)

/-- The statements of a block run in a new scope, so that the one around it need not be open. -/
theorem upheld_block (law : U.Lawful) (hrun : (upheld U).Alike run run) (rounds : Nat)
    (hm : m.Upholds U m.context.script) (hblock : m.AtBlock id) :
    U.scopes (Eval.after (Eval.runTask run rounds (.node id)) m).scopes := by
  obtain ⟨node, hnode, statements, hexpr⟩ := hblock
  have hstatements : (upheld U).Rel m.context.script () (upheld U).value
      (do Eval.runStatements (fun id => run (.node id)) (← Eval.entries statements Arena.lists))
      (do Eval.runStatements (fun id => run (.node id)) (← Eval.entries statements Arena.lists)) :=
    ((upheld_steps law).entries (Discipline.any_entries _ _ _ fun _ => trivial)).bind
      fun ids hids => (hrun.nodes _).runStatements hids
  have hends := upheld_inChildOf law m.context.scope hstatements hm
  have heq : Eval.runTask run rounds (.node id) m = Eval.inChildOf m.context.scope
      (do Eval.runStatements (fun id => run (.node id)) (← Eval.entries statements Arena.lists))
      m := by
    simp only [Eval.runTask, Eval.bind_apply, Eval.node, Option.mem_def.mp hnode, hexpr,
      Eval.evalExpr, Eval.inNewScope]
  obtain ⟨-, hafter, -⟩ := after_of_ends hends
  unfold Eval.after
  rw [heq]
  exact hafter.scopes

theorem upheld_node (law : U.Lawful) (hrun : (upheld U).Alike run run) (rounds : Nat)
    (hm : m.Upholds U m.context.script) (hopen : ¬ m.AtBlock id → U.opens m.context.scope) :
    U.scopes (Eval.after (Eval.runTask run rounds (.node id)) m).scopes := by
  by_cases hblock : m.AtBlock id
  · exact upheld_block law hrun rounds hm hblock
  · have hrel : (upheld U).Rel m.context.script () (upheld U).value
        (Eval.runTask run rounds (.node id)) (Eval.runTask run rounds (.node id)) :=
      (upheld_steps law).runTask hrun (levels_self rounds) trivial (by simp)
    obtain ⟨-, hafter, -⟩ := after_of_ends (upheld_rel.mp hrel m hm (hopen hblock))
    exact hafter.scopes

/-- Shapes are kept where the current scope is an exception, unless it is left at once for that of a
block, and the outermost one too if a script runs. -/
theorem shapes_eval (level : Nat) (hroot : Eval.RunsScript level (.node id) m → except .root)
    (hopen : ¬ m.AtBlock id → except m.context.scope) :
    m.scopes.KeepShapes except (Eval.after (Eval.eval level (.node id)) m).scopes := by
  have hm : m.Upholds (.shapes m.scopes except) m.context.script :=
    ⟨rfl, ⟨Nat.le_refl _, .refl _ _⟩, trivial⟩
  have hcurrent : ¬ m.AtBlock id → (Upkeep.shapes m.scopes except).opens m.context.scope :=
    fun h => .inr (hopen h)
  have hlaw : (Upkeep.shapes m.scopes except).Lawful := Upkeep.shapes_lawful
  cases level with
  | zero => exact .refl _ _
  | succ level =>
    by_cases hscript : Eval.RunsScript (level + 1) (.node id) m
    · have hrun := rel_eval (upheld_lawful hlaw (.inr (hroot hscript))) level
      have hkept := (upheld_node hlaw hrun level hm hcurrent).2
      unfold Eval.after at hkept ⊢
      rwa [eval_succ]
    · -- As no script runs, the run is the same if every script ends the session at once.
      have hexit : (upheld (.shapes m.scopes except)).Alike
          (Eval.evalRunning (fun _ => throw (.exited 0)) level) _ :=
        rel_evalRunning (upheld_steps hlaw)
          (fun _ _ _ _ => (upheld_steps hlaw).throws (e := .exited 0) trivial) level
      have hkept := (upheld_node hlaw hexit level hm hcurrent).2
      have hsame : Eval.evalRunning (fun _ => throw (.exited 0)) (level + 1) (.node id) m =
          Eval.eval (level + 1) (.node id) m := by
        by_contra hdiffers
        exact hscript ⟨_, hdiffers⟩
      unfold Eval.after at hkept ⊢
      rw [← hsame]
      exact hkept

end Simulation

/-- A run declares names in its own scope, in those that it opens and, if it runs a script, in the
outermost one. A block declares none in the scope around it. All other scopes keep their shape. -/
theorem scopes_keep_shape (level : Nat) (id : NodeId) (m : Machine) :
    m.scopes.KeepShapes
      (fun scope => scope = m.context.scope ∧ ¬ m.AtBlock id ∨
        scope = .root ∧ Eval.RunsScript level (.node id) m)
      (Eval.after (Eval.eval level (.node id)) m).scopes := by
  apply Simulation.shapes_eval
  · exact fun hscript => .inr ⟨rfl, hscript⟩
  · exact fun hblock => .inl ⟨rfl, hblock⟩

end ExprScript
