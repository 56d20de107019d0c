import ExprScript.Proofs.Evaluation.Grown
import ExprScript.Proofs.Session.Constants

/-!
# The scopes of a session

All scopes of a session lie inside the outermost one, each inside an earlier one. Its constants lie
in the outermost scope alone, and nothing that is fed to the session gives them other values.
-/
namespace ExprScript

/-! ## At the beginning -/

theorem SessionConfig.madeBefore_of_mem {config : SessionConfig} {constant : String × Value}
    (h : constant ∈ config.constants) (size : Nat) : constant.2.MadeBefore size := by
  rcases List.mem_append.mp h with hlanguage | hbuiltin
  · simp only [List.mem_cons, List.not_mem_nil, or_false] at hlanguage
    rcases hlanguage with rfl | rfl | rfl
    · exact Value.holds_bool true
    · exact Value.holds_bool false
    · exact Value.holds_null
  · obtain ⟨⟨action, id⟩, -, rfl⟩ := List.mem_map.mp hbuiltin
    exact Value.holds_builtin ⟨id, action⟩

namespace Machine

theorem Rooted.defineAll {m : Machine} (hm : m.Rooted) {constants : List (String × Value)}
    (h : ∀ constant ∈ constants, ∀ size, constant.2.MadeBefore size) :
    (m.defineAll constants).Rooted := by
  induction constants generalizing m with
  | nil => exact hm
  | cons constant constants ih =>
    obtain ⟨hfirst, hrest⟩ := List.forall_mem_cons.mp h
    refine ih ⟨hm.scopes.setConstant (hfirst _) _, ?_⟩ hrest
    exact (Scopes.size_setConstant ..).symm ▸ hm.stands

theorem context_defineAll (m : Machine) (constants : List (String × Value)) :
    (m.defineAll constants).context = m.context := by
  induction constants generalizing m with
  | nil => rfl
  | cons constant constants ih => exact ih (m.defineConstant constant.1 constant.2)

theorem rooted_initial (config : SessionConfig) (host : Host) :
    (initial config host).Rooted ∧ (initial config host).context.scope = .root := by
  have hidle : (idle config host).Rooted := ⟨Scopes.rooted_initial, Nat.one_pos⟩
  have hall := hidle.defineAll fun _ (hmem : _ ∈ config.constants) =>
    SessionConfig.madeBefore_of_mem hmem
  have hcontext := context_defineAll (idle config host) config.constants
  rw [initial_eq]
  exact ⟨⟨hall.scopes, hall.stands⟩, congrArg Context.scope hcontext⟩

end Machine

/-! ## From input to input -/

namespace Session

variable {session : Session}

/-- The machines of a session: the one between inputs, and those where the run of another input
begins or ends to evaluate anything. -/
inductive Passes (session : Session) : Machine → Prop
  | between : Passes session session.machine
  | begins {input : Input} {level : Nat} {task : Task} {m : Machine}
      (h : session.Visits input level task m) : Passes session m
  | ends {input : Input} {level : Nat} {task : Task} {m : Machine}
      (h : session.Visits input level task m) :
      Passes session (Eval.after (Eval.eval level task) m)

theorem grows_readInput (name text : String) (pending : Option PendingInput) (mayWait : Bool) :
    Eval.Grows 0 (fun _ _ => True) (readInput name text pending mayWait)
      (readInput name text pending mayWait) := by
  unfold readInput
  refine (Eval.grows_readTokens _ _).bind fun _ _ tokens _ => ?_
  dsimp only
  split
  · exact .pure fun _ _ => trivial
  · exact (Eval.grows_readScript _ _).bind fun _ _ script _ => .pure fun _ _ => trivial

theorem grows_evalInput (name text : String) (pending : Option PendingInput) (mayWait : Bool) :
    Eval.Grows 0 (fun _ _ => True) (evalInput name text pending mayWait)
      (evalInput name text pending mayWait) := by
  refine (grows_readInput name text pending mayWait).bind fun later _ read _ => ?_
  cases read with
  | inl pending => exact .pure fun _ _ => trivial
  | inr script =>
    have heval := Eval.grows_eval (maxLevels script) later (.program script) trivial
    exact heval.bind fun _ _ _ _ => .pure fun _ _ => trivial

/-- Whatever happens to a session, its scopes are still there, among more. -/
theorem grown_react (h : session.machine.Rooted) (event : Event) :
    session.machine.Grown (session.react event).machine := by
  cases event with
  | input input =>
    have hmachine : (session.react (.input input)).machine = _ := machine_feed session input
    rw [hmachine]
    exact (grows_evalInput _ _ _ _).after h (Nat.zero_le _)
  | takeLine =>
    unfold react
    dsimp only
    split
    · exact ⟨⟨h.scopes, h.stands⟩, rfl, .refl _⟩
    · exact .refl h
  | takeNotices => exact ⟨⟨h.scopes, h.stands⟩, rfl, .refl _⟩
  | print text => exact ⟨⟨h.scopes, h.stands⟩, rfl, .refl _⟩
  | report d => exact ⟨⟨h.scopes, h.stands⟩, rfl, .refl _⟩

theorem grown_afterAll (h : session.machine.Rooted) (events : List Event) :
    session.machine.Grown (session.afterAll events).machine := by
  induction events generalizing session with
  | nil => exact .refl h
  | cons event events ih =>
    have hfirst := grown_react h event
    exact hfirst.trans (ih hfirst.rooted)

theorem grown_new (config : SessionConfig) (host : Host) (events : List Event) :
    (new config host).machine.Grown ((new config host).afterAll events).machine :=
  grown_afterAll (Machine.rooted_initial config host).1 events

/-- The run of an input comes to tasks among rooted scopes only. -/
theorem starts_of_visits (h : session.machine.Rooted) {input : Input} {level : Nat} {task : Task}
    {m : Machine} (hvisits : session.Visits input level task m) : Eval.Starts task m := by
  obtain ⟨script, start, hbegins, hvisits⟩ := hvisits
  have hread := (grows_readInput input.name input.text input.pending input.mayWait).after h
    (Nat.zero_le _)
  rw [after_of_begins hbegins] at hread
  have hstarts : Eval.Starts (.program script) start := ⟨hread.rooted, trivial⟩
  exact Eval.starts_of_visits hstarts hvisits

/-- The machines that a session passes stand among rooted scopes and define its constants. -/
theorem Passes.keeps {config : SessionConfig} {host : Host} {events : List Event} {m : Machine}
    (h : ((new config host).afterAll events).Passes m) :
    m.Rooted ∧ ∀ text value, config.constant? text = some value → m.Defines text value := by
  have hrooted := (grown_new config host events).rooted
  have hupholds := upholds_constants config host events
  have hdefines : ∀ {n : Machine} {script : Script},
      n.Upholds (.constants (Machine.initial config host).names
        (Machine.initial config host).scopes.rootConstant?) script →
      ∀ text value, config.constant? text = some value → n.Defines text value :=
    fun hn text value hvalue => defines_of_upholds hn (Machine.defines_initial hvalue)
  have hlawful := Upkeep.constants_lawful (Machine.initial config host).names
    (Machine.initial config host).scopes.rootConstant?
  cases h with
  | between => exact ⟨hrooted, hdefines hupholds⟩
  | begins hvisits =>
    obtain ⟨running, hm, -⟩ := upholds_of_visits hlawful (fun _ => trivial) hupholds hvisits
    exact ⟨(starts_of_visits hrooted hvisits).1, hdefines hm⟩
  | ends hvisits =>
    obtain ⟨running, -, hafter⟩ := upholds_of_visits hlawful (fun _ => trivial) hupholds hvisits
    have hstarts := starts_of_visits hrooted hvisits
    exact ⟨(Eval.grown_after hstarts _).rooted, hdefines hafter⟩

/-- A constant is what a session gives for its name. -/
theorem lookup_of_defines {text : String} {value : Value}
    (hscope : session.machine.context.scope = .root) (h : session.machine.Defines text value) :
    session.lookup text = some value := by
  obtain ⟨name, hname, hentry⟩ := h.lookup
  unfold lookup
  dsimp only
  rw [Interner.intern_of_knows hname, hscope, hentry]
  rfl

/-- Every scope of a session but the outermost one lies inside a scope that was there before it, and
holds no constants. So every way outward comes to the outermost scope, also from the scopes in which
stored functions were made, and looking a name up, asking for its type and assigning to it come to
an end by themselves. In the outermost scope the constants of the session keep their values, whatever
else has their names. This holds between inputs and wherever the run of an input begins or ends to
evaluate anything, and scopes that are there once stay where they are. -/
theorem scopes_rooted (config : SessionConfig) (host : Host) (events : List Event) :
    let session := (new config host).afterAll events
    (∀ m, session.Passes m →
      m.scopes.Rooted ∧
      (∀ id, id.index < m.scopes.cells.size → m.scopes.EndsInRoot id ∧
        ∀ name count, m.scopes.cells.size ≤ count →
          m.scopes.findWithin name count id = m.scopes.find? id name ∧
          m.scopes.typeWithin name count id = m.scopes.type? id name ∧
          m.scopes.targetWithin name count id = m.scopes.target id name) ∧
      (∀ (id : ScopeId) (scope : Scope) (next : ScopeId),
        m.scopes.cells[id.index]? = some scope → scope.LeadsTo next →
          m.scopes.EndsInRoot next) ∧
      ∀ text value, config.constant? text = some value →
        ∃ name, m.names.Knows text name ∧ m.scopes.entry? .root name = some (.constant value)) ∧
    (∀ text value, config.constant? text = some value → session.lookup text = some value) ∧
    (∀ event, session.machine.scopes.Extends (session.react event).machine.scopes) ∧
    ∀ input level task m, session.Visits input level task m →
      m.scopes.Extends (Eval.after (Eval.eval level task) m).scopes := by
  intro session
  have hgrown := grown_new config host events
  refine ⟨fun m hm => ?_, fun text value hvalue => ?_, fun event => ?_,
    fun input level task m hvisits => ?_⟩
  · obtain ⟨hrooted, hdefines⟩ := hm.keeps
    have hscopes := hrooted.scopes
    refine ⟨hscopes, fun id hid => ⟨hscopes.endsInRoot hid, fun name count hcount =>
      hscopes.walks_end hid name hcount⟩, fun id scope next hscope hnext => ?_,
      fun text value hvalue => (hdefines text value hvalue).lookup⟩
    obtain ⟨hid, -⟩ := Array.getElem?_eq_some_iff.mp hscope
    exact hscopes.endsInRoot (hscopes.closed id scope next hid hscope hnext)
  · have hscope := hgrown.scope.trans (Machine.rooted_initial config host).2
    exact lookup_of_defines hscope (Passes.between.keeps.2 text value hvalue)
  · exact (grown_react hgrown.rooted event).scopes
  · exact (Eval.grown_after (starts_of_visits hgrown.rooted hvisits) level).scopes

/-! ## A variable with the name of a constant -/

/-- A variable with the name of a constant stores a function that was made in a function. -/
def shadowing : Input := ⟨"", "auto true :: def() {def() {}}()", none, false⟩

/-- The scopes in which the functions were made that variables of the outermost scope store. -/
def storedClosures (session : Session) : List Nat :=
  match session.machine.scopes.cells[0]? with
  | some scope => (scope.vars.flatMap fun entry => entry.2.value.functions).map (·.closure.index)
  | none => []

/-- The function was made two scopes inside the outermost one, and the constant keeps its value. -/
theorem true_stays_true :
    ((new {} noHost).afterAll [.input shadowing]).storedClosures = [2] ∧
      ((new {} noHost).afterAll [.input shadowing]).machine.scopes.EndsInRoot ⟨2⟩ ∧
      ((new {} noHost).afterAll [.input shadowing]).lookup "true" = some (.bool true) := by
  have hsize : ((new {} noHost).afterAll [.input shadowing]).machine.scopes.cells.size = 3 := by
    decide +kernel
  have htrue : ({} : SessionConfig).constant? "true" = some (.bool true) :=
    Machine.constant?_of_language rfl (by decide)
  obtain ⟨hpasses, hlookup, -, -⟩ := scopes_rooted {} noHost [.input shadowing]
  obtain ⟨-, hends, -, -⟩ := hpasses _ .between
  have hlast : 2 < ((new {} noHost).afterAll [.input shadowing]).machine.scopes.cells.size :=
    hsize ▸ Nat.lt_succ_self 2
  exact ⟨by decide +kernel, (hends ⟨2⟩ hlast).1, hlookup "true" (.bool true) htrue⟩

end Session
end ExprScript
