import ExprScript.Proofs.Evaluation.Literals
import ExprScript.Proofs.Evaluation.Upkeep
import ExprScript.Proofs.Session.History
import ExprScript.Proofs.Token.Run

/-!
# The constants of a session

A session defines its constants before anything is fed to it. Nothing that happens to a session
takes them away, or changes what their names are.
-/
namespace ExprScript

/-! ## Constants of the outermost scope -/

namespace Scopes

variable {scopes : Scopes} {name other : Name} {value : Value}

def rootConstant? (scopes : Scopes) (name : Name) : Option Value :=
  scopes.cells[0]?.bind fun scope => scope.constants.lookup name

/-- A constant of the outermost scope is what its name means there. -/
theorem entry?_of_rootConstant? (h : scopes.rootConstant? name = some value) :
    scopes.entry? .root name = some (.constant value) := by
  obtain ⟨scope, hscope, hvalue⟩ := Option.bind_eq_some_iff.mp h
  obtain ⟨hsize, -⟩ := Array.getElem?_eq_some_iff.mp hscope
  obtain ⟨count, hcount⟩ := Nat.exists_eq_add_one_of_ne_zero (Nat.ne_of_gt hsize)
  have hroot : scopes.cells[ScopeId.root.index]? = some scope := hscope
  have hentry : scope.entry? name = some (.constant value) := by
    unfold Scope.entry?
    rw [hvalue]
  unfold entry? find?
  rw [hcount]
  simp only [findWithin, hroot, hentry, Option.map_some]

theorem rootConstant?_child (h : scopes.rootConstant? name = some value) (parent : ScopeId) :
    (scopes.child parent).2.rootConstant? name = some value := by
  obtain ⟨scope, hscope, hvalue⟩ := Option.bind_eq_some_iff.mp h
  obtain ⟨hsize, -⟩ := Array.getElem?_eq_some_iff.mp hscope
  unfold rootConstant? child
  dsimp only
  rw [Array.getElem?_push, if_neg (Nat.ne_of_lt hsize)]
  exact h

theorem rootConstant?_setVariable (scopes : Scopes) (id : ScopeId) (other : Name) (v : Variable)
    (name : Name) :
    (scopes.setVariable id other v).rootConstant? name = scopes.rootConstant? name := by
  unfold rootConstant? setVariable
  dsimp only
  rw [Array.getElem?_modify]
  split
  · cases scopes.cells[0]? <;> rfl
  · rfl

theorem rootConstant?_setConstant_of_ne (scopes : Scopes) (id : ScopeId) (value : Value)
    (h : name ≠ other) :
    (scopes.setConstant id other value).rootConstant? name = scopes.rootConstant? name := by
  unfold rootConstant? setConstant
  dsimp only
  rw [Array.getElem?_modify]
  split
  · cases scopes.cells[0]? with
    | none => rfl
    | some scope => exact Entries.lookup_insert_of_ne scope.constants value h
  · rfl

theorem rootConstant?_setConstant_self (h : 0 < scopes.cells.size) (name : Name) (value : Value) :
    (scopes.setConstant .root name value).rootConstant? name = some value := by
  unfold rootConstant? setConstant
  dsimp only
  have hroot : ScopeId.root.index = 0 := rfl
  rw [Array.getElem?_modify, if_pos hroot, Array.getElem?_eq_getElem h]
  exact Entries.lookup_insert_self ..

end Scopes

/-! ## Definitions -/

/-- Built-in functions as constants, numbered from a number on. -/
def builtinConstants (first : Nat) (actions : List Action) : List (String × Value) :=
  (actions.zipIdx first).map fun (action, id) => (action.name, .builtin ⟨id, action⟩)

/-- The constants of the language, and then the built-in functions. -/
def SessionConfig.constants (config : SessionConfig) : List (String × Value) :=
  [("true", .bool true), ("false", .bool false), ("null", .null)] ++
    builtinConstants 0 config.builtins

/-- The value of a constant. Of several under one text the last one counts. -/
def SessionConfig.constant? (config : SessionConfig) (text : String) : Option Value :=
  config.constants.reverse.lookup text

/-- A machine that has more constants, defined one after another. -/
def Machine.defineAll (m : Machine) (constants : List (String × Value)) : Machine :=
  constants.foldl (fun m constant => m.defineConstant constant.1 constant.2) m

/-- Whether a machine has a constant of its outermost scope under a text. -/
def Machine.Defines (m : Machine) (text : String) (value : Value) : Prop :=
  ∃ name, m.names.Knows text name ∧ m.scopes.rootConstant? name = some value

namespace Machine

variable {m : Machine} {text other : String} {value : Value} {constants : List (String × Value)}

theorem defines_defineConstant (h : 0 < m.scopes.cells.size) (text : String) (value : Value) :
    (m.defineConstant text value).Defines text value :=
  ⟨(m.names.intern text).1, m.names.knows_intern text,
    Scopes.rootConstant?_setConstant_self h _ value⟩

theorem Defines.defineConstant (h : m.Defines text value) (hsound : m.names.Sound)
    (hne : text ≠ other) (new : Value) : (m.defineConstant other new).Defines text value := by
  obtain ⟨name, hname, hvalue⟩ := h
  have hkept : (m.names.intern other).2.Knows text name := m.names.grows_intern other _ _ hname
  refine ⟨name, hkept, ?_⟩
  have hother : name ≠ (m.names.intern other).1 := by
    rintro rfl
    exact hne ((hsound.intern other).text_unique hkept (m.names.knows_intern other))
  exact (Scopes.rootConstant?_setConstant_of_ne m.scopes .root new hother).trans hvalue

/-- Where a constant is defined, its value is what its name means in the outermost scope. -/
theorem Defines.lookup (h : m.Defines text value) :
    ∃ name, m.names.Knows text name ∧ m.scopes.entry? .root name = some (.constant value) := by
  obtain ⟨name, hname, hvalue⟩ := h
  exact ⟨name, hname, Scopes.entry?_of_rootConstant? hvalue⟩

theorem defineAll_append (m : Machine) (constants : List (String × Value))
    (last : String × Value) :
    m.defineAll (constants ++ [last]) = (m.defineAll constants).defineConstant last.1 last.2 :=
  List.foldl_append

theorem sound_defineAll (h : m.names.Sound) (constants : List (String × Value)) :
    (m.defineAll constants).names.Sound := by
  induction constants generalizing m with
  | nil => exact h
  | cons constant constants ih => exact ih (h.intern constant.1)

theorem size_defineAll (m : Machine) (constants : List (String × Value)) :
    (m.defineAll constants).scopes.cells.size = m.scopes.cells.size := by
  induction constants generalizing m with
  | nil => rfl
  | cons constant constants ih =>
    exact (ih (m.defineConstant constant.1 constant.2)).trans Array.size_modify

theorem defines_defineAll (hsound : m.names.Sound) (hroom : 0 < m.scopes.cells.size)
    (h : constants.reverse.lookup text = some value) :
    (m.defineAll constants).Defines text value := by
  induction constants using List.reverseRecOn with
  | nil => cases h
  | append_singleton constants last ih =>
    rw [List.reverse_append, List.reverse_singleton, List.singleton_append, List.lookup_cons] at h
    rw [defineAll_append]
    split at h
    · rename_i hsame
      obtain rfl := eq_of_beq hsame
      cases h
      exact defines_defineConstant ((size_defineAll m constants).symm ▸ hroom) _ _
    · rename_i hother
      exact (ih h).defineConstant (sound_defineAll hsound constants) (by simpa using hother) _

/-! ### Those of a session -/

theorem defineAll_numbered (m : Machine) (nextId : Nat) (constants : List (String × Value)) :
    defineAll { m with nextId } constants = { m.defineAll constants with nextId } := by
  induction constants generalizing m with
  | nil => rfl
  | cons constant constants ih => exact ih (m.defineConstant constant.1 constant.2)

theorem defineBuiltins_eq (m : Machine) (actions : List Action) :
    actions.foldl defineBuiltin m =
      { m.defineAll (builtinConstants m.nextId actions) with
        nextId := m.nextId + actions.length } := by
  induction actions generalizing m with
  | nil => rfl
  | cons action actions ih =>
    have hid : (m.defineBuiltin action).nextId = m.nextId + 1 := rfl
    have hfirst : m.defineBuiltin action =
        { m.defineConstant action.name (.builtin ⟨m.nextId, action⟩) with
          nextId := m.nextId + 1 } := rfl
    rw [List.foldl_cons, ih, hid, hfirst, defineAll_numbered, List.length_cons, Nat.add_assoc,
      Nat.add_comm 1]
    rfl

variable {config : SessionConfig} {host : Host}

theorem initial_eq (config : SessionConfig) (host : Host) :
    initial config host =
      { (idle config host).defineAll config.constants with nextId := config.builtins.length } := by
  unfold initial
  rw [defineBuiltins_eq]
  unfold SessionConfig.constants defineAll
  rw [List.foldl_append]
  simp [defineConstant, idle]

theorem sound_initial (config : SessionConfig) (host : Host) :
    (initial config host).names.Sound := by
  have hsound : (idle config host).names.Sound := Interner.sound_empty
  have hall := sound_defineAll hsound config.constants
  rw [initial_eq]
  exact hall

theorem defines_initial (h : config.constant? text = some value) :
    (initial config host).Defines text value := by
  have hsound : (idle config host).names.Sound := Interner.sound_empty
  have hdefines := defines_defineAll hsound Nat.one_pos h
  rw [initial_eq]
  generalize (idle config host).defineAll config.constants = m at hdefines ⊢
  exact hdefines

/-- A constant of the language is one of the session, unless a built-in function takes its name. -/
theorem constant?_of_language (hconstant : value.constant? = some text)
    (hbuiltins : ∀ action ∈ config.builtins, action.name ≠ text) :
    config.constant? text = some value := by
  have hnone : (builtinConstants 0 config.builtins).reverse.lookup text = none := by
    refine List.lookup_eq_none_iff.mpr fun constant hmem => ?_
    obtain ⟨⟨action, id⟩, haction, rfl⟩ := List.mem_map.mp (List.mem_reverse.mp hmem)
    have hname := hbuiltins action
      (List.mem_of_getElem? (List.mem_zipIdx_iff_getElem?.mp haction))
    simpa using hname.symm
  unfold SessionConfig.constant? SessionConfig.constants
  rw [List.reverse_append, List.lookup_append, hnone, Option.none_or]
  cases value with
  | null =>
    cases hconstant
    rfl
  | bool b =>
    cases b <;>
    · cases hconstant
      rfl
  | _ => cases hconstant

end Machine

/-! ## What nothing takes away -/

/-- The constants of the outermost scope and the names that a table has, kept as they are. -/
def Upkeep.constants (names : Interner) (constants : Name → Option Value) : Upkeep where
  opens _ := True
  scopes scopes :=
    ∀ name value, constants name = some value → scopes.rootConstant? name = some value
  names more := more.Sound ∧ names.Grows more

theorem Upkeep.constants_lawful (names : Interner) (constants : Name → Option Value) :
    (Upkeep.constants names constants).Lawful where
  child h parent :=
    ⟨fun name value hvalue => Scopes.rootConstant?_child (h name value hvalue) parent, trivial⟩
  declare h _ name v := by
    intro other value hvalue
    rw [Scopes.rootConstant?_setVariable]
    exact h other value hvalue
  store h _ value := by
    intro other old hold
    rw [Scopes.rootConstant?_setVariable]
    exact h other old hold
  lexes h file start := by
    refine Lexing.names_lexFrom (fun table text hkept => ?_) h file start
    exact ⟨hkept.1.intern text, hkept.2.trans (table.grows_intern text)⟩

namespace Session

variable {U : Upkeep} {session : Session} {script : Script}

theorem upheld_readInput (law : U.Lawful) (name text : String) (pending : Option PendingInput)
    (mayWait : Bool) :
    (Simulation.upheld U).Rel script () (fun _ => True) (readInput name text pending mayWait)
      (readInput name text pending mayWait) := by
  unfold readInput
  refine (Simulation.upheld_readTokens law _ _).bind fun tokens _ => ?_
  dsimp only
  split
  · exact .pure trivial
  · exact (Simulation.upheld_readScript _ _).bind fun _ _ => .pure trivial

theorem upheld_evalInput (law : U.Lawful) (hroot : U.opens .root) (name text : String)
    (pending : Option PendingInput) (mayWait : Bool) :
    (Simulation.upheld U).Rel script () (fun _ => True) (evalInput name text pending mayWait)
      (evalInput name text pending mayWait) := by
  refine (upheld_readInput law name text pending mayWait).bind fun read _ => ?_
  cases read with
  | inl pending => exact .pure trivial
  | inr read =>
    have heval := Simulation.rel_eval (Simulation.upheld_lawful law hroot) (maxLevels read) script
      () (.program read) trivial
    exact heval.bind fun _ _ => .pure trivial

theorem machine_feed (session : Session) (input : Input) :
    (session.feed input).2.machine =
      Eval.after (evalInput input.name input.text input.pending input.mayWait) session.machine := by
  obtain ⟨machine, sourceName, palette⟩ := session
  unfold feed runInput Eval.after
  dsimp only
  cases evalInput input.name input.text input.pending input.mayWait machine <;> rfl

/-- Whatever happens to a session keeps what every run keeps. -/
theorem upholds_react (law : U.Lawful) (hroot : ∀ id, U.opens id)
    (h : session.machine.Upholds U script) (event : Event) :
    (session.react event).machine.Upholds U script := by
  cases event with
  | input input =>
    have hends := Simulation.upheld_rel.mp
      (upheld_evalInput law (hroot .root) input.name input.text input.pending input.mayWait)
      session.machine h (hroot _)
    obtain ⟨-, hafter, -⟩ := Simulation.after_of_ends hends
    have hmachine : (session.react (.input input)).machine = _ := machine_feed session input
    rw [hmachine]
    exact hafter
  | takeLine =>
    unfold react
    dsimp only
    split
    · exact h.of_eq rfl
    · exact h
  | takeNotices => exact h.of_eq rfl
  | print text => exact h.of_eq rfl
  | report d => exact h.of_eq rfl

theorem upholds_afterAll (law : U.Lawful) (hroot : ∀ id, U.opens id)
    (h : session.machine.Upholds U script) (events : List Event) :
    (session.afterAll events).machine.Upholds U script := by
  induction events generalizing session with
  | nil => exact h
  | cons event events ih => exact ih (upholds_react law hroot h event)

theorem after_of_begins {input : Input} {m : Machine} (h : session.Begins input script m) :
    Eval.after (readInput input.name input.text input.pending input.mayWait) session.machine =
      m := by
  unfold Eval.after
  unfold Begins at h
  rw [h]

/-- Wherever the run of an input begins or ends to evaluate anything, it keeps what every run
keeps. -/
theorem upholds_of_visits (law : U.Lawful) (hroot : ∀ id, U.opens id)
    (h : session.machine.Upholds U script) {input : Input} {level : Nat} {task : Task} {m : Machine}
    (hvisits : session.Visits input level task m) :
    ∃ running, m.Upholds U running ∧ (Eval.after (Eval.eval level task) m).Upholds U running := by
  obtain ⟨read, start, hbegins, hvisits⟩ := hvisits
  have hends := Simulation.upheld_rel.mp
    (upheld_readInput law input.name input.text input.pending input.mayWait) session.machine h
    (hroot _)
  obtain ⟨-, hstart, -⟩ := Simulation.after_of_ends hends
  rw [after_of_begins hbegins] at hstart
  have hlawful := Simulation.upheld_lawful law (hroot .root)
  have hadmits : (Simulation.upheld U).Admits (.program read) start :=
    ⟨script, (), trivial, rfl, hstart, hroot _⟩
  obtain ⟨running, setting, htask, -, hm, hopen⟩ :=
    Simulation.admits_of_visits hlawful Simulation.upheld_isInvariant hadmits hvisits
  have hrelated : (Simulation.upheld U).related running setting m m := ⟨rfl, hm, hopen⟩
  obtain ⟨-, hafter, -⟩ := Simulation.related_after hlawful htask hrelated level
  exact ⟨running, hm, hafter⟩

/-- What a machine defines is defined as long as its names and its constants are kept. -/
theorem defines_of_upholds {m n : Machine} {text : String} {value : Value}
    (hn : n.Upholds (.constants m.names m.scopes.rootConstant?) script)
    (h : m.Defines text value) : n.Defines text value := by
  obtain ⟨name, hname, hvalue⟩ := h
  exact ⟨name, hn.names.2 _ _ hname, hn.scopes name value hvalue⟩

/-- Whatever happens to a session, it keeps the names and the constants that it began with. -/
theorem upholds_constants (config : SessionConfig) (host : Host) (events : List Event) :
    ((new config host).afterAll events).machine.Upholds
      (.constants (Machine.initial config host).names
        (Machine.initial config host).scopes.rootConstant?)
      (new config host).machine.context.script := by
  apply upholds_afterAll (Upkeep.constants_lawful _ _) fun _ => trivial
  exact ⟨rfl, fun _ _ h => h, Machine.sound_initial config host, .refl _⟩

/-- Whatever happens to a session, names are sound and constants mean what they are, also where more
texts have names. -/
theorem constants_kept {config : SessionConfig} (host : Host)
    (hbuiltins : ∀ action ∈ config.builtins, action.name ∉ ["true", "false", "null"])
    (events : List Event) :
    let session := (new config host).afterAll events
    session.machine.names.Sound ∧
      ∀ names script, session.machine.names.Grows names →
        ({ session.machine with names }.atTop script).HasConstants := by
  intro session
  have hkeeps := upholds_constants config host events
  refine ⟨hkeeps.names.1, ?_⟩
  intro names script hgrows value text name hconstant hname
  have hdefined : config.constant? text = some value := by
    apply Machine.constant?_of_language hconstant
    rintro action haction rfl
    apply hbuiltins action haction
    cases value with
    | null => simp_all [Value.constant?]
    | bool b => cases b <;> simp_all [Value.constant?]
    | _ => cases hconstant
  obtain ⟨first, hfirst, hvalue⟩ := defines_of_upholds hkeeps (Machine.defines_initial hdefined)
  have hknows : names.Knows text first := hgrows _ _ hfirst
  obtain rfl : first = name := hknows.unique hname
  exact Scopes.entry?_of_rootConstant? hvalue

end Session
end ExprScript
