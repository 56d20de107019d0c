import ExprScript.Proofs.Evaluation.Surroundings
import ExprScript.Proofs.Session.History

/-!
# Scripts that scripts run

The built-in `run` reads a file and runs it in the middle of another run. It does what the session
would do with the text of the file as an input of its own: what the two leave, show and end with is
the same, but that a fault also carries the call of `run` and the calls around it.
-/
namespace ExprScript

/-! ## The call -/

/-- Arguments from which `run` takes a path. -/
def Arguments.GivePath (given : List Given) (span : Span) (path : String) : Prop :=
  Arguments.values Action.run.name (Action.run.params.map (·.formal)) given span #[] =
    .ok [some (.str path)] #[]

theorem Arguments.givePath_positional (path : String) (argSpan span : Span) :
    GivePath [⟨none, .str path, argSpan⟩] span path := rfl

def Context.inCall (here : Context) (frame : TraceFrame) : Context :=
  { here with calls := here.calls.under [frame] }

def Context.leaveCall (here : Context) : Context := { here with calls := here.calls.pop }

theorem Context.leaveCall_inCall (here : Context) (frame : TraceFrame) :
    (here.inCall frame).leaveCall = here := by
  simp [inCall, leaveCall, CallStack.under_nil]

namespace Eval

/-- Reads a text and runs the script that it makes, with levels that may depend on the script. -/
def runText (file : SourceFile) (levels : Script → Nat) : Eval Value := do
  let script ← readWhole file
  eval (levels script) (.program script)

variable {path text : String} {given : List Given} {span : Span} {m : Machine}

theorem callBuiltin_run (h : Arguments.GivePath given span path) (run : Task → Eval Value) :
    callBuiltin run .run given span m =
      duringCall ⟨Action.run.name, span⟩ (run (.native .run (.str path) span)) m := by
  have hchecked : checked (Arguments.values Action.run.name (Action.run.params.map (·.formal)) given
      span) m = .ok [some (.str path)] m := by
    unfold Arguments.GivePath at h
    simp only [checked, h]
    rfl
  unfold callBuiltin
  rw [bind_apply, hchecked]
  rfl

theorem native_run (h : m.host.read? path = some (.ok text)) (level : Nat) :
    eval (level + 1) (.native .run (.str path) span) m =
      runText ⟨path, text⟩ (fun _ => level) m := by
  have hread : readFile path span m = .ok text m := by
    simp only [readFile, Host.readFile, h]
  have hload : loadScript path span m = readWhole ⟨path, text⟩ m := by
    unfold loadScript
    rw [bind_apply, hread]
  rw [Simulation.eval_succ]
  change (loadScript path span >>= fun script => eval level (.program script)) m = _
  unfold runText
  rw [bind_apply, bind_apply, hload]

/-- The levels that a run has are those for the script that it reads. -/
theorem exists_runText_eq (file : SourceFile) (levels : Script → Nat) (m : Machine) :
    ∃ level, runText file levels m = runText file (fun _ => level) m := by
  simp only [runText, bind_apply]
  cases readWhole file m with
  | ok script n => exact ⟨levels script, rfl⟩
  | error e n => exact ⟨0, rfl⟩

def leaveCall : EStateM.Result Interrupt Machine Value → EStateM.Result Interrupt Machine Value
  | .ok v n => .ok v { n with context := n.context.leaveCall }
  | .error e n =>
    .error (e.completed fun d => n.context.calls.attach d)
      { n with context := n.context.leaveCall }

theorem duringCall_unlimited (h : m.context.calls.limit = none) (frame : TraceFrame)
    (p : Eval Value) :
    duringCall frame p m = leaveCall (p { m with context := m.context.inCall frame }) := by
  have hpush : (m.context.calls.under []).push frame = .ok (m.context.calls.under [frame]) :=
    CallStack.push_under h
  rw [CallStack.under_nil] at hpush
  unfold duringCall
  rw [hpush]
  dsimp only
  rw [completeFault_eq]
  unfold elsewhere handled Context.inCall
  dsimp only
  cases p _ <;> rfl

theorem Lost.leaveCall {r : EStateM.Result Interrupt Machine Value} (h : Lost r) :
    Lost (Eval.leaveCall r) := by
  cases h
  exact .outOfLevels _

theorem InStep.leaveCall {forgiving : Prop} {G : Value → Prop} {J J' : Interrupt → Interrupt → Prop}
    {K K' : Machine → Machine → Prop} {r s : EStateM.Result Interrupt Machine Value}
    (h : InStep forgiving G J K r s)
    (hJ : ∀ e f k l, J e f → K k l → J' (e.completed fun d => k.context.calls.attach d) f)
    (hK : ∀ k l, K k l → K' { k with context := k.context.leaveCall } l) :
    InStep forgiving G J' K' (Eval.leaveCall r) s := by
  cases h with
  | ok ha hkl => exact .ok ha (hK _ _ hkl)
  | error hef hkl => exact .error (hJ _ _ _ _ hef hkl) (hK _ _ hkl)
  | lost hforgiving hlost => exact .lost hforgiving hlost.leaveCall

/-! ## Reading and running in two places -/

section
variable {pair : Surroundings.Pair} {here here' : Context}

/-- One machine, in one context and in the other, behind what was shown there before. -/
def InPlaces (pair : Surroundings.Pair) (here here' : Context) (m n : Machine) : Prop :=
  ∃ k : Machine, m = k.placed here pair.first.notices ∧ n = k.placed here' pair.second.notices

/-- The same end of a program, but for the calls around it. -/
def SameEnd (pair : Surroundings.Pair) (e f : Interrupt) : Prop :=
  e.TracedAlike pair.first.calls.frames pair.second.calls.frames f ∧ e.EndsProgram

theorem sameEnd_unread {file : SourceFile} {P : Span → Prop} {e : Interrupt}
    (he : e.Unread file P) : SameEnd pair e e := by
  cases he with
  | fault hd =>
    refine ⟨.bare fun d heq => ?_, trivial⟩
    cases heq
    exact hd.frames
  | unparsed why =>
    refine ⟨.bare fun d heq => ?_, trivial⟩
    cases heq

theorem readWhole_alike (file : SourceFile) (k : Machine) :
    InStep pair.forgiving (fun _ => True) (SameEnd pair) (InPlaces pair here here')
      (readWhole file (k.placed here pair.first.notices))
      (readWhole file (k.placed here' pair.second.notices)) := by
  have htokens := readTokens_ends (K := InPlaces pair here here')
    (m := k.placed here pair.first.notices) (n := k.placed here' pair.second.notices)
    (Span.liesIn_closed file).none.start rfl rfl fun names ds logging _ =>
      ⟨k.lexed file names ds logging, k.lexed_placed _ _ _ _ _ _, k.lexed_placed _ _ _ _ _ _⟩
  refine (htokens.inStep fun _ => sameEnd_unread).bind ?_ (fun _ _ h => h) fun _ _ h => h
  rintro tokens _ _ hplaced ⟨l, rfl, rfl⟩
  have hscript := readScript_ends (K := InPlaces pair here here')
    (m := l.placed here pair.first.notices) (n := l.placed here' pair.second.notices)
    (Span.liesIn_closed file) file hplaced rfl fun ds _ =>
      ⟨l.noteAll file ds, l.noteAll_placed _ _ _ _, l.noteAll_placed _ _ _ _⟩
  exact hscript.inStep fun _ => sameEnd_unread

theorem program_alike (hfirst : here.calls = pair.first.calls)
    (hsecond : here'.calls = pair.second.calls) (script : Script) (k : Machine) (level : Nat) :
    InStep pair.forgiving (fun _ => True) (SameEnd pair) (InPlaces pair here here')
      (eval level (.program script) (k.placed here pair.first.notices))
      (eval level (.program script) (k.placed here' pair.second.notices)) := by
  cases level with
  | zero =>
    have hgivenUp : SameEnd pair (.givenUp .outOfLevels) (.givenUp .outOfLevels) :=
      ⟨.bare nofun, trivial⟩
    exact .error hgivenUp ⟨k, rfl, rfl⟩
  | succ level =>
    have hlawful : (Simulation.surrounded pair).Lawful := Simulation.surrounded_lawful
    have hnodes := (Simulation.rel_eval hlawful level).nodes script
    have hbody : (Simulation.surrounded pair).Rel script (⟨[], 0⟩ : InProgress) _
        (runInPlace (fun id => eval level (.node id)) script.root)
        (runInPlace (fun id => eval level (.node id)) script.root) :=
      hlawful.runInPlace hnodes trivial
    rw [← CallStack.under_nil pair.first.calls] at hfirst
    rw [← CallStack.under_nil pair.second.calls] at hsecond
    have hprogram := Simulation.surrounded_program k here here' hfirst hsecond hbody
    rw [Simulation.eval_succ, Simulation.eval_succ]
    exact hprogram.mono (fun _ _ => trivial) (fun _ _ h => h) fun _ _ h => h

theorem runText_alike (pair : Surroundings.Pair) (hfirst : here.calls = pair.first.calls)
    (hsecond : here'.calls = pair.second.calls) (file : SourceFile) (level : Nat) (k : Machine) :
    InStep pair.forgiving (fun _ => True) (SameEnd pair) (InPlaces pair here here')
      (runText file (fun _ => level) (k.placed here pair.first.notices))
      (runText file (fun _ => level) (k.placed here' pair.second.notices)) := by
  refine (readWhole_alike file k).bind ?_ (fun _ _ h => h) fun _ _ h => h
  rintro script _ _ - ⟨l, rfl, rfl⟩
  exact program_alike hfirst hsecond script l level

end

end Eval

namespace Session

theorem runComplete_eq (session : Session) (name text : String) :
    session.runComplete name text =
      session.ended (Eval.runText ⟨name, text⟩ maxLevels session.machine) := by
  have hfeed : session.runComplete name text = session.feed ⟨name, text, none, false⟩ := rfl
  rw [hfeed, feed_eq, readInput_eq]
  unfold Eval.runText Eval.readWhole
  rw [Eval.bind_apply, Eval.bind_apply]
  dsimp only [inputSource, earlierTokens]
  cases Eval.readTokens ⟨name, text⟩ Position.start session.machine with
  | error e m => rfl
  | ok tokens m =>
    simp only [Bool.false_and, Bool.false_eq_true, if_false]
    cases hscript : Eval.readScript ⟨name, text⟩ tokens m with
    | error e n => simp [hscript, ended]
    | ok script n => simp [hscript]

/-- A call ends as an input of a session does. A fault carries the calls that the input had in
progress, and below them those around the call. -/
inductive EndsAs (below : List TraceFrame) :
    EStateM.Result Interrupt Machine Value → RunOutcome → Prop
  | finished (value : Value) (m : Machine) : EndsAs below (.ok value m) (.finished value)
  | failed (d : Diagnostic) (m : Machine) :
      EndsAs below (.error (.fatal { d with frames := d.frames ++ below }) m) (.failed d)
  | exited (status : Int) (m : Machine) :
      EndsAs below (.error (.exited status) m) (.exited status)
  | givenUp (why : GivenUp) (m : Machine) : EndsAs below (.error (.givenUp why) m) (.givenUp why)

theorem EndsAs.not_lost {below : List TraceFrame} {r : EStateM.Result Interrupt Machine Value}
    {outcome : RunOutcome} (h : EndsAs below r outcome)
    (hends : outcome ≠ .givenUp .outOfLevels) : ¬Eval.Lost r := by
  rintro ⟨m⟩
  cases h
  exact hends rfl

/-- The end of a program is that of the call which runs it, once the calls around are attached. -/
theorem endsAs_of_sameEnd {pair : Surroundings.Pair} {e f : Interrupt} (h : Eval.SameEnd pair e f)
    (hsecond : pair.second.calls.frames = []) (m : Machine) :
    EndsAs pair.first.calls.frames
      (.error (e.completed fun d => pair.first.calls.attach d) m) (.ofInterrupt f) := by
  obtain ⟨htraced, hends⟩ := h
  cases htraced with
  | @traced d inner hinner =>
    have hfailed : EndsAs pair.first.calls.frames _ _ := .failed { d with frames := inner } m
    rw [hsecond, List.append_nil]
    simpa [Interrupt.completed, CallStack.attach, Diagnostic.withFrames, hinner,
      RunOutcome.ofInterrupt] using hfailed
  | bare hbare =>
    cases e with
    | fatal d =>
      have hfailed : EndsAs pair.first.calls.frames _ _ := .failed d m
      have hnone : d.frames = [] := hbare d rfl
      simpa [Interrupt.completed, CallStack.attach, Diagnostic.withFrames, hnone,
        RunOutcome.ofInterrupt] using hfailed
    | exited status => exact .exited status m
    | givenUp why => exact .givenUp why m
    | returned _ | broke _ | continued _ => exact hends.elim

end Session

/-- Machines in one state: they may differ in where they stand and in what they have shown. -/
def Machine.SameState (m n : Machine) : Prop :=
  n = { m with context := n.context, notices := n.notices }

/-- Two machines in one state have come to one state again, each in the context in which it was, and
have shown the same. -/
structure Machine.InParallel (m n m' n' : Machine) : Prop where
  state : m'.SameState n'
  first : m'.context = m.context
  second : n'.context = n.context
  notices : ∃ shown, m'.notices = m.notices ++ shown ∧ n'.notices = n.notices ++ shown

/-- A call in a machine does what an input does in a session: the two end in the same way, but for
the calls around the call, and leave the same behind. -/
structure DoesAs (below : List TraceFrame) (m : Machine) (session : Session) (call : Eval Value)
    (input : RunOutcome × Session) : Prop where
  ends : Session.EndsAs below (call m) input.1
  parallel : m.InParallel session.machine (Eval.after call m) input.2.machine

/-- What a call and an input come to that are in step. -/
theorem DoesAs.of_inStep {below : List TraceFrame} {m : Machine} {session : Session}
    {call : Eval Value} {s : EStateM.Result Interrupt Machine Value}
    (h : Eval.InStep False (fun _ => True)
      (fun e f => ∀ k, Session.EndsAs below (.error e k) (.ofInterrupt f))
      (m.InParallel session.machine) (call m) s) :
    DoesAs below m session call (session.ended s) := by
  have hboth : Session.EndsAs below (call m) (session.ended s).1 ∧
      m.InParallel session.machine (Eval.after call m) (session.ended s).2.machine := by
    unfold Eval.after
    generalize call m = r at h ⊢
    cases h with
    | ok _ hmachines => exact ⟨.finished _ _, hmachines⟩
    | error hends hmachines => exact ⟨hends _, hmachines⟩
    | lost hforgiving _ => exact hforgiving.elim
  exact ⟨hboth.1, hboth.2⟩

theorem DoesAs.congr {below : List TraceFrame} {m : Machine} {session : Session}
    {call call' : Eval Value} {input : RunOutcome × Session}
    (h : DoesAs below m session call input) (hsame : call m = call' m) :
    DoesAs below m session call' input := by
  have hafter : Eval.after call m = Eval.after call' m := by
    unfold Eval.after
    rw [hsame]
  exact ⟨hsame ▸ h.ends, hafter ▸ h.parallel⟩

namespace Session

section
variable {session : Session} {m : Machine} {path text : String} {given : List Given} {span : Span}

/-- A call of `run` that does not use up its levels ends in the same way with more of them. -/
theorem callRun_of_fewer (hlimit : m.context.calls.limit = none)
    (hgiven : Arguments.GivePath given span path) {level level' : Nat} (hle : level ≤ level')
    (hends : ¬Eval.Lost (Eval.callBuiltin (Eval.eval level) .run given span m)) :
    Eval.callBuiltin (Eval.eval level) .run given span m =
      Eval.callBuiltin (Eval.eval level') .run given span m := by
  rw [Eval.callBuiltin_run hgiven, Eval.duringCall_unlimited hlimit] at hends ⊢
  rw [Eval.callBuiltin_run hgiven, Eval.duringCall_unlimited hlimit]
  have htask : Discipline.any.task m.context.script (.native .run (.str path) span) :=
    ⟨Discipline.any_value _, Discipline.any_placed _ _⟩
  exact congrArg Eval.leaveCall
    (Simulation.eval_of_fewer hle htask fun hlost => hends hlost.leaveCall)

/-- With as many levels as the session gives to the input, `run` does what the session does. -/
theorem exists_run_doesAs (hstate : m.SameState session.machine)
    (hsession : session.machine.context.calls = CallStack.empty none)
    (hlimit : m.context.calls.limit = none) (hfile : m.host.read? path = some (.ok text))
    (hgiven : Arguments.GivePath given span path) :
    ∃ level, DoesAs (⟨Action.run.name, span⟩ :: m.context.calls.frames) m session
      (Eval.callBuiltin (Eval.eval level) .run given span) (session.runComplete path text) := by
  let here := m.context.inCall ⟨Action.run.name, span⟩
  let pair : Surroundings.Pair :=
    { first := ⟨m.notices, here.calls⟩
      second := ⟨session.machine.notices, session.machine.context.calls⟩
      alike := .inr ⟨hlimit, by rw [hsession]; rfl⟩
      forgiving := False }
  have hfirst : { m with context := here } =
      Machine.placed { m with notices := #[] } here m.notices := by
    simp [Machine.placed]
  have hsecond : session.machine =
      Machine.placed { m with notices := #[] } session.machine.context session.machine.notices := by
    simp only [Machine.placed, Array.append_empty]
    exact hstate
  obtain ⟨level, hlevel⟩ := Eval.exists_runText_eq ⟨path, text⟩ maxLevels session.machine
  have hinput : session.runComplete path text =
      session.ended (Eval.runText ⟨path, text⟩ (fun _ => level) session.machine) :=
    (runComplete_eq session path text).trans (congrArg session.ended hlevel)
  have hcall : Eval.callBuiltin (Eval.eval (level + 1)) .run given span m = Eval.leaveCall _ :=
    (Eval.callBuiltin_run hgiven _).trans (Eval.duringCall_unlimited hlimit _ _)
  rw [Eval.native_run (m := { m with context := here }) hfile] at hcall
  have halike : Eval.InStep False (fun _ => True) (Eval.SameEnd pair)
      (Eval.InPlaces pair here session.machine.context) _ _ :=
    Eval.runText_alike pair rfl rfl ⟨path, text⟩ level { m with notices := #[] }
  rw [← hfirst, ← hsecond] at halike
  rw [hinput]
  refine ⟨level + 1, .of_inStep ?_⟩
  rw [hcall]
  refine halike.leaveCall ?_ ?_
  · rintro e f _ _ hend ⟨k, rfl, rfl⟩
    exact fun k => endsAs_of_sameEnd hend (by simp [pair, hsession, CallStack.empty]) k
  · rintro _ _ ⟨k, rfl, rfl⟩
    exact ⟨rfl, Context.leaveCall_inCall m.context _, rfl, k.notices, rfl, rfl⟩

/-- Wherever `run` is called in a session without a limit of calls, it does what the session does
with the text of the file as an input, if it is in the same state. If the input comes to an end, so
does the call with all levels from some number on, and there is no other end with fewer levels. -/
theorem run_as_input (hstate : m.SameState session.machine)
    (hsession : session.machine.context.calls = CallStack.empty none)
    (hlimit : m.context.calls.limit = none) (hfile : m.host.read? path = some (.ok text))
    (hgiven : Arguments.GivePath given span path) :
    let call (level : Nat) := Eval.callBuiltin (Eval.eval level) .run given span
    let input := session.runComplete path text
    let below := ⟨Action.run.name, span⟩ :: m.context.calls.frames
    ∃ enough, DoesAs below m session (call enough) input ∧
      (input.1 ≠ .givenUp .outOfLevels →
        ∀ level, enough ≤ level ∨ ¬Eval.Lost (call level m) →
          DoesAs below m session (call level) input) := by
  intro call input below
  obtain ⟨enough, hdoes⟩ := exists_run_doesAs hstate hsession hlimit hfile hgiven
  refine ⟨enough, hdoes, fun hends level hlevel => hdoes.congr ?_⟩
  have hkept : ¬Eval.Lost (call enough m) := hdoes.ends.not_lost hends
  rcases Nat.le_total enough level with hle | hle
  · exact callRun_of_fewer hlimit hgiven hle hkept
  · rcases hlevel with hmore | hended
    · rw [Nat.le_antisymm hle hmore]
    · exact (callRun_of_fewer hlimit hgiven hle hended).symm

end

/-! ## A file that fails -/

def callingFiles : Host := ⟨fun _ => some (.ok "1()"), [], true⟩

/-- A session in which calls have no limit. -/
def unlimited : Session := new { maxCalls := none } callingFiles

/-- The machine of the session inside a call of `f`. -/
def insideCall : Machine :=
  { unlimited.machine with context := unlimited.machine.context.inCall ⟨"f", {}⟩ }

/-- The call of `run` on a file there. -/
def callingRun : EStateM.Result Interrupt Machine Value :=
  Eval.callBuiltin (Eval.eval 100) .run [⟨none, .str "lib", {}⟩] {} insideCall

def bothFail : Bool :=
  match callingRun, (unlimited.runComplete "lib" "1()").1 with
  | .error (.fatal _) _, .failed _ => true
  | _, _ => false

/-- The fault of a file that is run inside a call shows the call of `run` and the call of `f`. -/
theorem calling_file_fails :
    ∃ d m, callingRun = .error (.fatal { d with frames := d.frames ++
        [⟨Action.run.name, {}⟩, ⟨"f", {}⟩] }) m ∧
      (unlimited.runComplete "lib" "1()").1 = .failed d ∧
      insideCall.InParallel unlimited.machine m (unlimited.runComplete "lib" "1()").2.machine := by
  have hfails : bothFail = true := by decide +kernel
  have hstate : insideCall.SameState unlimited.machine := rfl
  have hsession : unlimited.machine.context.calls = CallStack.empty none := rfl
  have hlimit : insideCall.context.calls.limit = none := rfl
  have hfile : insideCall.host.read? "lib" = some (.ok "1()") := rfl
  have hgiven : Arguments.GivePath [⟨none, .str "lib", {}⟩] {} "lib" :=
    Arguments.givePath_positional "lib" {} {}
  obtain ⟨enough, -, hsame⟩ := run_as_input hstate hsession hlimit hfile hgiven
  unfold bothFail at hfails
  split at hfails
  · rename_i _ d m e hcall hinput
    have hends : (unlimited.runComplete "lib" "1()").1 ≠ .givenUp .outOfLevels := by
      rw [hinput]
      nofun
    have hdone : ¬Eval.Lost callingRun := by
      rw [hcall]
      nofun
    obtain ⟨hfailed, hparallel⟩ := hsame hends 100 (.inr hdone)
    change EndsAs _ callingRun _ at hfailed
    rw [hcall, hinput] at hfailed
    cases hfailed
    have hafter : Eval.after
        (Eval.callBuiltin (Eval.eval 100) .run [⟨none, .str "lib", {}⟩] {}) insideCall = m := by
      unfold callingRun at hcall
      simp only [Eval.after, hcall]
    rw [hafter] at hparallel
    exact ⟨e, m, hcall, hinput, hparallel⟩
  · cases hfails

end Session
end ExprScript
