import ExprScript.Proofs.Evaluation.Signals
import ExprScript.Proofs.Session.Soundness

/-!
# No signal leaves a call

The parser takes a `break` or `continue` only inside a loop, and the body of a function begins
outside of all loops. A default is written where the function is, so the parser counts the loops
around the definition as its own, but it runs where the call is. So calls stop loops of their
callers exactly through defaults that let a signal out, and if there are none, nothing that a
session runs ends in a signal.
-/
namespace ExprScript

/-- Whether the signals in the defaults of a script are to loops in the same default. -/
def Script.KeepsSignals (script : Script) : Prop := script.arena.DefaultsKeepSignals

/-- Whether the defaults of a script have no parts and are no signals. -/
def Script.plainDefaults (script : Script) : Bool :=
  script.arena.params.all fun param => param.default.all fun id =>
    (script.arena.node? id).all fun node =>
      node.expr.signal?.isNone && (node.expr.parts? script.arena).all List.isEmpty

theorem Script.keepsSignals_of_plain {script : Script} (h : script.plainDefaults = true) :
    script.KeepsSignals := by
  intro param hparam id hid label hsends
  have hplain : (script.arena.node? id).all (fun node =>
      node.expr.signal?.isNone && (node.expr.parts? script.arena).all List.isEmpty) = true := by
    have hdefault := Array.all_eq_true_iff_forall_mem.mp h param hparam
    rwa [Option.mem_def.mp hid] at hdefault
  cases hsends with
  | signal hnode hsignal => simp [hnode, hsignal] at hplain
  | beside hnode hparts hpart | inLoop hnode hparts hpart =>
    obtain ⟨-, rfl⟩ : _ ∧ _ = [] := by simpa [hnode, hparts] using hplain
    cases hpart

/-- Whether every script that a source gives keeps its signals, whatever names are known already. -/
def SourceFile.KeepsSignals (source : SourceFile) : Prop :=
  ∀ m script n, Eval.readWhole source m = .ok script n → script.KeepsSignals

namespace Session

theorem looped_of_begins {session : Session} {input : Input} {script : Script} {m : Machine}
    (hbegins : session.Begins input script m) (hkeeps : script.KeepsSignals) :
    Discipline.looped.script script := by
  obtain ⟨tokens, n, -, hread⟩ := hbegins.read
  exact Discipline.looped_script hread hkeeps

theorem looped_file {source : SourceFile} (h : source.KeepsSignals) :
    Discipline.looped.file source := by
  refine ⟨trivial, fun m script n hread => ?_⟩
  obtain ⟨tokens, k, -, hparsed⟩ := Eval.readScript_of_readWhole hread
  exact Discipline.looped_script hparsed (h m script n hread)

/-- If no default lets a signal out, no call ends in a signal and neither do the statements of a
script, in whatever order inputs, files and functions come together. -/
theorem calls_keep_signals (config : SessionConfig) (host : Host) (events : List Event)
    (hfiles : ∀ path text, host.read? path = some (.ok text) →
      SourceFile.KeepsSignals ⟨path, text⟩)
    (hevents : (new config host).Obeys Script.KeepsSignals events) (input : Input)
    (hinput : ((new config host).afterAll events).Reads Script.KeepsSignals input) :
    let session := (new config host).afterAll events
    (∀ level f values m, session.Visits input level (.body f values) m →
      ¬Eval.EndsInSignal (Eval.eval level (.body f values)) m) ∧
    ∀ level script m, session.Visits input (level + 1) (.program script) m →
      ¬Eval.EndsInSignal (Eval.runInPlace (fun id => Eval.eval level (.node id)) script.root)
        (m.atTop script) := by
  intro session
  have hlawful := Discipline.looped_lawful
  have hsound : session.Sound .looped config host :=
    (sound_new hlawful fun path text hread => looped_file (hfiles path text hread)).afterAll hlawful
      (hevents.mono fun _ _ _ _ => looped_of_begins)
  have hadmits {level : Nat} {task : Task} {m : Machine}
      (hvisits : session.Visits input level task m) :
      (Simulation.sound .looped config.maxCalls).Admits task m :=
    hsound.admits_of_visits hlawful
      (fun script m hbegins => looped_of_begins hbegins (hinput script m hbegins)) hvisits
  exact ⟨fun level f values m hvisits => Simulation.body_keeps_signals (hadmits hvisits),
    fun level script m hvisits => Simulation.program_keeps_signals (hadmits hvisits)⟩

/-! ## Two inputs -/

/-- An input that continues one of which only the tokens are known. -/
def inputOf (kinds : List TokenKind) : Input :=
  ⟨"", "", some ⟨kinds.map fun kind => ⟨kind, {}⟩, ""⟩, false⟩

/-- Whether a new session reads an input as a script with a property, which may also be one of the
machine from which the script runs. -/
def beginsWith (input : Input) (test : Script → Machine → Bool) : Bool :=
  match readInput input.name input.text input.pending input.mayWait (new {} noHost).machine with
  | .ok (.inr script) m => test script m
  | _ => false

theorem begins_of_beginsWith {input : Input} {test : Script → Machine → Bool}
    (h : beginsWith input test = true) :
    ∃ script m, (new {} noHost).Begins input script m ∧ test script m = true := by
  unfold beginsWith at h
  split at h
  · rename_i script m hread
    exact ⟨script, m, hread, h⟩
  · cases h

theorem reads_of_beginsWith {input : Input} {test : Script → Bool} {P : Script → Prop}
    (h : beginsWith input (fun script _ => test script) = true)
    (htest : ∀ script, test script = true → P script) : (new {} noHost).Reads P input := by
  obtain ⟨script, m, hbegins, hscript⟩ := begins_of_beginsWith h
  intro other n hother
  cases hbegins.symm.trans hother
  exact htest script hscript

/-- The tokens of `iterate 1 { def(auto a :: 2) { 1 }() }`. -/
def keeping : Input :=
  inputOf [.keyword .iterate, .int 1, .mark (.opening .brace), .keyword .defWord,
    .mark (.opening .paren), .keyword .auto, .ident ⟨0⟩, .mark (.assign none false), .int 2,
    .mark (.closing .paren), .mark (.opening .brace), .int 1, .mark (.closing .brace),
    .mark (.opening .paren), .mark (.closing .paren), .mark (.closing .brace)]

/-- A default that is a number keeps a loop and a call in it apart. -/
theorem keeping_keeps_signals :
    (∃ script m, (new {} noHost).Begins keeping script m) ∧
    (∀ level f values m, (new {} noHost).Visits keeping level (.body f values) m →
      ¬Eval.EndsInSignal (Eval.eval level (.body f values)) m) ∧
    ∀ level script m, (new {} noHost).Visits keeping (level + 1) (.program script) m →
      ¬Eval.EndsInSignal (Eval.runInPlace (fun id => Eval.eval level (.node id)) script.root)
        (m.atTop script) := by
  have hplain : beginsWith keeping (fun script _ => script.plainDefaults) = true := by
    decide +kernel
  obtain ⟨script, m, hbegins, -⟩ := begins_of_beginsWith hplain
  exact ⟨⟨script, m, hbegins⟩,
    calls_keep_signals {} noHost [] (fun path text hread => nomatch hread) trivial keeping
      (reads_of_beginsWith hplain fun _ => Script.keepsSignals_of_plain)⟩

/-- The tokens of `def() { while 1 { return def(auto a :: if 1 { break }) { 1 } } }()()`. -/
def leaking : Input :=
  inputOf [.keyword .defWord, .mark (.opening .paren), .mark (.closing .paren),
    .mark (.opening .brace), .keyword .whileWord, .int 1, .mark (.opening .brace),
    .keyword .returnWord, .keyword .defWord, .mark (.opening .paren), .keyword .auto, .ident ⟨0⟩,
    .mark (.assign none false), .keyword .ifWord, .int 1, .mark (.opening .brace),
    .keyword .breakWord, .mark (.closing .brace), .mark (.closing .paren), .mark (.opening .brace),
    .int 1, .mark (.closing .brace), .mark (.closing .brace), .mark (.closing .brace),
    .mark (.opening .paren), .mark (.closing .paren), .mark (.opening .paren),
    .mark (.closing .paren)]

def endsInBreak (script : Script) (m : Machine) : Bool :=
  match Eval.runInPlace (fun id => Eval.eval (maxLevels script - 1) (.node id)) script.root
    (m.atTop script) with
  | .error (.broke _) _ => true
  | _ => false

/-- A function that was made inside a loop and is called outside of it sends the signal in its
default to nobody. -/
theorem leaking_ends_in_signal :
    ∃ level script m, (new {} noHost).Visits leaking (level + 1) (.program script) m ∧
      Eval.EndsInSignal (Eval.runInPlace (fun id => Eval.eval level (.node id)) script.root)
        (m.atTop script) := by
  have hbreaks : beginsWith leaking endsInBreak = true := by decide +kernel
  obtain ⟨script, m, hbegins, hends⟩ := begins_of_beginsWith hbreaks
  have hlevels : maxLevels script - 1 + 1 = maxLevels script :=
    Nat.sub_add_cancel (Nat.le_trans (Nat.le_add_left 1 _) (lt_maxLevels script))
  have hstart : Eval.Visits (maxLevels script) (.program script) m (maxLevels script)
      (.program script) m := .start _ _ _
  refine ⟨maxLevels script - 1, script, m, ⟨script, m, hbegins, by rwa [hlevels]⟩, ?_⟩
  unfold endsInBreak at hends
  split at hends
  · rename_i label n hrun
    exact ⟨label, n, .inl hrun⟩
  · cases hends

end Session
end ExprScript
