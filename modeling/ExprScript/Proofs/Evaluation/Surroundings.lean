import ExprScript.Proofs.Evaluation.Soundness

/-!
# What surrounds a run

A run shows its warnings behind those from before it and makes its calls on top of those in
progress. It does the same with other warnings from before and on top of other calls, if no limit
tells the calls apart. Only faults carry the calls that were around them. Nor do more levels than a
run needs change anything.
-/
namespace ExprScript

/-! ## Calls on top of others -/

namespace CallStack

def under (stack : CallStack) (own : List TraceFrame) : CallStack where
  frames := own ++ stack.frames
  limit := stack.limit
  depth := (own ++ stack.frames).length

theorem under_nil (stack : CallStack) : stack.under [] = stack := by
  obtain ⟨frames, limit, depth, rfl⟩ := stack
  rfl

variable {stack : CallStack} {own : List TraceFrame} {frame : TraceFrame}

theorem push_under (h : stack.limit = none) :
    (stack.under own).push frame = .ok (stack.under (frame :: own)) := by
  have hlimit : (stack.under own).limit = none := h
  unfold push
  rw [hlimit]
  rfl

theorem eq_under_of_push {grown : CallStack} (h : (stack.under own).push frame = .ok grown) :
    grown = stack.under (frame :: own) := by
  unfold push at h
  split at h
  · split at h <;> cases h
    rfl
  · cases h
    rfl

@[simp] theorem pop_under : (stack.under (frame :: own)).pop = stack.under own := rfl

end CallStack

/-! ## Two places for one run -/

/-- A machine with earlier notices in front of its own. -/
def Machine.withEarlier (earlier : Array Diagnostic) (m : Machine) : Machine :=
  { m with notices := earlier ++ m.notices }

/-- A result with earlier notices in front of those of its machine. -/
def Eval.withEarlier {α : Type} (earlier : Array Diagnostic) :
    EStateM.Result Interrupt Machine α → EStateM.Result Interrupt Machine α
  | .ok a m => .ok a (m.withEarlier earlier)
  | .error e m => .error e (m.withEarlier earlier)

/-- What is around a run: what was shown before, and the calls in progress. -/
structure Surroundings where
  notices : Array Diagnostic
  calls : CallStack

structure Surroundings.Pair where
  first : Surroundings
  second : Surroundings
  alike : first.calls = second.calls ∨ first.calls.limit = none ∧ second.calls.limit = none
  /-- Whether the first run may have fewer levels than the second, and then run out of them. -/
  forgiving : Prop

/-- Either a call is let in by both, on top of those that are there, or it is a fault. -/
theorem Surroundings.Pair.push (pair : Surroundings.Pair) (own : List TraceFrame)
    (frame : TraceFrame) :
    (∃ message,
      (pair.first.calls.under own).push frame =
        .error (Fault.illegalValue frame.callSpan message) ∧
      (pair.second.calls.under own).push frame =
        .error (Fault.illegalValue frame.callSpan message)) ∨
    (pair.first.calls.under own).push frame = .ok (pair.first.calls.under (frame :: own)) ∧
      (pair.second.calls.under own).push frame = .ok (pair.second.calls.under (frame :: own)) := by
  rcases pair.alike with hsame | ⟨hfirst, hsecond⟩
  · rw [← hsame]
    cases hpush : (pair.first.calls.under own).push frame with
    | error d =>
      obtain ⟨message, rfl⟩ := CallStack.error_of_push hpush
      exact .inl ⟨message, rfl, rfl⟩
    | ok grown =>
      obtain rfl := CallStack.eq_under_of_push hpush
      exact .inr ⟨rfl, rfl⟩
  · exact .inr ⟨CallStack.push_under hfirst, CallStack.push_under hsecond⟩

namespace Machine

def placed (m : Machine) (here : Context) (earlier : Array Diagnostic) : Machine :=
  { m with context := here, notices := earlier ++ m.notices }

section
variable (m : Machine) (here : Context) (earlier : Array Diagnostic)

theorem note_placed (file : SourceFile) (d : Diagnostic) :
    (m.placed here earlier).note file d = (m.note file d).placed here earlier := by
  unfold note
  cases hlogging : m.logging with
  | true => simp [placed, hlogging]
  | false => simp [placed, hlogging]

theorem noteAll_placed (file : SourceFile) (ds : List Diagnostic) :
    (m.placed here earlier).noteAll file ds = (m.noteAll file ds).placed here earlier := by
  unfold noteAll
  induction ds generalizing m with
  | nil => rfl
  | cons d ds ih => rw [List.foldl_cons, note_placed, ih, List.foldl_cons]

theorem lexed_placed (file : SourceFile) (names : Interner) (ds : List Diagnostic)
    (logging : Bool) :
    (m.placed here earlier).lexed file names ds logging =
      (m.lexed file names ds logging).placed here earlier :=
  congrArg (fun k : Machine => { k with logging })
    (noteAll_placed { m with names } here earlier file ds)

end

def within (m : Machine) (around : Surroundings) (own : List TraceFrame) : Machine :=
  m.placed { m.context with calls := around.calls.under own } around.notices

variable (m : Machine) (around : Surroundings) (own : List TraceFrame) (file : SourceFile)

theorem noteAll_within (ds : List Diagnostic) :
    (m.within around own).noteAll file ds = (m.noteAll file ds).within around own := by
  have hcontext : (m.noteAll file ds).context = m.context := by rw [noteAll_eq]
  unfold within
  rw [noteAll_placed, hcontext]

theorem lexed_within (names : Interner) (ds : List Diagnostic) (logging : Bool) :
    (m.within around own).lexed file names ds logging =
      (m.lexed file names ds logging).within around own := by
  have hcontext : (m.lexed file names ds logging).context = m.context := by
    unfold lexed
    rw [noteAll_eq]
  unfold within
  rw [lexed_placed, hcontext]

end Machine

/-- The interruptions are the same, but that a fault carries the calls around, and those around are
some in the one and others in the other. -/
inductive Interrupt.TracedAlike (outer outer' : List TraceFrame) : Interrupt → Interrupt → Prop
  | bare {e : Interrupt} (h : ∀ d, e = .fatal d → d.frames = []) : TracedAlike outer outer' e e
  | traced (d : Diagnostic) {inner : List TraceFrame} (h : inner ≠ []) :
      TracedAlike outer outer' (.fatal { d with frames := inner ++ outer })
        (.fatal { d with frames := inner ++ outer' })

def Interrupt.EndsProgram : Interrupt → Prop
  | .fatal _ | .exited _ | .givenUp _ => True
  | _ => False

namespace Interrupt.TracedAlike

variable {outer outer' own : List TraceFrame} {e f : Interrupt}

theorem sourced (h : TracedAlike outer outer' e f) (file : SourceFile) :
    TracedAlike outer outer' (e.completed fun d => d.withSource file)
      (f.completed fun d => d.withSource file) := by
  cases h with
  | bare h =>
    refine .bare fun d hd => ?_
    cases e with
    | fatal d' =>
      cases hd
      exact h d' rfl
    | _ => cases hd
  | traced d h => exact .traced (d.withSource file) h

theorem attached (h : TracedAlike outer outer' e f) (hown : own ≠ []) :
    TracedAlike outer outer' (e.completed fun d => d.withFrames (own ++ outer))
      (f.completed fun d => d.withFrames (own ++ outer')) := by
  cases h with
  | bare h =>
    cases e with
    | fatal d =>
      have hnone : d.frames.isEmpty = true := by simp [h d rfl]
      simp only [Interrupt.completed, Diagnostic.withFrames, hnone, if_true]
      exact .traced d hown
    | _ => exact .bare fun d hd => by cases hd
  | traced d h =>
    simp only [Interrupt.completed, Diagnostic.withFrames, List.isEmpty_iff,
      List.append_eq_nil_iff, h, false_and, if_false]
    exact .traced d h

/-- Between calls that are the same, only the same interruptions are alike. -/
theorem eq (h : TracedAlike outer outer e f) : e = f := by
  cases h <;> rfl

end Interrupt.TracedAlike

/-- What is in progress since a run began: its calls, and the functions of the running program. -/
structure InProgress where
  calls : List TraceFrame
  functions : Nat

/-- A machine that runs code of a script, inside as many functions as are in progress. -/
structure Machine.Runs (script : Script) (progress : InProgress) (m : Machine) : Prop where
  script : m.context.script = script
  functions : m.context.functions = progress.functions

namespace Machine.Runs

variable {script : Script} {progress : InProgress} {m n : Machine}

theorem of_eq (h : m.Runs script progress) (hcontext : n.context = m.context) :
    n.Runs script progress :=
  ⟨hcontext ▸ h.script, hcontext ▸ h.functions⟩

theorem noteAll (h : m.Runs script progress) (file : SourceFile) (ds : List Diagnostic) :
    (m.noteAll file ds).Runs script progress := by
  apply h.of_eq
  rw [Machine.noteAll_eq]

theorem lexed (h : m.Runs script progress) (file : SourceFile) (names : Interner)
    (ds : List Diagnostic) (logging : Bool) :
    (m.lexed file names ds logging).Runs script progress := by
  have hnamed : Machine.Runs script progress { m with names } := h.of_eq rfl
  exact (hnamed.noteAll file ds).of_eq rfl

end Machine.Runs

namespace Simulation

/-- Machines are alike if they are one machine in the two surroundings. -/
def surrounded (pair : Surroundings.Pair) : Simulation where
  toDiscipline := .any
  Setting := InProgress
  inScope _ progress := progress
  inCall frame progress := { progress with calls := frame :: progress.calls }
  inFunction _ progress := { progress with functions := progress.functions + 1 }
  inProgram _ progress := { progress with functions := 0 }
  related script progress m n := ∃ k : Machine, k.Runs script progress ∧
    m = k.within pair.first progress.calls ∧ n = k.within pair.second progress.calls
  interrupt _ progress e f :=
    e.TracedAlike pair.first.calls.frames pair.second.calls.frames f ∧
      ∀ v, e = .returned v → progress.functions ≠ 0
  returns _ progress := progress.functions ≠ 0
  forgiving := pair.forgiving

variable {pair : Surroundings.Pair} {script : Script} {progress : InProgress} {α : Type}

theorem surrounded_rel {G : α → Prop} {p q : Eval α} :
    (surrounded pair).Rel script progress G p q ↔
      ∀ k : Machine, k.Runs script progress →
        (surrounded pair).Outcome script progress G (p (k.within pair.first progress.calls))
          (q (k.within pair.second progress.calls)) := by
  refine ⟨fun h k hk => h _ _ ⟨k, hk, rfl, rfl⟩, ?_⟩
  rintro h _ _ ⟨k, hk, rfl, rfl⟩
  exact h k hk

theorem surrounded_interrupt {e : Interrupt} (he : (surrounded pair).raises script progress e) :
    (surrounded pair).interrupt script progress e e := by
  constructor
  · refine .bare ?_
    rintro d rfl
    exact Diagnostic.PointsAt.frames he.toPointsAt
  · rintro v rfl
    exact he.2

/-! ## Steps that do not look around -/

theorem surrounded_of_same {G : α → Prop} {p : Eval α}
    (h : ∀ k : Machine, k.Runs script progress →
      (∃ a, ∃ k' : Machine, k'.Runs script progress ∧ G a ∧
        ∀ around, p (k.within around progress.calls) = .ok a (k'.within around progress.calls)) ∨
      ∃ e, ∃ k' : Machine, k'.Runs script progress ∧ (surrounded pair).raises script progress e ∧
        ∀ around, p (k.within around progress.calls) = .error e (k'.within around progress.calls)) :
    (surrounded pair).Rel script progress G p p := by
  refine surrounded_rel.mpr fun k hk => ?_
  rcases h k hk with ⟨a, k', hk', ha, hrun⟩ | ⟨e, k', hk', he, hrun⟩
  · rw [hrun, hrun]
    exact .ok ha ⟨k', hk', rfl, rfl⟩
  · rw [hrun, hrun]
    exact .error (surrounded_interrupt he) ⟨k', hk', rfl, rfl⟩

theorem surrounded_of_ok {G : α → Prop} {p : Eval α}
    (h : ∀ k : Machine, k.Runs script progress →
      ∃ a, ∃ k' : Machine, k'.Runs script progress ∧ G a ∧
      ∀ around, p (k.within around progress.calls) = .ok a (k'.within around progress.calls)) :
    (surrounded pair).Rel script progress G p p :=
  surrounded_of_same fun k hk => .inl (h k hk)

theorem surrounded_checked {G : α → Prop} {p : Checked α} (hp : p.Gives G)
    (hreports : p.Reports (Discipline.any.points script)) :
    (surrounded pair).Rel script progress G (Eval.checked p) (Eval.checked p) := by
  refine surrounded_rel.mpr fun k hk => ?_
  have hends := Eval.checked_ends (K := (surrounded pair).related script progress)
    (m := k.within pair.first progress.calls) (n := k.within pair.second progress.calls) hp hreports
    rfl fun ds _ => ⟨k.noteAll k.context.script.source ds, hk.noteAll _ ds,
      k.noteAll_within _ _ _ ds, k.noteAll_within _ _ _ ds⟩
  refine hends.inStep fun e he => ?_
  obtain ⟨hd⟩ := he
  exact surrounded_interrupt hd

theorem surrounded_reads : (surrounded pair).LawfulReads where
  discipline := Discipline.any_lawful
  interrupt := surrounded_interrupt
  script := by
    rintro script progress _ _ ⟨k, hk, rfl, rfl⟩
    exact ⟨hk.script, hk.script⟩
  text name := surrounded_of_ok fun k hk => ⟨k.names.lookup name, k, hk, trivial, fun _ => rfl⟩
  lookup name := surrounded_of_ok fun k hk =>
    ⟨k.scopes.entry? k.context.scope name, k, hk, fun _ _ => Discipline.any_value _, fun _ => rfl⟩
  outsideFunctions := surrounded_of_ok fun k hk => by
    refine ⟨decide (k.context.functions = 0), k, hk, fun hinside => ?_, fun _ => rfl⟩
    have hfunctions : k.context.functions ≠ 0 := of_decide_eq_false hinside
    rwa [hk.functions] at hfunctions
  checked := surrounded_checked

theorem surrounded_declare (name : Name) (v : Variable) :
    (surrounded pair).Rel script progress (fun _ => True) (Eval.declare name v)
      (Eval.declare name v) :=
  surrounded_of_ok fun k hk =>
    ⟨(), { k with scopes := k.scopes.setVariable k.context.scope name v }, hk.of_eq rfl, trivial,
      fun _ => rfl⟩

theorem surrounded_store (name : Name) (value : Value) {span : Span}
    (hspan : Discipline.any.points script span) :
    (surrounded pair).Rel script progress (surrounded pair).value (Eval.store name value span)
      (Eval.store name value span) := by
  apply surrounded_of_same
  intro k hk
  unfold Eval.store
  dsimp only [Machine.within, Machine.placed]
  cases k.scopes.target k.context.scope name with
  | ok found =>
    obtain ⟨owner, v⟩ := found
    exact .inl ⟨value, { k with scopes := k.scopes.setVariable owner name { v with value } },
      hk.of_eq rfl, Discipline.any_value _, fun _ => rfl⟩
  | error why =>
    cases why with
    | constant old => exact .inl ⟨old, k, hk, Discipline.any_value _, fun _ => rfl⟩
    | undefined =>
      have hraised : Diagnostic.RaisedAt (Discipline.any.points script)
          (Fault.unknownIdentifier span (k.names.lookup name)) := ⟨⟨hspan, rfl⟩, rfl⟩
      exact .inr ⟨.fatal _, k, hk, hraised, fun _ => rfl⟩

theorem surrounded_readFile (path : String) {span : Span}
    (hspan : Discipline.any.points script span) :
    (surrounded pair).Rel script progress (fun _ => True) (Eval.readFile path span)
      (Eval.readFile path span) := by
  apply surrounded_of_same
  intro k hk
  unfold Eval.readFile
  dsimp only [Machine.within, Machine.placed]
  cases k.host.readFile path with
  | error need => exact .inr ⟨.givenUp (.needs need), k, hk, trivial, fun _ => rfl⟩
  | ok answer =>
    cases answer with
    | error cause =>
      have hraised : Diagnostic.RaisedAt (Discipline.any.points script)
          (Fault.illegalArgumentValue span "path" "run"
            s!"cannot read '{path}': {cause.message}") := ⟨⟨hspan, rfl⟩, rfl⟩
      exact .inr ⟨.fatal _, k, hk, hraised, fun _ => rfl⟩
    | ok content => exact .inl ⟨content, k, hk, trivial, fun _ => rfl⟩

theorem surrounded_readLine :
    (surrounded pair).Rel script progress (fun _ => True) Eval.readLine Eval.readLine := by
  apply surrounded_of_same
  intro k hk
  unfold Eval.readLine
  dsimp only [Machine.within, Machine.placed]
  cases k.host.takeLine with
  | error need => exact .inr ⟨.givenUp (.needs need), k, hk, trivial, fun _ => rfl⟩
  | ok taken =>
    exact .inl ⟨taken.1.getD "", { k with host := taken.2 }, hk.of_eq rfl, trivial, fun _ => rfl⟩

/-! ## Reading -/

theorem surrounded_unread {file : SourceFile} {P : Span → Prop} {e : Interrupt}
    (he : e.Unread file P) : (surrounded pair).interrupt script progress e e := by
  constructor
  · refine .bare ?_
    rintro d rfl
    obtain ⟨hd⟩ := he
    exact hd.frames
  · rintro v rfl
    cases he

theorem surrounded_readTokens (file : SourceFile) :
    (surrounded pair).Rel script progress (fun _ => True) (Eval.readTokens file Position.start)
      (Eval.readTokens file Position.start) := by
  refine surrounded_rel.mpr fun k hk => ?_
  have hends := Eval.readTokens_ends (K := (surrounded pair).related script progress)
    (m := k.within pair.first progress.calls) (n := k.within pair.second progress.calls)
    (Span.liesIn_closed file).none.start rfl rfl fun names ds logging _ =>
      ⟨k.lexed file names ds logging, hk.lexed _ _ _ _, k.lexed_within _ _ _ _ _ _,
        k.lexed_within _ _ _ _ _ _⟩
  have hread : Eval.EndAlike (fun _ => True) _ _ _ _ :=
    hends.mono (fun _ _ => trivial) (fun _ he => he) fun _ _ h => h
  exact hread.inStep fun _ => surrounded_unread

theorem surrounded_readScript (file : SourceFile) (tokens : List Token) :
    (surrounded pair).Rel script progress (fun _ => True) (Eval.readScript file tokens)
      (Eval.readScript file tokens) := by
  refine surrounded_rel.mpr fun k hk => ?_
  have hends := Eval.readScript_ends (K := (surrounded pair).related script progress)
    (m := k.within pair.first progress.calls) (n := k.within pair.second progress.calls)
    (Discipline.placed_closed file) file
    (fun token (_ : token ∈ tokens) => Discipline.any_placed file token.span) rfl
    fun ds _ => ⟨k.noteAll file ds, hk.noteAll _ ds, k.noteAll_within _ _ _ ds,
      k.noteAll_within _ _ _ ds⟩
  exact hends.inStep fun _ => surrounded_unread

theorem surrounded_loadScript (path : String) {span : Span}
    (hspan : Discipline.any.points script span) :
    (surrounded pair).Rel script progress (surrounded pair).script (Eval.loadScript path span)
      (Eval.loadScript path span) := by
  refine (surrounded_readFile path hspan).bind fun text _ => ?_
  refine (surrounded_readTokens _).bind fun tokens _ => ?_
  exact (surrounded_readScript _ _).mono fun script _ => trivial

/-! ## Entering and leaving -/

section
variable {p q : Eval Value}

theorem surrounded_inScope (scope : ScopeId)
    (h : (surrounded pair).Rel script progress (surrounded pair).value p q) :
    (surrounded pair).Rel script progress (surrounded pair).value (Eval.inScope scope p)
      (Eval.inScope scope q) := by
  refine surrounded_rel.mpr fun k hk => ?_
  have hends := surrounded_rel.mp h { k with context := { k.context with scope } }
    ⟨hk.script, hk.functions⟩
  refine Eval.InStep.elsewhere (K := (surrounded pair).related script progress) hends ?_
  rintro _ _ ⟨l, hl, rfl, rfl⟩
  exact ⟨{ l with context := { l.context with scope := k.context.scope } },
    ⟨hl.script, hl.functions⟩, rfl, rfl⟩

theorem surrounded_inChildOf (parent : ScopeId)
    (h : (surrounded pair).Rel script progress (surrounded pair).value p q) :
    (surrounded pair).Rel script progress (surrounded pair).value (Eval.inChildOf parent p)
      (Eval.inChildOf parent q) :=
  surrounded_rel.mpr fun k hk =>
    surrounded_rel.mp (surrounded_inScope (k.scopes.child parent).1 h)
      { k with scopes := (k.scopes.child parent).2 } (hk.of_eq rfl)

theorem surrounded_inNewScope
    (h : (surrounded pair).Rel script progress (surrounded pair).value p q) :
    (surrounded pair).Rel script progress (surrounded pair).value (Eval.inNewScope p)
      (Eval.inNewScope q) :=
  surrounded_rel.mpr fun k hk => surrounded_rel.mp (surrounded_inChildOf k.context.scope h) k hk

theorem surrounded_duringCall {frame : TraceFrame}
    (hspan : Discipline.any.points script frame.callSpan)
    (h : (surrounded pair).Rel script ((surrounded pair).inCall frame progress)
      (surrounded pair).value p q) :
    (surrounded pair).Rel script progress (surrounded pair).value (Eval.duringCall frame p)
      (Eval.duringCall frame q) := by
  refine surrounded_rel.mpr fun k hk => ?_
  unfold Eval.duringCall
  dsimp only [Machine.within, Machine.placed]
  rcases pair.push progress.calls frame with ⟨message, hfirst, hsecond⟩ | ⟨hfirst, hsecond⟩
  · rw [hfirst, hsecond]
    have hraised : Diagnostic.RaisedAt (Discipline.any.points script)
        (Fault.illegalValue frame.callSpan message) := ⟨⟨hspan, rfl⟩, rfl⟩
    exact .error (surrounded_interrupt hraised) ⟨k, hk, rfl, rfl⟩
  · rw [hfirst, hsecond]
    dsimp only
    have hends := surrounded_rel.mp h k ⟨hk.script, hk.functions⟩
    have hattached : Eval.InStep _ _ ((surrounded pair).interrupt script progress) _ _ _ :=
      hends.completeFault (fun here d => here.calls.attach d) ?_
    · refine Eval.InStep.elsewhere (K := (surrounded pair).related script _) hattached ?_
      rintro _ _ ⟨l, hl, rfl, rfl⟩
      exact ⟨l, ⟨hl.script, hl.functions⟩, rfl, rfl⟩
    · rintro e f _ _ ⟨htraced, hreturned⟩ ⟨l, hl, rfl, rfl⟩
      refine ⟨htraced.attached (List.cons_ne_nil frame progress.calls), fun v hv => ?_⟩
      cases e <;> cases hv
      exact hreturned v rfl

/-- A fault is attached to the text of the running script, wherever the machine is. -/
theorem surrounded_sourced {m n : Machine} {G : Value → Prop}
    (h : (surrounded pair).Outcome script progress G (p m) (q n)) :
    (surrounded pair).Outcome script progress G (Eval.sourced p m) (Eval.sourced q n) := by
  refine h.completeFault (fun here d => d.withSource here.script.source) ?_
  rintro e f _ _ ⟨htraced, hreturned⟩ ⟨k, hk, rfl, rfl⟩
  refine ⟨htraced.sourced _, fun v hv => ?_⟩
  cases e <;> cases hv
  exact hreturned v rfl

theorem surrounded_handled {inner : Script} {within : InProgress} {G : α → Prop}
    {P : Interrupt → Prop} {handle : Interrupt → Interrupt ⊕ α} {e f : Interrupt}
    (h : (surrounded pair).interrupt inner within e f)
    (hfatal : ∀ d, handle (.fatal d) = .inl (.fatal d) ∧ P (.fatal d))
    (hhandle : ∀ e, (∀ v, e = .returned v → within.functions ≠ 0) →
      handle e = .inl e ∧ P e ∨ ∃ a, handle e = .inr a ∧ G a) :
    Sum.LiftRel
      (fun e f => e.TracedAlike pair.first.calls.frames pair.second.calls.frames f ∧ P e)
      (fun a b => a = b ∧ G a) (handle e) (handle f) := by
  obtain ⟨htraced, hinside⟩ := h
  cases htraced with
  | traced d hinner =>
    rw [(hfatal _).1, (hfatal _).1]
    exact .inl ⟨.traced d hinner, (hfatal _).2⟩
  | bare hbare =>
    rcases hhandle e hinside with ⟨hpassed, hP⟩ | ⟨a, hstopped, ha⟩
    · rw [hpassed]
      exact .inl ⟨.bare hbare, hP⟩
    · rw [hstopped]
      exact .inr ⟨rfl, ha⟩

theorem surrounded_inFunction {f : Function}
    (h : (surrounded pair).Rel f.script ((surrounded pair).inFunction f progress)
      (surrounded pair).value p q) :
    (surrounded pair).Rel script progress (surrounded pair).value (Eval.inFunction f p)
      (Eval.inFunction f q) := by
  refine surrounded_rel.mpr fun k hk => ?_
  have hcode := surrounded_sourced (surrounded_rel.mp (surrounded_inChildOf f.closure h)
    { k with
      context := { k.context with script := f.script, functions := k.context.functions + 1 } }
    ⟨rfl, congrArg (· + 1) hk.functions⟩)
  refine Eval.InStep.elsewhere (K := (surrounded pair).related f.script
    ((surrounded pair).inFunction f progress)) ?_ ?_
  · rw [Eval.returning_eq, Eval.returning_eq]
    refine hcode.handled (fun _ hv => hv) (fun e f m n hef _ => ?_) fun _ => rfl
    refine surrounded_handled hef (fun d => ⟨rfl, fun v hv => by cases hv⟩) fun e _ => ?_
    cases e with
    | returned v => exact .inr ⟨v, rfl, Discipline.any_value v⟩
    | _ => exact .inl ⟨rfl, fun v hv => by cases hv⟩
  · rintro _ _ ⟨l, hl, rfl, rfl⟩
    exact ⟨{ l with
      context := { l.context with
        script := k.context.script, functions := l.context.functions - 1 } },
      ⟨hk.script, by simp [hl.functions, surrounded]⟩, rfl, rfl⟩

/-- A program does not look at the context that it is run in, the calls apart. It is outside of all
functions and loops, so that it neither returns nor sends a signal. -/
theorem surrounded_program {other : Script} {own : List TraceFrame} (k : Machine)
    (here here' : Context) (hfirst : here.calls = pair.first.calls.under own)
    (hsecond : here'.calls = pair.second.calls.under own)
    (h : (surrounded pair).Rel other (⟨own, 0⟩ : InProgress) (surrounded pair).value p q) :
    Eval.InStep pair.forgiving (surrounded pair).value
      (fun e f => e.TracedAlike pair.first.calls.frames pair.second.calls.frames f ∧ e.EndsProgram)
      (fun m n => ∃ l : Machine,
        m = l.placed here pair.first.notices ∧ n = l.placed here' pair.second.notices)
      (Eval.inProgram other p (k.placed here pair.first.notices))
      (Eval.inProgram other q (k.placed here' pair.second.notices)) := by
  obtain ⟨scope, script, functions, calls⟩ := here
  obtain ⟨scope', script', functions', calls'⟩ := here'
  subst hfirst hsecond
  have hcode := surrounded_sourced (surrounded_rel.mp h
    { k with context := { k.context with scope := .root, script := other, functions := 0 } }
    ⟨rfl, rfl⟩)
  refine Eval.InStep.elsewhere (K := (surrounded pair).related other (⟨own, 0⟩ : InProgress)) ?_ ?_
  · rw [Eval.stoppedAtTop_eq, Eval.stoppedAtTop_eq]
    refine hcode.handled (fun _ hv => hv) (fun e f m n hef _ => ?_) fun _ => rfl
    refine surrounded_handled hef (fun _ => ⟨rfl, trivial⟩) fun e hinside => ?_
    cases e with
    | broke label | continued label => exact .inr ⟨.null, rfl, Discipline.any_value _⟩
    | returned v => exact absurd rfl (hinside v rfl)
    | _ => exact .inl ⟨rfl, trivial⟩
  · rintro _ _ ⟨l, -, rfl, rfl⟩
    exact ⟨l, rfl, rfl⟩

theorem surrounded_inProgram {other : Script}
    (h : (surrounded pair).Rel other ((surrounded pair).inProgram other progress)
      (surrounded pair).value p q) :
    (surrounded pair).Rel script progress (surrounded pair).value (Eval.inProgram other p)
      (Eval.inProgram other q) := by
  refine surrounded_rel.mpr fun k hk => ?_
  refine (surrounded_program k { k.context with calls := pair.first.calls.under progress.calls }
    { k.context with calls := pair.second.calls.under progress.calls } rfl rfl h).mono
    (fun _ hv => hv) ?_ ?_
  · rintro e f ⟨htraced, hends⟩
    refine ⟨htraced, ?_⟩
    rintro v rfl
    exact hends.elim
  · rintro _ _ ⟨l, rfl, rfl⟩
    exact ⟨{ l with context := k.context }, hk.of_eq rfl, rfl, rfl⟩

theorem surrounded_runBody (label : Option Name)
    (h : (surrounded pair).Rel script progress (surrounded pair).value p q) :
    (surrounded pair).Rel script progress (fun _ => True) (Eval.runBody label p)
      (Eval.runBody label q) := by
  refine surrounded_rel.mpr fun k hk => ?_
  rw [Eval.runBody_eq, Eval.runBody_eq]
  refine (surrounded_rel.mp h k hk).handled (fun _ _ => trivial) (fun e f m n hef _ => ?_)
    fun _ => rfl
  refine surrounded_handled hef (fun _ => ⟨rfl, fun v hv => by cases hv⟩) fun e hinside => ?_
  cases e with
  | broke signal | continued signal =>
    dsimp only [Interrupt.afterBody]
    split
    · exact .inr ⟨_, rfl, trivial⟩
    · exact .inl ⟨rfl, hinside⟩
  | _ => exact .inl ⟨rfl, hinside⟩

end

theorem surrounded_lawful : (surrounded pair).Lawful where
  toLawfulReads := surrounded_reads
  declare name _ _ := surrounded_declare name _
  assign name op hoperand hright hspan :=
    surrounded_reads.assign
      (fun name => surrounded_of_ok fun k hk =>
        ⟨(k.scopes.type? k.context.scope name).getD .auto, k, hk, trivial, fun _ => rfl⟩)
      (fun name value _ _ hspan => surrounded_store name value hspan)
      name op hoperand hright hspan
  freshId := surrounded_of_ok fun k hk =>
    ⟨k.nextId, { k with nextId := k.nextId + 1 }, hk.of_eq rfl, trivial, fun _ => rfl⟩
  place := surrounded_of_ok fun k hk =>
    ⟨(k.context.scope, k.context.script), k, hk, ⟨trivial, hk.script⟩, fun _ => rfl⟩
  onConsole f := surrounded_of_ok fun k hk =>
    ⟨(), { k with console := f k.console }, hk.of_eq rfl, trivial, fun _ => rfl⟩
  readLine := surrounded_readLine
  loadScript path hspan := surrounded_loadScript path hspan
  inNewScope h := surrounded_inNewScope (h .root)
  duringCall hspan h := surrounded_duringCall hspan h
  inFunction _ h := surrounded_inFunction (h .root)
  inProgram _ h := surrounded_inProgram h
  runBody := surrounded_runBody

/-! ## Earlier notices -/

/-- The machine behind earlier notices, and the machine itself. -/
def behind (m : Machine) (earlier : Array Diagnostic) : Surroundings.Pair where
  first := ⟨#[], m.context.calls⟩
  second := ⟨earlier, m.context.calls⟩
  alike := .inl rfl
  forgiving := False

variable {m : Machine} {earlier : Array Diagnostic}

theorem within_nothing (m : Machine) : m.within (behind m earlier).first [] = m := by
  simp [behind, Machine.within, Machine.placed, CallStack.under_nil]

theorem within_earlier (k m : Machine) :
    k.within (behind m earlier).second [] =
      (k.within (behind m earlier).first []).withEarlier earlier := by
  simp [behind, Machine.within, Machine.placed, Machine.withEarlier]

/-- What does not look around ends in the same way behind earlier notices. -/
theorem eq_withEarlier {G : α → Prop} {p : Eval α}
    (h : (surrounded (behind m earlier)).Rel m.context.script ⟨[], m.context.functions⟩ G p p) :
    p (m.withEarlier earlier) = Eval.withEarlier earlier (p m) := by
  have hends := surrounded_rel.mp h m ⟨rfl, rfl⟩
  rw [within_earlier m m, within_nothing m] at hends
  generalize p m = r at hends ⊢
  generalize p (m.withEarlier earlier) = s at hends ⊢
  cases hends with
  | ok _ hmachine =>
    obtain ⟨k, -, rfl, rfl⟩ := hmachine
    exact congrArg _ (within_earlier k m)
  | error hinterrupt hmachine =>
    obtain ⟨k, -, rfl, rfl⟩ := hmachine
    obtain rfl := hinterrupt.1.eq
    exact congrArg _ (within_earlier k m)
  | lost hforgiving _ => exact hforgiving.elim

theorem readScript_withEarlier (earlier : Array Diagnostic) (file : SourceFile)
    (tokens : List Token) (m : Machine) :
    Eval.readScript file tokens (m.withEarlier earlier) =
      Eval.withEarlier earlier (Eval.readScript file tokens m) :=
  eq_withEarlier (surrounded_readScript file tokens)

theorem eval_withEarlier (earlier : Array Diagnostic) (level : Nat) (script : Script)
    (m : Machine) :
    Eval.eval level (.program script) (m.withEarlier earlier) =
      Eval.withEarlier earlier (Eval.eval level (.program script) m) :=
  eq_withEarlier (rel_eval surrounded_lawful level _ _ (.program script) trivial)

/-! ## More levels -/

/-- One place twice, where the first run may have fewer levels. -/
def sparing (m : Machine) : Surroundings.Pair where
  first := ⟨#[], m.context.calls⟩
  second := ⟨#[], m.context.calls⟩
  alike := .inl rfl
  forgiving := True

/-- A run that does not use up its levels ends in the same way with more of them. -/
theorem eval_of_fewer {level level' : Nat} (hle : level ≤ level') {task : Task} {m : Machine}
    (htask : Discipline.any.task m.context.script task)
    (hends : ¬Eval.Lost (Eval.eval level task m)) :
    Eval.eval level task m = Eval.eval level' task m := by
  have hlevels : (surrounded (sparing m)).levels level level' := .inr ⟨trivial, hle⟩
  have halike := surrounded_rel.mp (rel_eval_levels surrounded_lawful hlevels m.context.script
    ⟨[], m.context.functions⟩ task htask) m ⟨rfl, rfl⟩
  have hfirst : m.within (sparing m).first [] = m := @within_nothing #[] m
  have hsecond : m.within (sparing m).second [] = m := @within_nothing #[] m
  rw [hfirst, hsecond] at halike
  generalize Eval.eval level task m = r at halike hends ⊢
  generalize Eval.eval level' task m = s at halike ⊢
  cases halike with
  | ok _ hmachine =>
    obtain ⟨k, -, rfl, rfl⟩ := hmachine
    rfl
  | error hinterrupt hmachine =>
    obtain ⟨k, -, rfl, rfl⟩ := hmachine
    obtain rfl := hinterrupt.1.eq
    rfl
  | lost _ hlost => exact absurd hlost hends

end Simulation
end ExprScript
