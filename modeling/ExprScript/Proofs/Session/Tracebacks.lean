import ExprScript.Proofs.Evaluation.Tracebacks
import ExprScript.Proofs.Session.Soundness

/-!
# The calls that a session shows

Between inputs no call is in progress, so the fault in which the run of an input ends carries all
calls that are in progress where it arises and no others. Reading is done outside of all calls.
-/
namespace ExprScript.Session

open Eval

/-- Reading an input is done on its own. -/
theorem own_readInput (name text : String) (pending : Option PendingInput) (mayWait : Bool)
    (m : Machine) : Own m.context.calls (readInput name text pending mayWait m) := by
  unfold readInput
  dsimp only
  refine (own_readTokens (positionAt_inputSource name text pending) m).bind fun tokens k hk => ?_
  split
  · exact .ok hk
  · exact .bind (hk ▸ own_readScript _ _ k) fun script l hl => .ok hl

/-- What is done when the script of an input runs from a machine. -/
def running (script : Script) (m : Machine) : Activity := ⟨maxLevels script, .program script, m⟩

variable {session next : Session} {input : Input} {script : Script} {m : Machine}

theorem calls_of_begins (h : session.Begins input script m) :
    m.context.calls = session.machine.context.calls := by
  have hown := own_readInput input.name input.text input.pending input.mayWait session.machine
  rw [show readInput _ _ _ _ _ = _ from h] at hown
  exact hown.calls

/-- No call is in progress where the script of an input begins to run. -/
theorem frames_running {config : SessionConfig} {host : Host} {events : List Event}
    (h : ((new config host).afterAll events).Begins input script m) :
    (running script m).frames = [] := by
  have hsound : ((new config host).afterAll events).Sound .any config host :=
    sound_any config host events
  unfold running Activity.frames
  rw [calls_of_begins h, hsound.context]
  rfl

/-- An input fails when it is read, or when its script runs. -/
theorem failed_of_feed {d : Diagnostic} (h : session.feed input = (.failed d, next)) :
    (∀ script m, ¬session.Begins input script m) ∧ d.frames = [] ∨
      ∃ script m n, session.Begins input script m ∧
        (running script m).result = .error (.fatal d) n := by
  have hown := own_readInput input.name input.text input.pending input.mayWait session.machine
  rw [feed_eq] at h
  unfold Begins
  cases hread : readInput input.name input.text input.pending input.mayWait session.machine with
  | error e n =>
    rw [hread] at h hown
    left
    refine ⟨fun script m hbegins => (by cases hbegins), ?_⟩
    cases e with
    | fatal d' =>
      cases h
      exact hown.bare _ ⟨d, n, rfl, rfl⟩
    | _ => cases h
  | ok read n =>
    rw [hread] at h
    cases read with
    | inl pending => cases h
    | inr script =>
      right
      refine ⟨script, n, ?_⟩
      change session.ended (running script n).result = _ at h
      cases hrun : (running script n).result with
      | ok v k =>
        rw [hrun] at h
        cases h
      | error e k =>
        rw [hrun] at h
        cases e with
        | fatal d' =>
          cases h
          exact ⟨k, rfl, rfl⟩
        | _ => cases h

/-- What is evaluated while some calls are in progress may end in a fault. It arises somewhere
inside, and carries no calls if none are entered on the way there, and otherwise these and behind
them the ones that were in progress before. What it carries once, it keeps on its way outward. So
the fault in which the run of an input ends carries the calls that are in progress where it arises,
and a fault of reading carries none. -/
theorem faults_carry_calls :
    (∀ (a : Activity) (d : Diagnostic) (n : Machine), a.result = .error (.fatal d) n →
      (∃ origin calls, a.Arises origin calls) ∧
      ∀ origin calls, a.Arises origin calls →
        origin.frames = calls ++ a.frames ∧
        d.frames = if calls = [] then [] else calls ++ a.frames) ∧
    (∀ (inner outer : Activity) (d : Diagnostic) (n : Machine), inner.Inside outer →
      inner.result = .error (.fatal d) n → d.frames ≠ [] →
      ∃ d' k, outer.result = .error (.fatal d') k ∧ d'.frames = d.frames) ∧
    ∀ (config : SessionConfig) (host : Host) (events : List Event) (input : Input) (d : Diagnostic)
      (next : Session), ((new config host).afterAll events).feed input = (.failed d, next) →
      (∀ script m, ¬((new config host).afterAll events).Begins input script m) ∧ d.frames = [] ∨
      ∃ script m, ((new config host).afterAll events).Begins input script m ∧
        (∃ origin calls, (running script m).Arises origin calls) ∧
        ∀ origin calls, (running script m).Arises origin calls →
          origin.frames = calls ∧ d.frames = calls := by
  have htraced (a : Activity) (d : Diagnostic) (n : Machine)
      (hfatal : a.result = .error (.fatal d) n) (origin : Activity) (calls : List TraceFrame)
      (harises : a.Arises origin calls) :
      origin.frames = calls ++ a.frames ∧
        d.frames = if calls = [] then [] else calls ++ a.frames := by
    obtain ⟨horigin, d', k, hend, hframes⟩ := harises.fails
    cases hfatal.symm.trans hend
    exact ⟨horigin, hframes⟩
  refine ⟨fun a d n hfatal => ⟨Activity.Faults.exists_arises ⟨d, n, hfatal⟩, htraced a d n hfatal⟩,
    fun inner outer d n hinside hfatal hframes => ?_,
    fun config host events input d next hfailed => ?_⟩
  · exact hinside.passes_traced hframes ⟨d, n, hfatal, rfl⟩
  · refine (failed_of_feed hfailed).imp_right ?_
    rintro ⟨script, m, n, hbegins, hfatal⟩
    have hempty : (running script m).frames = [] := frames_running hbegins
    refine ⟨script, m, hbegins, Activity.Faults.exists_arises ⟨d, n, hfatal⟩, ?_⟩
    intro origin calls harises
    obtain ⟨horigin, hframes⟩ := htraced _ d n hfatal origin calls harises
    rw [hempty, List.append_nil] at horigin hframes
    refine ⟨horigin, hframes.trans ?_⟩
    split
    next hnone => exact hnone.symm
    next => rfl

/-! ## A fault in a function in a function -/

/-- A function is called where it is made, and does the same with another one that calls a
number. -/
def nestedCalls : Input := ⟨"", "def() {def() {1()}()}()", none, false⟩

/-- The places of the calls that the fault of an input carries, if it fails. -/
def shownCalls (session : Session) (input : Input) : Option (List Nat) :=
  match (session.feed input).1 with
  | .failed d => some (d.frames.map (·.callSpan.start.offset))
  | _ => none

theorem exists_of_shownCalls {session : Session} {input : Input} {places : List Nat}
    (h : shownCalls session input = some places) :
    ∃ d next, session.feed input = (.failed d, next) ∧
      d.frames.map (·.callSpan.start.offset) = places := by
  unfold shownCalls at h
  split at h
  next d hfailed => exact ⟨d, _, Prod.ext hfailed rfl, Option.some.inj h⟩
  next => cases h

/-- The fault carries both calls, which are in progress where it arises. The program ends in it, and
so does what is inside of the program around the calls. -/
theorem nested_fault_carries_calls :
    ∃ (d d' : Diagnostic) (next : Session) (script : Script) (m k : Machine)
      (origin inner : Activity),
      ((new {} noHost).afterAll []).feed nestedCalls = (.failed d, next) ∧
      d.frames.map (·.callSpan.start.offset) = [7, 0] ∧
      ((new {} noHost).afterAll []).Begins nestedCalls script m ∧
      (running script m).Arises origin d.frames ∧ origin.frames = d.frames ∧
      inner.Inside (running script m) ∧ inner.Arises origin d.frames ∧
      (running script m).result = .error (.fatal d') k ∧ d'.frames = d.frames := by
  have hshown : shownCalls ((new {} noHost).afterAll []) nestedCalls = some [7, 0] := by
    decide +kernel
  obtain ⟨d, next, hfed, hplaces⟩ := exists_of_shownCalls hshown
  have htraced : d.frames ≠ [] := by
    intro hnone
    rw [hnone] at hplaces
    cases hplaces
  obtain ⟨hactivity, hpasses, hsession⟩ := faults_carry_calls
  rcases hsession {} noHost [] nestedCalls d next hfed with
    ⟨-, hbare⟩ | ⟨script, m, hbegins, ⟨origin, calls, harises⟩, hcarried⟩
  · exact absurd hbare htraced
  obtain ⟨horigin, rfl⟩ := hcarried origin calls harises
  obtain ⟨inner, calls, hinside, hinner, hcalls⟩ := harises.exists_inside htraced
  have hentered : (running script m).entered inner = [] := rfl
  rw [hentered, List.append_nil] at hcalls
  obtain rfl := hcalls
  obtain ⟨-, d'', n, hend, -⟩ := hinner.fails
  obtain ⟨hstart, hframes⟩ := (hactivity inner d'' n hend).2 origin d.frames hinner
  rw [if_neg htraced, ← hstart, horigin] at hframes
  obtain ⟨d', k, hresult, hpassed⟩ := hpasses inner _ d'' n hinside hend (hframes ▸ htraced)
  exact ⟨d, d', next, script, m, k, origin, inner, hfed, hplaces, hbegins, harises, horigin,
    hinside, hinner, hresult, hpassed.trans hframes⟩

end ExprScript.Session
