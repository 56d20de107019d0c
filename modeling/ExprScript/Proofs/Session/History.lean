import ExprScript.Proofs.Evaluation.Visits
import ExprScript.Proofs.Text.Spans
import ExprScript.Session

/-!
# What happens to a session

A session starts with nothing but the constants, and its front end feeds it inputs, takes lines for
it and shows what it has to show. An input that does not wait is read as a script, and its run comes
to the tasks of that script.
-/
namespace ExprScript

/-- There are levels enough for the nodes of a script, one inside the other. -/
theorem lt_maxLevels (script : Script) : script.arena.size < maxLevels script := by
  unfold maxLevels
  have hlevels := le_levelsFor 0x10000000000
  have hsize : script.arena.size ≤ levelsPerStack * script.arena.size :=
    Nat.le_mul_of_pos_left _ (by decide)
  omega

namespace Session

/-- An input that may continue an earlier one and may itself be unfinished. -/
structure Input where
  name : String
  text : String
  pending : Option PendingInput
  mayWait : Bool

def noHost : Host := ⟨fun _ => none, [], true⟩

inductive Event where
  | input (input : Input)
  /-- A line is taken to be an input later on. -/
  | takeLine
  | takeNotices
  | print (text : String)
  | report (d : Diagnostic)

def feed (session : Session) (input : Input) : RunOutcome × Session :=
  session.runInput input.name input.text input.pending input.mayWait

def react (session : Session) : Event → Session
  | .input input => (session.feed input).2
  | .takeLine =>
    match session.machine.host.takeLine with
    | .ok (_, host) => { session with machine := { session.machine with host } }
    | .error _ => session
  | .takeNotices => session.takeNotices.2
  | .print text => session.print text
  | .report d => session.report d

def afterAll (session : Session) (events : List Event) : Session := events.foldl react session

/-- Whether an input is read as a script that runs from a machine. -/
def Begins (session : Session) (input : Input) (script : Script) (m : Machine) : Prop :=
  readInput input.name input.text input.pending input.mayWait session.machine
    = .ok (.inr script) m

/-- The tasks that the run of an input comes to, with the levels that are left there and the
machines from which they start. -/
def Visits (session : Session) (input : Input) (level : Nat) (task : Task) (m : Machine) : Prop :=
  ∃ script start, session.Begins input script start ∧
    Eval.Visits (maxLevels script) (.program script) start level task m

/-- Whether an input is read as a script with a property, if it is read as a script at all. -/
def Reads (session : Session) (P : Script → Prop) (input : Input) : Prop :=
  ∀ script m, session.Begins input script m → P script

def Obeys (P : Script → Prop) : Session → List Event → Prop
  | _, [] => True
  | session, event :: events =>
    (∀ input, event = .input input → session.Reads P input) ∧ Obeys P (session.react event) events

def ended (session : Session) : EStateM.Result Interrupt Machine Value → RunOutcome × Session
  | .ok value m => (.finished value, { session with machine := m })
  | .error e m => (.ofInterrupt e, { session with machine := m })

/-- The tokens of an input that continues another begin with those of the other. -/
def earlierTokens (pending : Option PendingInput) : List Token :=
  (pending.map (·.tokens)).getD []

theorem readInput_eq (name text : String) (pending : Option PendingInput) (mayWait : Bool)
    (m : Machine) :
    readInput name text pending mayWait m =
      let source := inputSource name text pending
      match Eval.readTokens source.1 source.2 m with
      | .error e m => .error e m
      | .ok tokens m =>
        if mayWait && 0 < bracketDepth (earlierTokens pending ++ tokens) then
          .ok (.inl ⟨withoutEof (earlierTokens pending ++ tokens), source.1.text⟩) m
        else
          match Eval.readScript source.1 (earlierTokens pending ++ tokens) m with
          | .error e m => .error e m
          | .ok script m => .ok (.inr script) m := by
  unfold readInput earlierTokens
  dsimp only
  rw [Eval.bind_apply]
  cases Eval.readTokens _ _ m with
  | error e n => rfl
  | ok tokens n =>
    dsimp only
    split
    · rfl
    · rw [Eval.bind_apply]
      cases Eval.readScript _ _ n <;> rfl

theorem feed_eq (session : Session) (input : Input) :
    session.feed input =
      match readInput input.name input.text input.pending input.mayWait session.machine with
      | .ok (.inl pending) m => (.waiting pending, { session with machine := m })
      | .ok (.inr script) m => session.ended (Eval.eval (maxLevels script) (.program script) m)
      | .error e m => (.ofInterrupt e, { session with machine := m }) := by
  unfold feed runInput evalInput
  dsimp only
  rw [Eval.bind_apply]
  cases readInput input.name input.text input.pending input.mayWait session.machine with
  | error e m => rfl
  | ok read m =>
    cases read with
    | inl pending => rfl
    | inr script =>
      dsimp only
      rw [Eval.bind_apply]
      cases Eval.eval (maxLevels script) (.program script) m <;> rfl

/-! ## What an input adds -/

def added (text : String) : Option PendingInput → List Char
  | none => text.toList
  | some _ => '\n' :: text.toList

def earlierText : Option PendingInput → List Char
  | none => []
  | some pending => pending.text.toList

def startOf (pending : Option PendingInput) : Position :=
  Position.start.advanceAll (earlierText pending)

theorem inputSource_text (name text : String) (pending : Option PendingInput) :
    (inputSource name text pending).1.text.toList = earlierText pending ++ added text pending := by
  cases pending <;> simp [inputSource, earlierText, added]

theorem inputSource_start (name text : String) (pending : Option PendingInput) :
    (inputSource name text pending).2 = startOf pending := by
  cases pending with
  | none => rfl
  | some pending =>
    have hplace := SourceFile.positionAt_append name pending.text ("\n" ++ text)
    rw [← String.append_assoc] at hplace
    exact hplace

theorem positionAt_inputSource (name text : String) (pending : Option PendingInput) :
    (inputSource name text pending).1.positionAt (inputSource name text pending).2.offset =
      (inputSource name text pending).2 := by
  rw [inputSource_start]
  exact SourceFile.positionAt_offset_iff.mpr
    ⟨earlierText pending, ⟨_, (inputSource_text ..).symm⟩, rfl⟩

/-! ## Scripts that begin -/

variable {session : Session}

theorem Begins.read {input : Input} {script : Script} {m : Machine}
    (h : session.Begins input script m) :
    let source := inputSource input.name input.text input.pending
    ∃ tokens n, Eval.readTokens source.1 source.2 session.machine = .ok tokens n ∧
      Eval.readScript source.1 (earlierTokens input.pending ++ tokens) n = .ok script m := by
  unfold Begins at h
  rw [readInput_eq] at h
  dsimp only at h ⊢
  split at h
  · cases h
  · rename_i hread
    split at h
    · cases h
    · split at h
      · cases h
      · rename_i hparsed
        cases h
        exact ⟨_, _, hread, hparsed⟩

/-- What a property says of scripts that are read, in terms of another. -/
theorem Obeys.mono {P Q : Script → Prop} {events : List Event}
    (himp : ∀ (session : Session) input script m, session.Begins input script m →
      P script → Q script) (h : session.Obeys P events) : session.Obeys Q events := by
  induction events generalizing session with
  | nil => trivial
  | cons event events ih =>
    exact ⟨fun input hinput script m hbegins =>
      himp session input script m hbegins (h.1 input hinput script m hbegins), ih h.2⟩

end Session
end ExprScript
