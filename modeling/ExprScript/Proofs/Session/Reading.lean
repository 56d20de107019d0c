import ExprScript.Proofs.Evaluation.Surroundings
import ExprScript.Proofs.Session.History
import ExprScript.Proofs.Token.Lexer

/-!
# How an input is read

An input is lexed from where the text that it continues ends, and then its tokens run behind those
of that text. An input that comes back waiting is lexed, and that is all.
-/
namespace ExprScript.Session

/-! ## A run in two halves -/

def tokensOf (input : Input) : Eval (List Token) := do
  let source := inputSource input.name input.text input.pending
  return earlierTokens input.pending ++ (← Eval.readTokens source.1 source.2)

def tokens? (session : Session) (input : Input) : Option (List Token) :=
  match tokensOf input session.machine with
  | .ok tokens _ => some tokens
  | .error _ _ => none

def lexedNotices (session : Session) (input : Input) : Array Diagnostic :=
  (Eval.after (tokensOf input) session.machine).notices

def finish (source : SourceFile) (tokens : List Token) (mayWait : Bool) (m : Machine) :
    RunOutcome × Machine :=
  if mayWait && 0 < bracketDepth tokens then (.waiting ⟨withoutEof tokens, source.text⟩, m)
  else
    match Eval.readScript source tokens m with
    | .error e m => (.ofInterrupt e, m)
    | .ok script m =>
      match Eval.eval (maxLevels script) (.program script) m with
      | .ok value m => (.finished value, m)
      | .error e m => (.ofInterrupt e, m)

theorem feed_eq_finish (session : Session) (input : Input) :
    session.feed input =
      match tokensOf input session.machine with
      | .error e m => (.ofInterrupt e, { session with machine := m })
      | .ok tokens m =>
        let source := (inputSource input.name input.text input.pending).1
        ((finish source tokens input.mayWait m).1,
          { session with machine := (finish source tokens input.mayWait m).2 }) := by
  rw [feed_eq, readInput_eq]
  unfold tokensOf finish
  rw [Eval.bind_apply]
  dsimp only
  cases Eval.readTokens _ _ session.machine with
  | error e m => rfl
  | ok tokens m =>
    dsimp only [pure, EStateM.pure]
    cases input.mayWait && decide (0 < bracketDepth (earlierTokens input.pending ++ tokens)) with
    | true => rfl
    | false =>
      simp only [Bool.false_eq_true, if_false]
      cases Eval.readScript _ _ m with
      | error e n => rfl
      | ok script n =>
        dsimp only [ended]
        cases Eval.eval (maxLevels script) (.program script) n <;> rfl

/-- What is made of tokens does not depend on earlier notices. -/
theorem finish_withEarlier (source : SourceFile) (tokens : List Token) (mayWait : Bool)
    (earlier : Array Diagnostic) (m : Machine) :
    finish source tokens mayWait (m.withEarlier earlier) =
      ((finish source tokens mayWait m).1,
        (finish source tokens mayWait m).2.withEarlier earlier) := by
  unfold finish
  split
  · rfl
  · rw [Simulation.readScript_withEarlier]
    cases Eval.readScript source tokens m with
    | error e n => rfl
    | ok script n =>
      dsimp only [Eval.withEarlier]
      rw [Simulation.eval_withEarlier]
      cases Eval.eval (maxLevels script) (.program script) n <;> rfl

/-! ## What an input is lexed to -/

theorem lexFrom_inputSource (name text : String) (pending : Option PendingInput)
    (names : Interner) :
    lexFrom (inputSource name text pending).1 (inputSource name text pending).2 names =
      lexText (added text pending) (startOf pending) names := by
  have hoffset : (startOf pending).offset = byteLength (earlierText pending) :=
    Position.offset_advanceAll_start _
  unfold lexFrom
  rw [inputSource_start, hoffset, inputSource_text, splitBytes_byteLength]

theorem added_join (line rest : String) (pending : Option PendingInput) :
    added (line ++ "\n" ++ rest) pending = added line pending ++ '\n' :: rest.toList := by
  cases pending <;> simp [added]

theorem inputSource_join (name line rest : String) (pending : Option PendingInput)
    (tokens : List Token) :
    (inputSource name (line ++ "\n" ++ rest) pending).1 =
      (inputSource name rest (some ⟨tokens, (inputSource name line pending).1.text⟩)).1 := by
  cases pending <;> simp [inputSource, String.append_assoc]

theorem startOf_next (name line : String) (pending : Option PendingInput) (tokens : List Token) :
    startOf (some ⟨tokens, (inputSource name line pending).1.text⟩) =
      (startOf pending).advanceAll (added line pending) := by
  unfold startOf
  rw [earlierText, inputSource_text, Position.advanceAll_append]

/-- The line feed in front of an input that continues another does not matter to comments. -/
theorem endsInComment_added (line : String) (pending : Option PendingInput) :
    EndsInComment false (added line pending) ↔ EndsInComment false line.toList := by
  cases pending with
  | none => rfl
  | some pending =>
    constructor
    · intro h
      cases h with
      | here hopen => exact absurd hopen.1 (by decide)
      | later _ hrest => exact hrest
    · exact fun h => .later (by intro cause h; cases h) h

/-! ## How an input is lexed -/

/-- How an input is lexed where these names are known. -/
def lexInput (input : Input) (names : Interner) : LexResult :=
  lexText (added input.text input.pending) (startOf input.pending) names

def sourceOf (input : Input) : SourceFile := (inputSource input.name input.text input.pending).1

variable {session : Session} {input : Input} {m : Machine}

/-- Reading the tokens of an input changes the names, and the notices only by warnings. -/
theorem tokensOf_eq (input : Input) (m : Machine) :
    ∃ notices, tokensOf input m =
      match (lexInput input m.names).outcome with
      | .error d => .error (.fatal (d.withSource (sourceOf input)))
        { m with names := (lexInput input m.names).names, notices }
      | .ok lexed => .ok (earlierTokens input.pending ++ lexed.tokens)
        { m with
          names := (lexInput input m.names).names
          notices
          logging := lexed.pragmas.foldl (fun _ p => p = .log) m.logging } := by
  have hlex : lexFrom (inputSource input.name input.text input.pending).1
      (inputSource input.name input.text input.pending).2 m.names = lexInput input m.names :=
    lexFrom_inputSource ..
  unfold tokensOf
  rw [Eval.bind_apply]
  unfold Eval.readTokens
  dsimp only
  rw [hlex, Machine.noteAll_eq]
  cases (lexInput input m.names).outcome with
  | error d => exact ⟨_, rfl⟩
  | ok lexed => exact ⟨_, rfl⟩

theorem tokensOf_of_ok {lexed : Lexed} (h : (lexInput input m.names).outcome = .ok lexed) :
    ∃ notices, tokensOf input m = .ok (earlierTokens input.pending ++ lexed.tokens)
      { m with
        names := (lexInput input m.names).names
        notices
        logging := lexed.pragmas.foldl (fun _ p => p = .log) m.logging } := by
  have htokens := tokensOf_eq input m
  rw [h] at htokens
  exact htokens

theorem tokensOf_of_error {d : Diagnostic} (h : (lexInput input m.names).outcome = .error d) :
    ∃ notices, tokensOf input m = .error (.fatal (d.withSource (sourceOf input)))
      { m with names := (lexInput input m.names).names, notices } := by
  have htokens := tokensOf_eq input m
  rw [h] at htokens
  exact htokens

theorem ofInterrupt_ne_waiting (e : Interrupt) (p : PendingInput) :
    RunOutcome.ofInterrupt e ≠ .waiting p := by
  cases e <;> exact nofun

theorem waiting_of_finish {source : SourceFile} {tokens : List Token} {mayWait : Bool}
    {p : PendingInput} (h : (finish source tokens mayWait m).1 = .waiting p) :
    p = ⟨withoutEof tokens, source.text⟩ ∧ (finish source tokens mayWait m).2 = m := by
  unfold finish at h ⊢
  split at h
  · rename_i hwaits
    rw [if_pos hwaits]
    cases h
    exact ⟨rfl, rfl⟩
  · cases hread : Eval.readScript source tokens m with
    | error e n =>
      rw [hread] at h
      exact absurd h (ofInterrupt_ne_waiting e p)
    | ok script n =>
      rw [hread] at h
      dsimp only at h
      split at h
      · cases h
      · exact absurd h (ofInterrupt_ne_waiting _ p)

theorem waiting_of_feed {p : PendingInput} (h : (session.feed input).1 = .waiting p) :
    ∃ lexed notices, (lexInput input session.machine.names).outcome = .ok lexed ∧
      p = ⟨withoutEof (earlierTokens input.pending ++ lexed.tokens), (sourceOf input).text⟩ ∧
      (session.feed input).2 = { session with
        machine := { session.machine with
          names := (lexInput input session.machine.names).names
          notices
          logging := lexed.pragmas.foldl (fun _ p => p = .log) session.machine.logging } } := by
  rw [feed_eq_finish] at h ⊢
  cases houtcome : (lexInput input session.machine.names).outcome with
  | error d =>
    obtain ⟨notices, htokens⟩ := tokensOf_of_error houtcome
    rw [htokens] at h
    cases h
  | ok lexed =>
    obtain ⟨notices, htokens⟩ := tokensOf_of_ok houtcome
    rw [htokens] at h ⊢
    obtain ⟨hp, hmachine⟩ := waiting_of_finish h
    exact ⟨lexed, notices, rfl, hp, by dsimp only; rw [hmachine]⟩

theorem not_visits_of_waiting {p : PendingInput} (h : (session.feed input).1 = .waiting p)
    (level : Nat) (task : Task) (m : Machine) : ¬session.Visits input level task m := by
  rintro ⟨script, start, hbegins, -⟩
  rw [feed_eq, show readInput _ _ _ _ _ = _ from hbegins] at h
  dsimp only [ended] at h
  split at h
  · cases h
  · exact ofInterrupt_ne_waiting _ p h

end ExprScript.Session
