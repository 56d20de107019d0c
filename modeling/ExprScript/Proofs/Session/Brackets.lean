import ExprScript.Proofs.Parser.Nesting
import ExprScript.Proofs.Session.Diagnostics
import ExprScript.Proofs.Session.Reading
import ExprScript.Proofs.Token.Gaps

/-!
# Open brackets of an input

A session counts the brackets of an input, and the parser follows them. If the parser would blame an
opener, the count is positive and the input waits. So a session that may wait blames closers only.
No fault of code that runs is about brackets, unless code has a file read.
-/
namespace ExprScript

/-! ## Lexed tokens -/

namespace Lexing

variable {s t : Lexing}

theorem Reads.tokens_ne_eof (h : s.Reads t)
    (hbefore : ∀ token ∈ s.tokens, token.kind ≠ .mark .eof) :
    ∀ token ∈ t.tokens, token.kind ≠ .mark .eof := by
  induction h with
  | done s => exact hbefore
  | @next s t c cs hrest hreadable _ ih =>
    apply ih
    rcases after_tokens hreadable with ⟨-, htokens⟩ | ⟨kind, hkind, htokens⟩
    · rwa [htokens]
    · intro token htoken
      rw [htokens] at htoken
      rcases Array.mem_push.mp htoken with hold | rfl
      · exact hbefore token hold
      · exact hkind

theorem code_of_run {steps : Nat} {d : Diagnostic} (h : run steps s = (t, some d)) :
    d.code ≠ .unmatchedBracket := by
  induction steps generalizing s with
  | zero => cases h
  | succ steps ih =>
    cases hrest : s.rest with
    | nil =>
      rw [run_of_nil steps hrest] at h
      cases h
    | cons c cs =>
      rcases readable_or_fault (s.scan c cs).lexeme with hreadable | ⟨cause, hfault⟩
      · rw [run_of_readable steps hrest hreadable] at h
        exact ih h
      · rw [run_of_fault steps hrest hfault] at h
        cases h
        cases cause <;> exact nofun

end Lexing

theorem code_of_lexText {text : List Char} {place : Position} {names : Interner} {d : Diagnostic}
    (h : (lexText text place names).outcome = .error d) : d.code ≠ .unmatchedBracket := by
  unfold lexText at h
  cases hrun : Lexing.run (text.length + 1) (Lexing.ofText text place names) with
  | mk u fault =>
    rw [hrun] at h
    cases fault with
    | none => cases h
    | some other =>
      cases h
      exact Lexing.code_of_run hrun

/-- The tokens of a text end once, also behind tokens that do not end. -/
theorem endsOnce_of_lexText {text : List Char} {place : Position} {names : Interner}
    {lexed : Lexed} (h : (lexText text place names).outcome = .ok lexed) {earlier : List Token}
    (hearlier : ∀ token ∈ earlier, token.kind ≠ .mark .eof) :
    EndsOnce (earlier ++ lexed.tokens) := by
  obtain ⟨t, hreads, -, -, rfl⟩ := reads_of_lexText h
  have hfound := hreads.tokens_ne_eof (by simp [Lexing.ofText])
  refine ⟨earlier ++ t.tokens.toList, _, by rw [List.append_assoc], rfl, ?_⟩
  intro token htoken
  rcases List.mem_append.mp htoken with htoken | htoken
  · exact hearlier token htoken
  · exact hfound token (by simpa using htoken)

theorem EndsOnce.withoutEof {tokens : List Token} (h : EndsOnce tokens) :
    ∀ token ∈ withoutEof tokens, token.kind ≠ .mark .eof := by
  obtain ⟨inner, ⟨kind, span⟩, rfl, rfl, hinner⟩ := h
  rwa [withoutEof_append]

namespace Session

variable {config : SessionConfig} {host : Host} {session : Session} {events : List Event}
  {input : Input}

/-! ## Inputs -/

def RunOutcome.GoesOn : RunOutcome → Prop
  | .waiting pending => ∀ token ∈ pending.tokens, token.kind ≠ .mark .eof
  | _ => True

theorem goesOn_earlierTokens
    (h : ∀ pending ∈ input.pending, RunOutcome.GoesOn (.waiting pending)) :
    ∀ token ∈ earlierTokens input.pending, token.kind ≠ .mark .eof := by
  cases hpending : input.pending with
  | none => simp [earlierTokens]
  | some pending => exact h pending hpending

theorem goesOn_feed (h : ∀ pending ∈ input.pending, RunOutcome.GoesOn (.waiting pending)) :
    RunOutcome.GoesOn (session.feed input).1 := by
  cases houtcome : (session.feed input).1 with
  | waiting pending =>
    obtain ⟨lexed, notices, hlexed, rfl, -⟩ := waiting_of_feed houtcome
    exact (endsOnce_of_lexText hlexed (goesOn_earlierTokens h)).withoutEof
  | _ => trivial

/-- What waits goes on, whatever has happened to the session. -/
theorem goesOn_outcomes (h : (new config host).HandsBack events) :
    ∀ outcome ∈ (new config host).outcomes events, RunOutcome.GoesOn outcome := by
  induction events using List.reverseRecOn with
  | nil => simp [outcomes]
  | append_singleton events event ih =>
    obtain ⟨hbefore, hfollows⟩ := handsBack_concat.mp h
    have houtcomes := ih hbefore
    intro outcome houtcome
    rw [outcomes_concat] at houtcome
    rcases List.mem_append.mp houtcome with houtcome | houtcome
    · exact houtcomes outcome houtcome
    · cases event with
      | input input =>
        obtain rfl := List.mem_singleton.mp houtcome
        apply goesOn_feed
        exact fun pending hpending => houtcomes _ (hfollows pending hpending)
      | _ => cases houtcome

theorem fatal_of_tokensOf {e : Interrupt} {m : Machine}
    (h : tokensOf input session.machine = .error e m) :
    ∃ d, (lexInput input session.machine.names).outcome = .error d ∧
      e = .fatal (d.withSource (sourceOf input)) := by
  cases hlexed : (lexInput input session.machine.names).outcome with
  | error d =>
    obtain ⟨notices, hrun⟩ := tokensOf_of_error hlexed
    rw [hrun] at h
    cases h
    exact ⟨d, rfl, rfl⟩
  | ok lexed =>
    obtain ⟨notices, hrun⟩ := tokensOf_of_ok hlexed
    rw [hrun] at h
    cases h

theorem endsOnce_of_tokens {tokens : List Token}
    (h : ∀ pending ∈ input.pending, RunOutcome.GoesOn (.waiting pending))
    (htokens : session.tokens? input = some tokens) : EndsOnce tokens := by
  unfold tokens? at htokens
  cases hlexed : (lexInput input session.machine.names).outcome with
  | error d =>
    obtain ⟨notices, hrun⟩ := tokensOf_of_error hlexed
    rw [hrun] at htokens
    cases htokens
  | ok lexed =>
    obtain ⟨notices, hrun⟩ := tokensOf_of_ok hlexed
    rw [hrun] at htokens
    cases htokens
    exact endsOnce_of_lexText hlexed (goesOn_earlierTokens h)

/-! ## What is said of the brackets -/

/-- A script is well nested, and where reading it fails the fault tells of its brackets. -/
theorem readScript_judges (file : SourceFile) {tokens : List Token} (hends : EndsOnce tokens)
    (m : Machine) :
    match Eval.readScript file tokens m with
    | .ok _ _ => WellNested tokens
    | .error e _ => ∀ d, e = .fatal d → ∃ told, d = told.withSource file ∧
        (told.code = .unmatchedBracket → Unclosed tokens told ∨ Stray tokens told) := by
  unfold Eval.readScript
  cases hparse : parse tokens m.names with
  | error why => exact fun d hd => by cases hd
  | ok parsed =>
    have hjudges := parse_judges hends hparse
    dsimp only
    cases herror : parsed.error with
    | none =>
      rw [herror] at hjudges
      exact hjudges
    | some told =>
      rw [herror] at hjudges
      rintro d ⟨rfl⟩
      exact ⟨told, rfl, hjudges⟩

theorem finish_waiting {source : SourceFile} {tokens : List Token} {m : Machine}
    (h : 0 < bracketDepth tokens) :
    finish source tokens true m = (.waiting ⟨withoutEof tokens, source.text⟩, m) := by
  unfold finish
  rw [if_pos (by simpa using h)]

/-- If an input that may wait fails for a bracket, it is a closer in the input, unless the brackets
of the input are in order and its script has failed. -/
theorem finish_failed {source : SourceFile} {tokens : List Token} {m : Machine} {d : Diagnostic}
    (hends : EndsOnce tokens) (h : (finish source tokens true m).1 = .failed d)
    (hcode : d.code = .unmatchedBracket) :
    (∃ stray, Stray tokens stray ∧ d = stray.withSource source) ∨
      WellNested tokens ∧ ∃ script n k, Eval.readScript source tokens m = .ok script n ∧
        Eval.eval (maxLevels script) (.program script) n = .error (.fatal d) k := by
  by_cases hdepth : 0 < bracketDepth tokens
  · rw [finish_waiting hdepth] at h
    cases h
  · have hjudges := readScript_judges source hends m
    unfold finish at h
    rw [if_neg (by simpa using hdepth)] at h
    cases hread : Eval.readScript source tokens m with
    | ok script n =>
      rw [hread] at hjudges h
      cases hrun : Eval.eval (maxLevels script) (.program script) n with
      | ok value k =>
        simp only [hrun] at h
        cases h
      | error e k =>
        simp only [hrun] at h
        cases e with
        | fatal other =>
          cases h
          exact .inr ⟨hjudges, script, n, k, rfl, hrun⟩
        | _ => cases h
    | error e n =>
      rw [hread] at hjudges h
      cases e with
      | fatal other =>
        cases h
        obtain ⟨told, rfl, htold⟩ := hjudges d rfl
        rcases htold hcode with hunclosed | hstray
        · exact absurd hunclosed.depth hdepth
        · exact .inl ⟨told, hstray, rfl⟩
      | _ => cases h

theorem begins_of_readScript {tokens : List Token} {script : Script} {m n : Machine}
    (htokens : tokensOf input session.machine = .ok tokens m) (hdepth : ¬0 < bracketDepth tokens)
    (hread : Eval.readScript (sourceOf input) tokens m = .ok script n) :
    session.Begins input script n := by
  unfold Begins
  rw [readInput_eq]
  unfold tokensOf at htokens
  rw [Eval.bind_apply] at htokens
  dsimp only at htokens ⊢
  cases hlexed : Eval.readTokens (inputSource input.name input.text input.pending).1
      (inputSource input.name input.text input.pending).2 session.machine with
  | error e k =>
    rw [hlexed] at htokens
    cases htokens
  | ok found k =>
    rw [hlexed] at htokens
    cases htokens
    dsimp only
    rw [if_neg (by simpa using fun _ => Int.not_lt.mp hdepth)]
    unfold sourceOf at hread
    rw [hread]

/-! ## What a script that runs says of brackets -/

/-- Whether a host has a file with this text. -/
def Shown (host : Host) (file : SourceFile) : Prop := host.read? file.name = some (.ok file.text)

/-- Whatever a session runs, its scripts may fail for the brackets of files only. -/
theorem sound_blaming (config : SessionConfig) (host : Host) (events : List Event) :
    ((new config host).afterAll events).Sound (.blaming (Shown host)) config host := by
  have hlawful : (Discipline.blaming (Shown host)).Lawful := Discipline.blaming_lawful
  have hnew : (new config host).Sound (.blaming (Shown host)) config host :=
    sound_new hlawful fun path text hread => Discipline.blaming_file hread
  exact hnew.afterAll hlawful (obeys_any _ _)

/-- Running code raises no fault for a bracket; only the reading of a file does. -/
theorem file_of_failed {script : Script} {m n : Machine} {level : Nat} {d : Diagnostic}
    (hbegins : ((new config host).afterAll events).Begins input script m)
    (hrun : Eval.eval level (.program script) m = .error (.fatal d) n)
    (hcode : d.code = .unmatchedBracket) :
    ∃ path text, host.read? path = some (.ok text) ∧ d.source = some ⟨path, text⟩ := by
  have hlawful : (Discipline.blaming (Shown host)).Lawful := Discipline.blaming_lawful
  have hstart := (sound_blaming config host events).begins (Discipline.Lax.takes _ _) hbegins
  have htask : (Discipline.blaming (Shown host)).task (idleContext config host).script
      (.program script) := trivial
  have hends := Simulation.ends (Simulation.sound_lawful hlawful) htask ⟨rfl, hstart⟩ level
  rw [hrun] at hends
  obtain ⟨file, hsource, hshown⟩ := hends.1.2.2 hcode
  exact ⟨file.name, file.text, hshown, hsource⟩

/-! ## What is told in the end -/

/-- A parse that succeeds finds its tokens well nested. One that blames an opener or a closer is
right, and if it is an opener the depth is positive. -/
theorem lexed_judged {file : SourceFile} {known names : Interner} {lexed : Lexed}
    {result : ParseResult} (hlexed : (lex file known).outcome = .ok lexed)
    (hparse : parse lexed.tokens names = .ok result) :
    Judges lexed.tokens result.error ∧
      ∀ span (bracket : Bracket),
        result.error = some (Parser.unmatchedBracket span bracket.opener bracket.closer) →
          0 < bracketDepth lexed.tokens := by
  rw [lex_eq] at hlexed
  have hends : EndsOnce ([] ++ lexed.tokens) := endsOnce_of_lexText hlexed (by simp)
  have hjudges : Judges lexed.tokens result.error := parse_judges hends hparse
  refine ⟨hjudges, fun span bracket herror => ?_⟩
  rw [herror] at hjudges
  rcases hjudges rfl with hunclosed | ⟨_, closer, _, other, -, -, -, hclosing⟩
  · exact hunclosed.depth
  · exact absurd hclosing (unmatched_opener_ne span closer.span bracket other)

/-- An input that may wait does so where it has an opener without a closer. -/
theorem waiting_of_unclosed {tokens : List Token} {d : Diagnostic} (hwaits : input.mayWait = true)
    (htokens : session.tokens? input = some tokens) (hunclosed : Unclosed tokens d) :
    ∃ pending, (session.feed input).1 = .waiting pending := by
  unfold tokens? at htokens
  rw [feed_eq_finish]
  split at htokens
  · rename_i m hrun
    cases htokens
    rw [hrun]
    dsimp only
    rw [hwaits, finish_waiting hunclosed.depth]
    exact ⟨_, rfl⟩
  · cases htokens

/-- If an input that may wait fails for a bracket, it is a closer in the input, or the input has
been read and its script has failed. -/
theorem stray_of_failed {d : Diagnostic}
    (hgoes : ∀ pending ∈ input.pending, RunOutcome.GoesOn (.waiting pending))
    (hwaits : input.mayWait = true) (hfailed : (session.feed input).1 = .failed d)
    (hcode : d.code = .unmatchedBracket) :
    ∃ tokens, session.tokens? input = some tokens ∧
      ((∃ stray, Stray tokens stray ∧ d = stray.withSource (sourceOf input)) ∨
        WellNested tokens ∧ ∃ script m n, session.Begins input script m ∧
          Eval.eval (maxLevels script) (.program script) m = .error (.fatal d) n) := by
  rw [feed_eq_finish, hwaits] at hfailed
  cases hrun : tokensOf input session.machine with
  | error e m =>
    rw [hrun] at hfailed
    obtain ⟨fault, hlexed, rfl⟩ := fatal_of_tokensOf hrun
    cases hfailed
    have hfault : fault.code ≠ .unmatchedBracket := code_of_lexText hlexed
    exact absurd hcode hfault
  | ok tokens m =>
    have htokens : session.tokens? input = some tokens := by
      rw [tokens?, hrun]
    rw [hrun] at hfailed
    refine ⟨tokens, htokens, ?_⟩
    rcases finish_failed (endsOnce_of_tokens hgoes htokens) hfailed hcode with hstray | hran
    · exact .inl hstray
    · obtain ⟨hnested, script, n, k, hread, hended⟩ := hran
      have hdepth : ¬0 < bracketDepth tokens := by
        have hlength := length_openBrackets hnested
        rw [List.length_nil] at hlength
        omega
      exact .inr ⟨hnested, script, n, k, begins_of_readScript hrun hdepth hread, hended⟩

/-- If a list of lexed tokens is parsed, it is well nested; and if the parser blames an opener that
has no closer, the depth is positive. So an input that may wait does so wherever it would have to
blame an opener of its own. What it may blame is a closer that has no opener; otherwise its brackets
are in order, its script has run and has failed, and the bracket is one of a file. -/
theorem brackets_told (config : SessionConfig) (host : Host) (events : List Event) (input : Input)
    (hevents : (new config host).HandsBack (events ++ [.input input]))
    (hwaits : input.mayWait = true) :
    let session := (new config host).afterAll events
    (∀ file known names lexed result, (lex file known).outcome = .ok lexed →
      parse lexed.tokens names = .ok result →
        Judges lexed.tokens result.error ∧
        ∀ span (bracket : Bracket),
          result.error = some (Parser.unmatchedBracket span bracket.opener bracket.closer) →
            0 < bracketDepth lexed.tokens) ∧
    (∀ tokens d, session.tokens? input = some tokens → Unclosed tokens d →
      ∃ pending, (session.feed input).1 = .waiting pending) ∧
    ∀ d, (session.feed input).1 = .failed d → d.code = .unmatchedBracket →
      ∃ tokens, session.tokens? input = some tokens ∧
        ((∃ stray, Stray tokens stray ∧ d = stray.withSource (sourceOf input)) ∨
          WellNested tokens ∧ (∃ script m, session.Begins input script m) ∧
            ∃ path text, host.read? path = some (.ok text) ∧ d.source = some ⟨path, text⟩) := by
  intro session
  have hgoes : ∀ pending ∈ input.pending, RunOutcome.GoesOn (.waiting pending) := by
    obtain ⟨hbefore, hfollows⟩ := handsBack_concat.mp hevents
    exact fun pending hpending => goesOn_outcomes hbefore _ (hfollows pending hpending)
  refine ⟨?_, ?_, ?_⟩
  · exact fun file known names lexed result hlexed hparse => lexed_judged hlexed hparse
  · exact fun tokens d htokens hunclosed => waiting_of_unclosed hwaits htokens hunclosed
  · intro d hfailed hcode
    obtain ⟨tokens, htokens, htold⟩ := stray_of_failed hgoes hwaits hfailed hcode
    refine ⟨tokens, htokens, ?_⟩
    rcases htold with hstray | ⟨hnested, script, m, n, hbegins, hrun⟩
    · exact .inl hstray
    · exact .inr ⟨hnested, ⟨script, m, hbegins⟩, file_of_failed hbegins hrun hcode⟩

def closer : Input := ⟨"", ")", none, true⟩

/-- Whether the line fails for a bracket and nothing else. -/
def closerFails : Bool :=
  match ((new {} noHost).feed closer).1 with
  | .failed d => d.code = .unmatchedBracket
  | _ => false

/-- A line that only closes a group is blamed for its closer, where there are no files. -/
theorem closer_told :
    (new {} noHost).HandsBack ([] ++ [.input closer]) ∧ closer.mayWait = true ∧
      ∃ d tokens stray, ((new {} noHost).feed closer).1 = .failed d ∧
        (new {} noHost).tokens? closer = some tokens ∧ Stray tokens stray ∧
        d = stray.withSource (sourceOf closer) := by
  have hfails : closerFails = true := by decide +kernel
  have hevents : (new {} noHost).HandsBack ([] ++ [.input closer]) :=
    handsBack_concat.mpr ⟨handsBack_nil _, fun pending hpending => by cases hpending⟩
  unfold closerFails at hfails
  split at hfails
  · rename_i d hfailed
    obtain ⟨tokens, htokens, htold⟩ :=
      (brackets_told {} noHost [] closer hevents rfl).2.2 d hfailed (by simpa using hfails)
    rcases htold with ⟨stray, hstray, hd⟩ | ⟨-, -, path, text, hread, -⟩
    · exact ⟨hevents, rfl, d, tokens, stray, hfailed, htokens, hstray, hd⟩
    · cases hread
  · cases hfails

end Session
end ExprScript
