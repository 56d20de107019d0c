import ExprScript.Proofs.Session.Reading
import ExprScript.Proofs.Session.Signals

/-!
# Inputs in several lines

An input that is fed line by line runs once, as the same text fed at once would. Only what the lexer
warns of may differ, since pragmas take effect line by line, and lines must not end inside of
comments: the next line would not be read as part of the comment.
-/
namespace ExprScript.Session

variable {session : Session} {input : Input}

/-! ## Runs that agree -/

/-- Whether two inputs, each in its own session, are read as the same tokens and run to the same
end. All that may differ is what the lexer shows, and whether warnings are shown if the lexer finds
a fault. -/
structure Agree (first : Session) (i : Input) (second : Session) (j : Input) : Prop where
  tokens : first.tokens? i = second.tokens? j
  outcome : (first.feed i).1 = (second.feed j).1
  session : ∃ notices logging, (first.feed i).2 =
    { (second.feed j).2 with machine := { (second.feed j).2.machine with notices, logging } }
  logging : (first.feed i).2.machine.logging = (second.feed j).2.machine.logging ∨
    first.tokens? i = none
  notices : ∃ shown,
    (first.feed i).2.machine.notices = first.lexedNotices i ++ shown ∧
      (second.feed j).2.machine.notices = second.lexedNotices j ++ shown

theorem Agree.trans {first second third : Session} {i j k : Input} (h : Agree first i second j)
    (h' : Agree second j third k) : Agree first i third k where
  tokens := h.tokens.trans h'.tokens
  outcome := h.outcome.trans h'.outcome
  session := by
    obtain ⟨notices, logging, hsession⟩ := h.session
    obtain ⟨_, _, hsession'⟩ := h'.session
    exact ⟨notices, logging, by rw [hsession, hsession']⟩
  logging := by
    rcases h.logging with hlogging | hnone
    · rcases h'.logging with hlogging' | hnone
      · exact .inl (hlogging.trans hlogging')
      · exact .inr (h.tokens.trans hnone)
    · exact .inr hnone
  notices := by
    obtain ⟨shown, hfirst, hsecond⟩ := h.notices
    obtain ⟨shown', hsecond', hthird⟩ := h'.notices
    have hsame : shown = shown' := Array.append_right_inj _ |>.mp (hsecond.symm.trans hsecond')
    exact ⟨shown, hfirst, hsame ▸ hthird⟩

theorem agree_of_tokens {first second : Session} {i j : Input} {tokens : List Token} {k l : Machine}
    (hfirst : tokensOf i first.machine = .ok tokens k)
    (hsecond : tokensOf j second.machine = .ok tokens l) (hsource : sourceOf i = sourceOf j)
    (hwait : i.mayWait = j.mayWait) (hsession : first = { second with machine := first.machine })
    (hmachine : k = { l with notices := k.notices }) : Agree first i second j := by
  -- Both machines are one without notices behind earlier ones.
  have hk : k = Machine.withEarlier k.notices { l with notices := #[] } := by
    conv_lhs => rw [hmachine]
    simp [Machine.withEarlier]
  have hl : l = Machine.withEarlier l.notices { l with notices := #[] } := by
    simp [Machine.withEarlier]
  have hi : first.feed i =
      ((finish (sourceOf j) tokens j.mayWait { l with notices := #[] }).1,
        { first with machine := (finish (sourceOf j) tokens j.mayWait
          { l with notices := #[] }).2.withEarlier k.notices }) := by
    rw [feed_eq_finish, hfirst, hk]
    dsimp only
    rw [finish_withEarlier, ← hwait, ← hsource]
    rfl
  have hj : second.feed j =
      ((finish (sourceOf j) tokens j.mayWait { l with notices := #[] }).1,
        { second with machine := (finish (sourceOf j) tokens j.mayWait
          { l with notices := #[] }).2.withEarlier l.notices }) := by
    rw [feed_eq_finish, hsecond, hl]
    dsimp only
    rw [finish_withEarlier]
    rfl
  constructor
  case tokens =>
    unfold tokens?
    rw [hfirst, hsecond]
  case outcome => rw [hi, hj]
  case session =>
    rw [hi, hj, hsession]
    exact ⟨_, _, rfl⟩
  case logging =>
    rw [hi, hj]
    exact .inl rfl
  case notices =>
    unfold lexedNotices Eval.after
    rw [hi, hj, hfirst, hsecond]
    exact ⟨_, rfl, rfl⟩

theorem agree_of_fault {first second : Session} {i j : Input} {e : Interrupt} {k l : Machine}
    (hfirst : tokensOf i first.machine = .error e k)
    (hsecond : tokensOf j second.machine = .error e l)
    (hsession : first = { second with machine := first.machine })
    (hmachine : k = { l with notices := k.notices, logging := k.logging }) :
    Agree first i second j := by
  have hi : first.feed i = (.ofInterrupt e, { first with machine := k }) := by
    rw [feed_eq_finish, hfirst]
  have hj : second.feed j = (.ofInterrupt e, { second with machine := l }) := by
    rw [feed_eq_finish, hsecond]
  constructor
  case tokens =>
    unfold tokens?
    rw [hfirst, hsecond]
  case outcome => rw [hi, hj]
  case session =>
    rw [hi, hj, hsession]
    refine ⟨k.notices, k.logging, ?_⟩
    dsimp only
    rw [← hmachine]
  case logging =>
    unfold tokens?
    rw [hfirst]
    exact .inr rfl
  case notices =>
    unfold lexedNotices Eval.after
    rw [hi, hj, hfirst, hsecond]
    exact ⟨#[], by simp, by simp⟩

/-- A line outside of comments and the text that continues it are lexed as both at once. -/
theorem lexInput_join {name line : String} {pending : Option PendingInput} {names : Interner}
    {lexed : Lexed} (h : (lexInput ⟨name, line, pending, true⟩ names).outcome = .ok lexed)
    (hcomment : ¬EndsInComment false line.toList) (tokens : List Token) (rest : String)
    (mayWait : Bool) :
    lexInput ⟨name, line ++ "\n" ++ rest, pending, mayWait⟩ names =
      (lexInput ⟨name, line, pending, true⟩ names).join lexed
        (lexInput ⟨name, rest, some ⟨tokens, (inputSource name line pending).1.text⟩, mayWait⟩
          (lexInput ⟨name, line, pending, true⟩ names).names) := by
  have hadded : ¬EndsInComment false (added line pending) :=
    mt (endsInComment_added line pending).mp hcomment
  unfold lexInput at h ⊢
  dsimp only at h ⊢
  rw [added_join, startOf_next, lexText_join h hadded]
  rfl

/-- Two inputs agree if the second is lexed as a text that has been lexed already and the first. -/
theorem agree_of_join {first second : Session} {i j : Input} {result : LexResult} {lexed : Lexed}
    {notices : Array Diagnostic}
    (hfirst : first = { second with
      machine := { second.machine with
        names := result.names
        notices
        logging := lexed.pragmas.foldl (fun _ p => p = .log) second.machine.logging } })
    (hjoin : lexInput j second.machine.names =
      result.join lexed (lexInput i first.machine.names))
    (hearlier : earlierTokens i.pending = earlierTokens j.pending ++ withoutEof lexed.tokens)
    (hsource : sourceOf i = sourceOf j) (hwait : i.mayWait = j.mayWait) :
    Agree first i second j := by
  have hsession : first = { second with machine := first.machine } := by rw [hfirst]
  cases hrest : (lexInput i first.machine.names).outcome with
  | error d =>
    have hwhole : (lexInput j second.machine.names).outcome = .error d := by
      rw [hjoin, LexResult.join, hrest]
    obtain ⟨_, hfault⟩ := tokensOf_of_error hrest
    obtain ⟨_, hfault'⟩ := tokensOf_of_error hwhole
    rw [hsource] at hfault
    apply agree_of_fault hfault hfault' hsession
    rw [hjoin, hfirst]
    rfl
  | ok more =>
    have hwhole : (lexInput j second.machine.names).outcome = .ok
        ⟨withoutEof lexed.tokens ++ more.tokens, lexed.pragmas ++ more.pragmas⟩ := by
      rw [hjoin, LexResult.join, hrest]
    obtain ⟨_, htokens⟩ := tokensOf_of_ok hrest
    obtain ⟨_, htokens'⟩ := tokensOf_of_ok hwhole
    rw [hearlier, List.append_assoc] at htokens
    apply agree_of_tokens htokens htokens' hsource hwait hsession
    rw [hjoin, hfirst]
    simp only [List.foldl_append]
    rfl

/-- A line that comes back waiting and the text that continues it run as both at once. -/
theorem agree_join {name line : String} {pending : Option PendingInput} {p : PendingInput}
    (hwaits : (session.feed ⟨name, line, pending, true⟩).1 = .waiting p)
    (hcomment : ¬EndsInComment false line.toList) (rest : String) (mayWait : Bool) :
    Agree (session.feed ⟨name, line, pending, true⟩).2 ⟨name, rest, some p, mayWait⟩ session
      ⟨name, line ++ "\n" ++ rest, pending, mayWait⟩ := by
  obtain ⟨lexed, notices, hlexed, rfl, hsession⟩ := waiting_of_feed hwaits
  have hjoin := lexInput_join hlexed hcomment
    (withoutEof (earlierTokens pending ++ lexed.tokens)) rest mayWait
  have hsource := (inputSource_join name line rest pending
    (withoutEof (earlierTokens pending ++ lexed.tokens))).symm
  have hearlier := withoutEof_of_lexText hlexed (earlierTokens pending)
  refine agree_of_join hsession ?_ hearlier hsource rfl
  rw [hsession]
  exact hjoin

theorem Agree.refl (session : Session) (input : Input) : Agree session input session input := by
  cases htokens : tokensOf input session.machine with
  | ok tokens m => exact agree_of_tokens htokens htokens rfl rfl rfl rfl
  | error e m => exact agree_of_fault htokens htokens rfl rfl

/-! ## Line by line -/

/-- Whether lines that are fed one after another all come back waiting, and the session and the
pending input that they leave. -/
inductive Waits (name : String) :
    Session → Option PendingInput → List String → Session → Option PendingInput → Prop
  | done (session : Session) (pending : Option PendingInput) :
      Waits name session pending [] session pending
  | line {session final : Session} {pending waiting : Option PendingInput} {p : PendingInput}
      {line : String} {lines : List String}
      (hrun : (session.feed ⟨name, line, pending, true⟩).1 = .waiting p)
      (hrest : Waits name (session.feed ⟨name, line, pending, true⟩).2 (some p) lines final
        waiting) :
      Waits name session pending (line :: lines) final waiting

/-- The text of lines and a last one, with line feeds between them. -/
def joinLines : List String → String → String
  | [], last => last
  | line :: lines, last => line ++ "\n" ++ joinLines lines last

/-- Whether a session changes in nothing but the names that it knows and the showing of warnings. -/
def Unmoved (before after : Session) : Prop :=
  ∃ names notices logging,
    after = { before with machine := { before.machine with names, notices, logging } }

variable {name : String} {final : Session} {pending waiting : Option PendingInput}
  {lines : List String}

theorem unmoved_of_waiting {p : PendingInput} (h : (session.feed input).1 = .waiting p) :
    Unmoved session (session.feed input).2 := by
  obtain ⟨_, _, -, -, hsession⟩ := waiting_of_feed h
  exact ⟨_, _, _, hsession⟩

theorem Unmoved.trans {first second third : Session} (h : Unmoved first second)
    (h' : Unmoved second third) : Unmoved first third := by
  obtain ⟨_, _, _, rfl⟩ := h
  obtain ⟨names, notices, logging, rfl⟩ := h'
  exact ⟨names, notices, logging, rfl⟩

theorem Waits.agree (h : Waits name session pending lines final waiting) (last : String)
    (mayWait : Bool) (hcomment : ∀ line ∈ lines, ¬EndsInComment false line.toList) :
    Agree final ⟨name, last, waiting, mayWait⟩ session
      ⟨name, joinLines lines last, pending, mayWait⟩ := by
  induction h with
  | done session pending => exact .refl session _
  | line hrun _ ih =>
    exact (ih fun line hline => hcomment line (List.mem_cons_of_mem _ hline)).trans
      (agree_join hrun (hcomment _ List.mem_cons_self) _ mayWait)

/-- Each line is lexed and evaluates nothing. -/
theorem Waits.unmoved (h : Waits name session pending lines final waiting) {fed rest : List String}
    {line : String} (hlines : lines = fed ++ line :: rest) :
    ∃ before p, Waits name session pending fed before p ∧
      Unmoved session (before.feed ⟨name, line, p, true⟩).2 ∧
      ∀ level task m, ¬before.Visits ⟨name, line, p, true⟩ level task m := by
  induction h generalizing fed with
  | done session pending => simp at hlines
  | @line session final pending waiting p first lines hrun _ ih =>
    cases fed with
    | nil =>
      obtain ⟨rfl, -⟩ : first = line ∧ lines = rest := by simpa using hlines
      exact ⟨session, pending, .done _ _, unmoved_of_waiting hrun, not_visits_of_waiting hrun⟩
    | cons head fed =>
      obtain ⟨rfl, hrest⟩ : first = head ∧ lines = fed ++ line :: rest := by simpa using hlines
      obtain ⟨before, q, hwaits, hunmoved, hvisits⟩ := ih hrest
      exact ⟨before, q, .line hrun hwaits, (unmoved_of_waiting hrun).trans hunmoved, hvisits⟩

/-! ## Lines that end in comments -/

theorem lexed_of_tokens? {tokens : List Token} (h : session.tokens? input = some tokens) :
    ∃ lexed, (lexInput input session.machine.names).outcome = .ok lexed ∧
      tokens = earlierTokens input.pending ++ lexed.tokens := by
  unfold tokens? at h
  cases houtcome : (lexInput input session.machine.names).outcome with
  | error d =>
    obtain ⟨_, hfault⟩ := tokensOf_of_error houtcome
    rw [hfault] at h
    cases h
  | ok lexed =>
    obtain ⟨_, htokens⟩ := tokensOf_of_ok houtcome
    rw [htokens] at h
    cases h
    exact ⟨lexed, rfl, rfl⟩

/-- The tokens of an input in lines are those of its first lines and more. -/
theorem Waits.tokens_prefix (h : Waits name session pending lines final waiting) {last : String}
    {mayWait : Bool} {tokens : List Token}
    (htokens : final.tokens? ⟨name, last, waiting, mayWait⟩ = some tokens) :
    earlierTokens pending <+: tokens := by
  induction h with
  | done session pending =>
    obtain ⟨lexed, -, rfl⟩ := lexed_of_tokens? htokens
    exact List.prefix_append ..
  | line hrun _ ih =>
    obtain ⟨lexed, _, hlexed, rfl, -⟩ := waiting_of_feed hrun
    refine List.IsPrefix.trans ?_ (ih htokens)
    exact withoutEof_of_lexText hlexed _ ▸ List.prefix_append ..

/-- The line feed in front of a line that continues an input is a token. -/
theorem Waits.newline {p : PendingInput} (h : Waits name session (some p) lines final waiting)
    {last : String} {mayWait : Bool} {tokens : List Token}
    (htokens : final.tokens? ⟨name, last, waiting, mayWait⟩ = some tokens) :
    ∃ token, token.span.start = startOf (some p) ∧ p.tokens ++ [token] <+: tokens := by
  cases h with
  | done =>
    obtain ⟨lexed, hlexed, rfl⟩ := lexed_of_tokens? htokens
    obtain ⟨token, rest, hstart, -, hfirst⟩ := newline_of_lexText hlexed
    refine ⟨token, hstart, (List.prefix_append_right_inj p.tokens).mpr ?_⟩
    exact (List.prefix_append [token] rest).trans hfirst
  | line hrun hrest =>
    obtain ⟨lexed, _, hlexed, rfl, -⟩ := waiting_of_feed hrun
    obtain ⟨token, rest, hstart, hwithout, -⟩ := newline_of_lexText hlexed
    have hprefix := hrest.tokens_prefix htokens
    rw [earlierTokens, Option.map_some, Option.getD_some, withoutEof_of_lexText hlexed,
      hwithout] at hprefix
    refine ⟨token, hstart, List.IsPrefix.trans ?_ hprefix⟩
    exact (List.prefix_append_right_inj p.tokens).mpr (List.prefix_append [token] rest)

/-- If a line ends in a comment, the tokens are others than those of the lines at once. -/
theorem Waits.differ (h : Waits name session pending lines final waiting) {last : String}
    {mayWait : Bool} (hcomment : ∃ line ∈ lines, EndsInComment false line.toList)
    {parts whole : List Token} (hparts : final.tokens? ⟨name, last, waiting, mayWait⟩ = some parts)
    (hwhole : session.tokens? ⟨name, joinLines lines last, pending, mayWait⟩ = some whole) :
    parts ≠ whole := by
  induction h with
  | done session pending => simp at hcomment
  | @line session final pending waiting p line lines hrun hrest ih =>
    by_cases hline : EndsInComment false line.toList
    · -- Only the line feed of the parts starts at the end of the line.
      obtain ⟨lexed, hlexed, rfl⟩ := lexed_of_tokens? hwhole
      obtain ⟨token, hstart, more, rfl⟩ := hrest.newline hparts
      obtain ⟨first, _, hfirst, rfl, -⟩ := waiting_of_feed hrun
      unfold lexInput at hlexed
      dsimp only at hlexed
      rw [joinLines, added_join] at hlexed
      have hnone := not_start_of_comment ((endsInComment_added line pending).mpr hline) hlexed
      rw [withoutEof_of_lexText hfirst, List.append_assoc, List.append_assoc]
      intro hsame
      have htokens := List.append_cancel_left hsame
      refine hnone token ?_ (hstart.trans (startOf_next ..))
      rw [← htokens]
      simp
    · obtain ⟨other, hother, hends⟩ := hcomment
      have hlater : ∃ line ∈ lines, EndsInComment false line.toList := by
        rcases List.mem_cons.mp hother with rfl | hother
        · exact absurd hends hline
        · exact ⟨other, hother, hends⟩
      refine ih hlater hparts ?_
      rw [(agree_join hrun hline (joinLines lines last) mayWait).tokens]
      exact hwhole

/-- Lines that come back waiting are only lexed, and with the line that ends them they run as their
text does at once, unless one of them ends in a comment. Then the tokens are not those of the
text. -/
theorem lines_run_as_one (h : Waits name session pending lines final waiting) (last : String) :
    (∀ fed line rest, lines = fed ++ line :: rest →
      ∃ before p, Waits name session pending fed before p ∧
        Unmoved session (before.feed ⟨name, line, p, true⟩).2 ∧
        ∀ level task m, ¬before.Visits ⟨name, line, p, true⟩ level task m) ∧
    ((∀ line ∈ lines, ¬EndsInComment false line.toList) →
      Agree final ⟨name, last, waiting, true⟩ session
        ⟨name, joinLines lines last, pending, true⟩) ∧
    ((∃ line ∈ lines, EndsInComment false line.toList) →
      ∀ parts whole, final.tokens? ⟨name, last, waiting, true⟩ = some parts →
        session.tokens? ⟨name, joinLines lines last, pending, true⟩ = some whole →
          parts ≠ whole) :=
  ⟨fun _ _ _ hlines => h.unmoved hlines, h.agree last true,
    fun hcomment _ _ hparts hwhole => h.differ hcomment hparts hwhole⟩

/-- Whether a new session comes back waiting from a line, with a pending input of some kind. -/
def waitsBehind (line : String) (test : PendingInput → Bool) : Bool :=
  match ((new {} noHost).feed ⟨"", line, none, true⟩).1 with
  | .waiting p => test p
  | _ => false

theorem waits_of_waitsBehind {line : String} {test : PendingInput → Bool}
    (h : waitsBehind line test = true) :
    ∃ p, Waits "" (new {} noHost) none [line] ((new {} noHost).feed ⟨"", line, none, true⟩).2
      (some p) ∧ test p = true := by
  unfold waitsBehind at h
  split at h
  · rename_i p hrun
    exact ⟨p, .line hrun (.done _ _), h⟩
  · cases h

/-- A list in two lines is the list in one text, but not where half a comment is in each line. -/
theorem list_lines_run_as_one :
    (∃ final waiting, Waits "" (new {} noHost) none ["["] final waiting ∧
      Agree final ⟨"", "1]", waiting, true⟩ (new {} noHost) ⟨"", "[\n1]", none, true⟩) ∧
    ∃ final waiting, Waits "" (new {} noHost) none ["[#"] final waiting ∧
      ∃ parts whole, final.tokens? ⟨"", "#1]", waiting, true⟩ = some parts ∧
        (new {} noHost).tokens? ⟨"", "[#\n#1]", none, true⟩ = some whole ∧ parts ≠ whole := by
  constructor
  · have hwaits : waitsBehind "[" (fun _ => true) = true := by decide +kernel
    obtain ⟨p, h, -⟩ := waits_of_waitsBehind hwaits
    refine ⟨_, _, h, (lines_run_as_one h "1]").2.1 fun line hline hcomment => ?_⟩
    obtain rfl : line = "[" := by simpa using hline
    cases hcomment with
    | here hopen => exact absurd hopen.1 (by decide)
    | later _ hrest => cases hrest
  · have hwaits : waitsBehind "[#" (fun p =>
        (((new {} noHost).feed ⟨"", "[#", none, true⟩).2.tokens?
          ⟨"", "#1]", some p, true⟩).isSome) = true := by
      decide +kernel
    obtain ⟨p, h, hparts⟩ := waits_of_waitsBehind hwaits
    obtain ⟨parts, hparts⟩ := Option.isSome_iff_exists.mp hparts
    have hwhole : ((new {} noHost).tokens? ⟨"", "[#\n#1]", none, true⟩).isSome = true := by
      decide +kernel
    obtain ⟨whole, hwhole⟩ := Option.isSome_iff_exists.mp hwhole
    have hcomment : EndsInComment false "[#".toList :=
      .later (by intro cause h; cases h) (.here ⟨rfl, by decide, by decide⟩)
    exact ⟨_, _, h, parts, whole, hparts, hwhole,
      (lines_run_as_one h "#1]").2.2 ⟨"[#", List.mem_cons_self, hcomment⟩ parts whole hparts hwhole⟩

end ExprScript.Session
