import ExprScript.Proofs.Parser.Termination

/-!
# Tags and flags

A rule `Tells` what a parser measures if its outcomes have the tags that the flags of the parser's
replies call for. Behind the first token of a production every flag is set, so the rest of the rule
needs only to commit to whatever it does. Single steps lead from the one to the other: a look goes
on as before, and a token that is taken is behind all that follows.
-/
namespace ExprScript

abbrev RuleReply (α : Type) := Except ParseBreakdown (ParseOutcome α × ParseState)

/-- The outcome that the flag of a measured reply calls for. -/
def ParseReply.told {α : Type} : ParseReply α → RuleReply α
  | .done taken v s => .ok (if taken then .consumedOk v else .emptyOk v, s)
  | .failed taken (.fault d) s => .ok (if taken then .consumedErr d else .emptyErr d, s)
  | .failed _ (.tooLong count) _ => .error (.listTooLong count)
  | .failed _ .exhausted _ => .error .exhausted

/-- A measured reply as a plain result. -/
def ParseReply.plain {α : Type} : ParseReply α → RuleReply (Except Diagnostic α)
  | .done _ v s => .ok (.emptyOk (.ok v), s)
  | .failed _ (.fault d) s => .ok (.emptyOk (.error d), s)
  | .failed _ (.tooLong count) _ => .error (.listTooLong count)
  | .failed _ .exhausted _ => .error .exhausted

/-- The reply of a round as that of one which ends with a plain result. -/
def ParseReply.plainRound {σ α : Type} :
    ParseReply (σ ⊕ α) → RuleReply (σ ⊕ Except Diagnostic α)
  | .done _ (.inl next) s => .ok (.emptyOk (.inl next), s)
  | .done _ (.inr v) s => .ok (.emptyOk (.inr (.ok v)), s)
  | .failed _ (.fault d) s => .ok (.emptyOk (.inr (.error d)), s)
  | .failed _ (.tooLong count) _ => .error (.listTooLong count)
  | .failed _ .exhausted _ => .error .exhausted

namespace Rule

section
variable {α β : Type} {r : Rule α} {f : α → Rule β} {c : ParseContext} {s t : ParseState}

theorem then_eq : (r >>= f) c s = chain r f c s := rfl

theorem then_of_emptyOk {v : α} (h : r c s = .ok (.emptyOk v, t)) : (r >>= f) c s = f v c t := by
  rw [then_eq, chain, h]

theorem then_of_error {why : ParseBreakdown} (h : r c s = .error why) :
    (r >>= f) c s = .error why := by
  rw [then_eq, chain, h]

theorem lift_eq {p : Parser α} : (liftM p : Rule α) c s = step p c s := rfl

end

end Rule

namespace Parser

variable {α β σ : Type} {n m : Nat} {K : TokenKind → Prop} {whole : Bool} {r : Rule α}
  {p : Parser α} {f : α → Rule β} {f' : α → Parser β} {c : ParseContext} {s t : ParseState}

/-! ## Replies -/

/-- What a rule replies behind a token that was taken, beside a measured reply. A failure is tagged
as one behind a token, and so is the success of a whole production. The success of a part may have
either tag, which no one reads. -/
inductive Behind {α : Type} (whole : Bool) : RuleReply α → ParseReply α → Prop
  | done (taken : Bool) (v : α) (s : ParseState) :
      Behind whole (.ok (.consumedOk v, s)) (.done taken v s)
  | part (hpart : whole = false) (taken : Bool) (v : α) (s : ParseState) :
      Behind whole (.ok (.emptyOk v, s)) (.done taken v s)
  | fault (taken : Bool) (d : Diagnostic) (s : ParseState) :
      Behind whole (.ok (.consumedErr d, s)) (.failed taken (.fault d) s)
  | tooLong (taken : Bool) (count : Nat) (s : ParseState) :
      Behind whole (.error (.listTooLong count)) (.failed taken (.tooLong count) s)
  | exhausted (taken : Bool) (s : ParseState) :
      Behind whole (.error .exhausted) (.failed taken .exhausted s)

section
variable {reply : RuleReply α} {measured : ParseReply α}

theorem Behind.told (h : Behind true reply measured) : reply = (measured.after true).told := by
  cases h with
  | part hpart => cases hpart
  | _ => rfl

theorem Behind.after (h : Behind whole reply measured) (taken : Bool) :
    Behind whole reply (measured.after taken) := by
  cases h with
  | done => exact .done ..
  | part hpart => exact .part hpart ..
  | fault => exact .fault ..
  | tooLong => exact .tooLong ..
  | exhausted => exact .exhausted ..

theorem Behind.weaken (h : Behind whole reply measured) : Behind false reply measured := by
  cases h with
  | done => exact .done ..
  | part => exact .part rfl ..
  | fault => exact .fault ..
  | tooLong => exact .tooLong ..
  | exhausted => exact .exhausted ..

end

theorem Behind.bind (h : Behind false (r c s) (p c s))
    (hf : ∀ taken v t, p c s = .done taken v t → Behind whole (f v c t) (f' v c t)) :
    Behind whole ((r >>= f) c s) ((p >>= f') c s) := by
  rw [Rule.then_eq, Rule.chain]
  generalize r c s = reply at h
  cases hrun : p c s with
  | done taken v t =>
    rw [hrun] at h
    rw [bind_of_done hrun]
    cases h with
    | done => exact (hf taken v t hrun).after taken
    | part => exact (hf taken v t hrun).after taken
  | failed taken e t =>
    rw [hrun] at h
    rw [bind_of_failed hrun]
    cases h with
    | fault => exact .fault ..
    | tooLong => exact .tooLong ..
    | exhausted => exact .exhausted ..

/-- A caller that is committed itself commits to whatever it is told. -/
theorem Behind.of_told (h : r c s = (p c s).told) : Behind false (Rule.require r c s) (p c s) := by
  unfold Rule.require
  rw [h]
  cases p c s with
  | done taken v t =>
    cases taken with
    | true => exact .done ..
    | false => exact .part rfl ..
  | failed taken e t =>
    cases e with
    | tooLong count => exact .tooLong ..
    | exhausted => exact .exhausted ..
    | fault d => cases taken <;> exact .fault ..

theorem Behind.require (h : Behind whole (r c s) (p c s)) :
    Behind false (Rule.require r c s) (p c s) := by
  unfold Rule.require
  generalize r c s = reply, p c s = measured at h ⊢
  cases h with
  | done => exact .done ..
  | part => exact .part rfl ..
  | fault => exact .fault ..
  | tooLong => exact .tooLong ..
  | exhausted => exact .exhausted ..

theorem Behind.commit {r : Rule (Except Diagnostic α)} (h : r c s = (p c s).plain) :
    Behind false (Rule.commit r c s) (p c s) := by
  rw [Rule.commit, Rule.then_eq, Rule.chain, h]
  cases p c s with
  | done taken v t => exact .part rfl ..
  | failed taken e t =>
    cases e with
    | tooLong count => exact .tooLong ..
    | exhausted => exact .exhausted ..
    | fault d => exact .fault ..

/-! ## Behind a token -/

/-- With less than so many tokens ahead, and no more of them than rounds, the rule does what the
parser does and commits to it. -/
def Commits (n : Nat) (whole : Bool) (r : Rule α) (p : Parser α) : Prop :=
  ∀ c s, s.ahead.length < n → s.ahead.length ≤ c.rounds → Behind whole (r c s) (p c s)

/-- A part of a production that commits and is followed by others. -/
structure Continues (n : Nat) (r : Rule α) (p : Parser α) : Prop where
  commits : Commits n false r p
  goesOn : GoesOn n p

theorem Continues.bind (hp : Continues n r p) (hf : ∀ v, Commits n whole (f v) (f' v)) :
    Commits n whole (r >>= f) (p >>= f') := by
  intro c s hlength hrounds
  refine (hp.commits c s hlength hrounds).bind fun taken v t hrun => ?_
  have hmoves := hp.goesOn c s hlength hrounds trivial
  rw [hrun] at hmoves
  have hle := hmoves.1.length_le
  exact hf v c t (Nat.lt_of_le_of_lt hle hlength) (Nat.le_trans hle hrounds)

theorem Continues.completed (hp : Continues n r p) :
    Commits n whole (r >>= Rule.consumedOk) p := by
  have hbind : p = p >>= Pure.pure := by
    funext c s
    cases hrun : p c s with
    | done taken v t =>
      rw [bind_of_done hrun]
      exact congrArg (ParseReply.done · v t) (Bool.or_false taken).symm
    | failed taken e t => rw [bind_of_failed hrun]
  rw [hbind]
  exact hp.bind fun v _ s _ _ => .done false v s

theorem Commits.ite {condition : Prop} [Decidable condition] {r' : Rule α} {p' : Parser α}
    (h : Commits n whole r p) (h' : Commits n whole r' p') :
    Commits n whole (if condition then r else r') (if condition then p else p') := by
  split
  · exact h
  · exact h'

theorem Commits.pure (v : α) : Commits n false (Pure.pure v) (Pure.pure v) :=
  fun _ s _ _ => .part rfl false v s

theorem Commits.consumedOk (v : α) : Commits n whole (Rule.consumedOk v) (Pure.pure v) :=
  fun _ s _ _ => .done false v s

theorem Commits.consumedErr (d : Diagnostic) :
    Commits n whole (Rule.consumedErr d : Rule α) (Parser.fail (.fault d)) :=
  fun _ s _ _ => .fault false d s

theorem Commits.found (code : Code) :
    Commits n whole (Rule.found code >>= Rule.consumedErr : Rule α) (failFound code) :=
  fun _ s _ _ => .fault false _ s

theorem Commits.expected (what : String) :
    Commits n whole (Rule.expected what >>= Rule.consumedErr : Rule α) (failExpected what) :=
  fun _ s _ _ => .fault false _ s

theorem Commits.require (h : Commits n whole r p) : Commits n false (Rule.require r) p :=
  fun c s hlength hrounds => (h c s hlength hrounds).require

theorem Commits.map (φ : α → β) (h : Commits n whole r p) :
    Commits n false (φ <$> r) (φ <$> p) := by
  intro c s hlength hrounds
  change Behind false ((r >>= fun v => Pure.pure (φ v)) c s)
    ((p >>= fun v => Pure.pure (φ v)) c s)
  exact (h c s hlength hrounds).weaken.bind fun _ v t _ => .part rfl false (φ v) t

/-! ## Steps of the cursor -/

theorem step_of_done {taken : Bool} {v : α} (h : p c s = .done taken v t) :
    ((liftM p : Rule α) >>= f) c s = f v c t := by
  rw [Rule.then_eq, Rule.chain, Rule.lift_eq, Rule.step, h]

def Sure (p : Parser α) : Prop := ∀ c s taken d t, p c s ≠ .failed taken (.fault d) t

theorem Sure.continues (h : Sure p) (hp : GoesOn n p) : Continues n (liftM p) p := by
  refine ⟨fun c s _ _ => ?_, hp⟩
  rw [Rule.lift_eq, Rule.step]
  cases hrun : p c s with
  | done taken v t => exact .part rfl ..
  | failed taken e t =>
    cases e with
    | tooLong count => exact .tooLong ..
    | exhausted => exact .exhausted ..
    | fault d => exact absurd hrun (h c s taken d t)

theorem Sure.bind {f : α → Parser β} (hp : Sure p) (hf : ∀ v, Sure (f v)) : Sure (p >>= f) := by
  intro c s taken d t
  cases hrun : p c s with
  | done first v u =>
    rw [bind_of_done hrun]
    cases hnext : f v c u with
    | done more w u => exact fun h => by cases h
    | failed more e u =>
      intro h
      cases h
      exact hf v c _ more d t hnext
  | failed first e u =>
    rw [bind_of_failed hrun]
    intro h
    cases h
    exact hp c s taken d t hrun

theorem Sure.ite {condition : Prop} [Decidable condition] {q : Parser α} (hp : Sure p)
    (hq : Sure q) : Sure (if condition then p else q) := by
  split
  · exact hp
  · exact hq

theorem Sure.pure (v : α) : Sure (Pure.pure v : Parser α) := fun _ _ _ _ _ h => by cases h

theorem Stays.sure {Q : TokenKind → α → Prop} (hp : Stays Q p) : Sure p := by
  intro c s taken d t hrun
  have hstays := hp c s
  rw [hrun] at hstays
  obtain ⟨-, -, count, hcount⟩ := hstays
  cases hcount

theorem Stays.continues {Q : TokenKind → α → Prop} (hp : Stays Q p) : Continues n (liftM p) p :=
  hp.sure.continues hp.goesOn

theorem sure_advance : Sure advance := by
  intro c s taken d t h
  unfold advance at h
  split at h
  · cases h
  · split at h <;> cases h

theorem continues_advance : Continues n (liftM advance) advance :=
  sure_advance.continues goesOn_advance

theorem sure_eat (mark : Mark) : Sure (eat mark) :=
  (stays_check mark).sure.bind fun _ => .ite (sure_advance.bind fun _ => .pure _) (.pure _)

theorem continues_eat {mark : Mark} (hmark : mark ≠ .eof) :
    Continues n (liftM (eat mark)) (eat mark) :=
  (sure_eat mark).continues (advances_eat hmark).goesOn

theorem continues_eatKeyword (word : Keyword) :
    Continues n (liftM (eatKeyword word)) (eatKeyword word) :=
  Sure.continues ((stays_checkKeyword word).sure.bind fun _ =>
    .ite (sure_advance.bind fun _ => .pure _) (.pure _)) (advances_eatKeyword word).goesOn

theorem Sure.repeating {step : σ → Parser (σ ⊕ α)} (h : ∀ v, Sure (step v)) (start : σ) :
    Sure (Parser.repeating step start) := by
  intro c s taken d t
  unfold Parser.repeating
  generalize c.rounds + 1 = steps
  generalize false = before
  induction steps generalizing before start s with
  | zero => exact fun hrun => by cases hrun
  | succ steps ih =>
    rw [loop_succ]
    cases hround : step start c s with
    | done more round u =>
      cases round with
      | inl next => exact ih next u (before || more)
      | inr result => exact fun hrun => by cases hrun
    | failed more e u =>
      intro hrun
      cases hrun
      exact h start c s more d t hround

theorem sure_skipNewlines : Sure skipNewlines :=
  .repeating (fun _ => (sure_eat .newline).bind fun _ => .ite (.pure _) (.pure _)) _

theorem continues_skipNewlines : Continues n (liftM skipNewlines) skipNewlines :=
  sure_skipNewlines.continues goesOn_skipNewlines

/-- A step with a fault of its own, whose plain result is committed to. -/
theorem continues_result (hp : GoesOn n p) : Continues n (Rule.commit (Rule.result p)) p := by
  refine ⟨fun c s _ _ => .commit ?_, hp⟩
  unfold Rule.result
  cases p c s with
  | done taken v t => rfl
  | failed taken e t => cases e <;> rfl

theorem continues_identifier (code : Code) :
    Continues n (Rule.commit (Rule.identifier code)) (identifier code) :=
  continues_result (takes_identifier code).goesOn

theorem continues_expectCloser (bracket : Bracket) (opened : Span) (stopped : Option Diagnostic) :
    Continues n (Rule.commit (Rule.expectCloser bracket opened stopped))
      (expectCloser bracket opened stopped) :=
  continues_result (goesOn_expectCloser bracket opened stopped)

/-! ## Repetition -/

theorem Continues.repeating {step : σ → Rule (σ ⊕ α)} {step' : σ → Parser (σ ⊕ α)}
    (hstep : ∀ v, Commits n false (step v) (step' v))
    (hadvances : ∀ v, Advances n (fun _ => True) Again (step' v)) (start : σ) :
    Continues n (Rule.repeating step start) (Parser.repeating step' start) := by
  suffices h : ∀ steps before v c s, s.ahead.length < n → s.ahead.length ≤ c.rounds →
      Behind false (Rule.loop step steps v c s) (Parser.loop step' steps before v c s) from
    ⟨fun c s => h (c.rounds + 1) false start c s, .repeating hadvances start⟩
  intro steps
  induction steps with
  | zero => exact fun _ _ _ _ _ _ => .exhausted ..
  | succ steps ih =>
    intro before v c s hlength hrounds
    have hround := hstep v c s hlength hrounds
    have hmoves := hadvances v c s hlength hrounds trivial
    rw [loop_succ, Rule.loop]
    dsimp only
    generalize step v c s = reply at hround
    cases hrun : step' v c s with
    | done more round t =>
      rw [hrun] at hround hmoves
      have hle := hmoves.1.length_le
      cases round with
      | inl next =>
        have hrest := ih (before || more) next c t (Nat.lt_of_le_of_lt hle hlength)
          (Nat.le_trans hle hrounds)
        cases hround with
        | done => exact hrest
        | part => exact hrest
      | inr result =>
        cases hround with
        | done => exact .part rfl ..
        | part => exact .part rfl ..
    | failed more e t =>
      rw [hrun] at hround
      cases hround with
      | fault => exact .fault ..
      | tooLong => exact .tooLong ..
      | exhausted => exact .exhausted ..

/-! ## From the first token on -/

/-- In front of a token of a given kind, the rule tells by its tags what the parser measures. -/
def Tells (n : Nat) (K : TokenKind → Prop) (r : Rule α) (p : Parser α) : Prop :=
  ∀ c s, s.ahead.length < n → s.ahead.length ≤ c.rounds → K s.kind → r c s = (p c s).told

theorem Tells.require (h : Tells n (fun _ => True) r p) : Commits n false (Rule.require r) p :=
  fun c s hlength hrounds => .of_told (h c s hlength hrounds trivial)

theorem Tells.mono {K' : TokenKind → Prop} (h : Tells n K r p) (hmn : m ≤ n)
    (hK : ∀ k, K' k → K k) : Tells m K' r p :=
  fun c s hlength hrounds hkind =>
    h c s (Nat.lt_of_lt_of_le hlength hmn) hrounds (hK _ hkind)

theorem Tells.look {Q : TokenKind → α → Prop} (hp : Stays Q p)
    (hf : ∀ v, Tells n (fun k => K k ∧ Q k v) (f v) (f' v)) :
    Tells n K (liftM p >>= f) (p >>= f') := by
  intro c s hlength hrounds hkind
  have hstays := hp c s
  cases hrun : p c s with
  | done taken v t =>
    rw [hrun] at hstays
    obtain ⟨rfl, hahead, hv⟩ := hstays
    have hsame : t.kind = s.kind := by rw [ParseState.kind, hahead, ParseState.kind]
    rw [bind_of_done hrun, ParseReply.after_false, step_of_done hrun]
    refine hf v c t ?_ ?_ ?_
    · rwa [hahead]
    · rwa [hahead]
    · rw [hsame]
      exact ⟨hkind, hv⟩
  | failed taken e t =>
    rw [hrun] at hstays
    obtain ⟨rfl, -, count, rfl⟩ := hstays
    rw [bind_of_failed hrun, Rule.then_eq, Rule.chain, Rule.lift_eq, Rule.step, hrun]
    rfl

theorem Tells.chain (h : Tells n K r p) (hp : Takes n K p) (hnm : n ≤ m + 1)
    (hf : ∀ v, Commits m true (f v) (f' v)) : Tells n K (r >>= f) (p >>= f') := by
  intro c s hlength hrounds hkind
  have hreply := hp c s hlength hrounds hkind
  rw [Rule.then_eq, Rule.chain, h c s hlength hrounds hkind]
  cases hrun : p c s with
  | done taken v t =>
    rw [hrun] at hreply
    obtain ⟨hmoves, htaken⟩ := hreply
    obtain rfl := htaken trivial
    have hlt := hmoves.length_lt
    rw [bind_of_done hrun]
    exact (hf v c t (by omega) (by omega)).told
  | failed taken e t =>
    rw [bind_of_failed hrun]
    cases e with
    | fault d => cases taken <;> rfl
    | tooLong count => rfl
    | exhausted => rfl

theorem Tells.emptyOk (v : α) : Tells n K (Rule.emptyOk v) (Pure.pure v) := fun _ _ _ _ _ => rfl

theorem Tells.found (code : Code) :
    Tells n K (Rule.found code >>= Rule.emptyErr : Rule α) (failFound code) :=
  fun _ _ _ _ _ => rfl

theorem Tells.expected (what : String) :
    Tells n K (Rule.expected what >>= Rule.emptyErr : Rule α) (failExpected what) :=
  fun _ _ _ _ _ => rfl

theorem Tells.withLoops {change : List (Option Name) → List (Option Name)} (h : Tells n K r p) :
    Tells n K (Rule.withLoops change r) (Parser.withLoops change p) :=
  fun c s hlength hrounds hkind => h { c with loops := change c.loops } s hlength hrounds hkind

/-- A production that takes its first token unseen. -/
structure Opens (n : Nat) (r : Rule α) (p : Parser α) : Prop where
  /-- In front of a token. -/
  tells : Tells (n + 1) TokenKind.Takable r p
  /-- Behind one. -/
  commits : Commits n true r p

theorem Opens.within (h : Opens n r p) : Tells n TokenKind.Takable r p :=
  h.tells.mono (Nat.le_succ n) fun _ hk => hk

theorem Opens.advance {f : Token → Rule β} {f' : Token → Parser β}
    (hf : ∀ token, Commits n true (f token) (f' token)) :
    Opens n (liftM Parser.advance >>= f) (Parser.advance >>= f') := by
  refine ⟨fun c s hlength hrounds hkind => ?_, continues_advance.bind hf⟩
  cases hahead : s.ahead with
  | nil =>
    rw [ParseState.kind, hahead] at hkind
    cases hkind
  | cons token rest =>
    rw [ParseState.kind_of_ahead hahead] at hkind
    have htaken := advance_of_ahead (c := c) hahead hkind
    rw [bind_of_done htaken, step_of_done htaken]
    rw [hahead, List.length_cons] at hlength hrounds
    exact (hf token c _ (Nat.lt_of_succ_lt_succ hlength) (Nat.le_of_succ_le hrounds)).told

theorem Tells.eat {f : Bool → Rule β} {f' : Bool → Parser β} {mark : Mark} (hmark : mark ≠ .eof)
    (hyes : Commits n true (f true) (f' true)) (hno : Tells n K (f false) (f' false)) :
    Tells n K (liftM (Parser.eat mark) >>= f) (Parser.eat mark >>= f') := by
  intro c s hlength hrounds hkind
  cases hmatch : s.kind.isMark mark with
  | false =>
    have hrun := eat_of_not (c := c) hmatch
    rw [bind_of_done hrun, step_of_done hrun, ParseReply.after_false]
    exact hno c s hlength hrounds hkind
  | true =>
    obtain ⟨token, rest, hahead⟩ := s.ahead_of_isMark hmatch hmark
    rw [ParseState.kind_of_ahead hahead] at hmatch
    have hrun := eat_of_ahead (c := c) hahead hmatch hmark
    rw [bind_of_done hrun, step_of_done hrun]
    rw [hahead, List.length_cons] at hlength hrounds
    exact (hyes c _ (Nat.lt_of_succ_lt hlength) (Nat.le_of_succ_le hrounds)).told

theorem Tells.eatKeyword {f : Bool → Rule β} {f' : Bool → Parser β} {word : Keyword}
    (hyes : Commits n true (f true) (f' true)) (hno : Tells n K (f false) (f' false)) :
    Tells n K (liftM (Parser.eatKeyword word) >>= f) (Parser.eatKeyword word >>= f') := by
  intro c s hlength hrounds hkind
  cases hmatch : s.kind.isKeyword word with
  | false =>
    have hrun := eatKeyword_of_not (c := c) hmatch
    rw [bind_of_done hrun, step_of_done hrun, ParseReply.after_false]
    exact hno c s hlength hrounds hkind
  | true =>
    cases hahead : s.ahead with
    | nil =>
      rw [ParseState.kind, hahead] at hmatch
      cases hmatch
    | cons token rest =>
      rw [ParseState.kind_of_ahead hahead] at hmatch
      have hrun := eatKeyword_of_ahead (c := c) hahead hmatch
      rw [bind_of_done hrun, step_of_done hrun]
      rw [hahead, List.length_cons] at hlength hrounds
      exact (hyes c _ (Nat.lt_of_succ_lt hlength) (Nat.le_of_succ_le hrounds)).told

/-! ## Plain results -/

/-- With so many tokens ahead, a round gives by a plain result what the parser replies. -/
def Plainly (n : Nat) (r : Rule (σ ⊕ Except Diagnostic α)) (p : Parser (σ ⊕ α)) : Prop :=
  ∀ c s, s.ahead.length < n → s.ahead.length ≤ c.rounds → r c s = (p c s).plainRound

theorem plainRound_after (reply : ParseReply (σ ⊕ α)) (taken : Bool) :
    (reply.after taken).plainRound = reply.plainRound := by
  cases reply with
  | done more v t => cases v <;> rfl
  | failed more e t => cases e <;> rfl

theorem Plainly.step {γ : Type} {f : α → Rule (σ ⊕ Except Diagnostic γ)}
    {f' : α → Parser (σ ⊕ γ)} (hsure : Sure p) (hp : GoesOn n p)
    (hf : ∀ v, Plainly n (f v) (f' v)) : Plainly n (liftM p >>= f) (p >>= f') := by
  intro c s hlength hrounds
  have hmoves := hp c s hlength hrounds trivial
  cases hrun : p c s with
  | done taken v t =>
    rw [hrun] at hmoves
    have hle := hmoves.1.length_le
    rw [step_of_done hrun, bind_of_done hrun, plainRound_after]
    exact hf v c t (Nat.lt_of_le_of_lt hle hlength) (Nat.le_trans hle hrounds)
  | failed taken e t =>
    rw [bind_of_failed hrun, Rule.then_eq, Rule.chain, Rule.lift_eq, Rule.step, hrun]
    cases e with
    | fault d => exact absurd hrun (hsure c s taken d t)
    | tooLong count => rfl
    | exhausted => rfl

theorem Plainly.look {γ : Type} {Q : TokenKind → α → Prop}
    {f : α → Rule (σ ⊕ Except Diagnostic γ)} {f' : α → Parser (σ ⊕ γ)} (hp : Stays Q p)
    (hf : ∀ v, Plainly n (f v) (f' v)) : Plainly n (liftM p >>= f) (p >>= f') :=
  .step hp.sure hp.goesOn hf

/-- Where a soft failure stops a repetition, and any other one is its plain result. -/
theorem Plainly.stopping {γ : Type} {f : ParseOutcome α → Rule (σ ⊕ Except Diagnostic γ)}
    {f' : Except Diagnostic α → Parser (σ ⊕ γ)} (h : Tells n (fun _ => True) r p)
    (hp : GoesOn n p) (hconsumed : ∀ v, Plainly n (f (.consumedOk v)) (f' (.ok v)))
    (hempty : ∀ v, Plainly n (f (.emptyOk v)) (f' (.ok v)))
    (hsoft : ∀ d, Plainly n (f (.emptyErr d)) (f' (.error d)))
    (hhard : ∀ d, f (.consumedErr d) = Pure.pure (.inr (.error d))) :
    Plainly n (Rule.outcome r >>= f) (orStop p >>= f') := by
  intro c s hlength hrounds
  have hmoves := hp c s hlength hrounds trivial
  rw [Rule.then_eq, Rule.chain, Rule.outcome, h c s hlength hrounds trivial]
  cases hrun : p c s with
  | done taken v t =>
    rw [hrun] at hmoves
    have hle := hmoves.1.length_le
    rw [bind_of_done (orStop_of_done hrun), plainRound_after]
    cases taken with
    | true => exact hconsumed v c t (Nat.lt_of_le_of_lt hle hlength) (Nat.le_trans hle hrounds)
    | false => exact hempty v c t (Nat.lt_of_le_of_lt hle hlength) (Nat.le_trans hle hrounds)
  | failed taken e t =>
    rw [hrun] at hmoves
    have hle := hmoves.1.length_le
    cases e with
    | fault d =>
      cases taken with
      | true =>
        rw [bind_of_failed (orStop_of_hard hrun fun _ _ => rfl)]
        exact congrFun (congrFun (hhard d) c) t
      | false =>
        rw [bind_of_done (orStop_of_soft hrun), plainRound_after]
        exact hsoft d c t (Nat.lt_of_le_of_lt hle hlength) (Nat.le_trans hle hrounds)
    | tooLong count =>
      rw [bind_of_failed (orStop_of_hard hrun fun _ h => by cases h)]
      rfl
    | exhausted =>
      rw [bind_of_failed (orStop_of_hard hrun fun _ h => by cases h)]
      rfl

theorem Plainly.repeating {step : σ → Rule (σ ⊕ Except Diagnostic α)}
    {step' : σ → Parser (σ ⊕ α)} (hstep : ∀ v, Plainly n (step v) (step' v))
    (hadvances : ∀ v, Advances n (fun _ => True) Again (step' v)) (start : σ)
    (hlength : s.ahead.length < n) (hrounds : s.ahead.length ≤ c.rounds) :
    Rule.repeating step start c s = (Parser.repeating step' start c s).plain := by
  suffices h : ∀ steps before v s, s.ahead.length < n → s.ahead.length ≤ c.rounds →
      Rule.loop step steps v c s = (Parser.loop step' steps before v c s).plain from
    h (c.rounds + 1) false start s hlength hrounds
  clear hlength hrounds
  intro steps
  induction steps with
  | zero => exact fun _ _ _ _ _ => rfl
  | succ steps ih =>
    intro before v s hlength hrounds
    have hmoves := hadvances v c s hlength hrounds trivial
    rw [loop_succ, Rule.loop]
    dsimp only
    rw [hstep v c s hlength hrounds]
    cases hrun : step' v c s with
    | done more round t =>
      rw [hrun] at hmoves
      have hle := hmoves.1.length_le
      cases round with
      | inl next =>
        exact ih (before || more) next t (Nat.lt_of_le_of_lt hle hlength)
          (Nat.le_trans hle hrounds)
      | inr result => rfl
    | failed more e t => cases e <;> rfl

end Parser
end ExprScript
