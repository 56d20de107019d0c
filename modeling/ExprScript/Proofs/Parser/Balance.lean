import ExprScript.Proofs.Parser.Progress
import ExprScript.Proofs.Token.Brackets

/-!
# Parsers between brackets

Parsers take tokens one after another, and with them the open brackets change. Most parsers close
all brackets that they open. If one fails because an opener has no closer, the input ends there, and
the opener is the last bracket that is still open.
-/
namespace ExprScript

/-- If a failure tells that a bracket is unmatched, it is the last one that is open, and the input
ends there. -/
def ParseFailure.Blames (ahead opened : List Token) : ParseFailure → Prop
  | .fault d => d.code = .unmatchedBracket →
    (ahead.headD Parser.eofToken).kind.isMark .eof = true ∧
      ∃ opener outer bracket, opened = opener :: outer ∧
        opener.kind = .mark (.opening bracket) ∧
        d = Parser.unmatchedBracket opener.span bracket.opener bracket.closer
  | _ => True

theorem TokenKind.Plain.takable {kind : TokenKind} (h : kind.Plain) : kind.Takable := by
  unfold Takable
  rw [Bool.eq_false_iff]
  intro heof
  have hkind : kind.mark? = some .eof := by simpa [isMark] using heof
  cases kind with
  | mark mark =>
    cases hkind
    exact h
  | _ => cases hkind

theorem TokenKind.Plain.of_isKeyword {kind : TokenKind} {word : Keyword}
    (h : kind.isKeyword word = true) : kind.Plain := by
  cases kind with
  | mark mark => cases h
  | _ => trivial

theorem TokenKind.isMark_iff {kind : TokenKind} {mark : Mark} :
    kind.isMark mark = true ↔ kind = .mark mark := by
  cases kind <;> simp [isMark, mark?]

namespace Parser

variable {α β σ : Type}

/-! ## Replies -/

/-- Some tokens were taken between two states, at least one exactly if the flag says so, and the
open brackets change as they do behind these tokens. -/
def Passes (opened : List Token) (s : ParseState) (taken : Bool) (t : ParseState)
    (closed : List Token) : Prop :=
  ∃ gone, s.ahead = gone ++ t.ahead ∧ (taken = true ↔ gone ≠ []) ∧
    openBrackets opened gone = some closed

/-- The reply of a parser that starts with some open brackets. -/
def Nests (opened : List Token) (G : α → List Token → Prop) (s : ParseState) :
    ParseReply α → Prop
  | .done taken v t => ∃ closed, Passes opened s taken t closed ∧ G v closed
  | .failed taken e t => ∃ closed, Passes opened s taken t closed ∧ e.Blames t.ahead closed

/-- From tokens of some kind and with some open brackets, a value and the brackets that are open
behind it have a property. -/
def Turns (opened : List Token) (K : List Token → Prop) (G : α → List Token → Prop)
    (p : Parser α) : Prop :=
  ∀ c s, K s.ahead → Nests opened G s (p c s)

/-- The parser closes the brackets that it opens, and a value that it gives has a property. -/
def Balances (K : List Token → Prop) (G : α → Prop) (p : Parser α) : Prop :=
  Turns [] K (fun v closed => closed = [] ∧ G v) p

def Ahead (P : TokenKind → Prop) (ahead : List Token) : Prop := P (ahead.headD eofToken).kind

/-- From tokens of some kind the parser closes the brackets that it opens. -/
abbrev BalancedAt (K : List Token → Prop) (p : Parser α) : Prop := Balances K (fun _ => True) p

abbrev Balanced (p : Parser α) : Prop := BalancedAt (fun _ => True) p

theorem Ahead.of_eq {P : TokenKind → Prop} {ahead : List Token} {kind : TokenKind}
    (h : (ahead.headD eofToken).kind = kind) (hkind : P kind) : Ahead P ahead := by
  rw [Ahead, h]
  exact hkind

variable {s t u : ParseState} {taken more : Bool} {opened middle closed : List Token}
  {K K' : List Token → Prop} {G : α → List Token → Prop} {H : β → List Token → Prop}
  {p : Parser α} {f : α → Parser β} {P : TokenKind → Prop}

theorem Passes.of_same (h : t.ahead = s.ahead) (opened : List Token) :
    Passes opened s false t opened :=
  ⟨[], by simp [h], by simp, rfl⟩

theorem Passes.trans (hst : Passes opened s taken t middle) (htu : Passes middle t more u closed) :
    Passes opened s (taken || more) u closed := by
  obtain ⟨first, hfirst, hsome, hmiddle⟩ := hst
  obtain ⟨last, hlast, hmore, hclosed⟩ := htu
  refine ⟨first ++ last, by rw [hfirst, hlast, List.append_assoc], ?_, ?_⟩
  · rw [Bool.or_eq_true, hsome, hmore, Ne, Ne, Ne, List.append_eq_nil_iff, not_and_or]
  · rw [openBrackets_append, hmiddle, Option.bind_some, hclosed]

theorem Passes.around (h : Passes opened s taken t closed) (outer : List Token) :
    Passes (opened ++ outer) s taken t (closed ++ outer) := by
  obtain ⟨gone, hgone, hsome, hclosed⟩ := h
  exact ⟨gone, hgone, hsome, openBrackets_around hclosed outer⟩

theorem Passes.one {token : Token} {rest : List Token} (hahead : s.ahead = token :: rest)
    (hopen : openBehind opened token = some closed) :
    Passes opened s true (s.past token rest) closed :=
  ⟨[token], hahead, by simp, by rw [openBrackets_singleton, hopen]⟩

theorem Nests.after {reply : ParseReply β} (hst : Passes opened s taken t middle)
    (h : Nests middle H t reply) : Nests opened H s (reply.after taken) := by
  cases reply with
  | done more w u =>
    obtain ⟨closed, hpass, hw⟩ := h
    exact ⟨closed, hst.trans hpass, hw⟩
  | failed more e u =>
    obtain ⟨closed, hpass, he⟩ := h
    exact ⟨closed, hst.trans hpass, he⟩

theorem Nests.mono {G' : α → List Token → Prop} {reply : ParseReply α} (h : Nests opened G s reply)
    (hG : ∀ v closed, G v closed → G' v closed) : Nests opened G' s reply := by
  cases reply with
  | done taken v t =>
    obtain ⟨closed, hpass, hv⟩ := h
    exact ⟨closed, hpass, hG v closed hv⟩
  | failed taken e t => exact h

/-! ## Parsers one after another -/

theorem Turns.mono {G' : α → List Token → Prop} (h : Turns opened K G p)
    (hK : ∀ ahead, K' ahead → K ahead) (hG : ∀ v closed, G v closed → G' v closed) :
    Turns opened K' G' p :=
  fun c s hs => (h c s (hK _ hs)).mono hG

theorem Turns.bind (hp : Turns opened K G p)
    (hf : ∀ v middle, G v middle → Turns middle (fun _ => True) H (f v)) :
    Turns opened K H (p >>= f) := by
  intro c s hs
  have hfirst := hp c s hs
  cases hrun : p c s with
  | failed taken e t =>
    rw [hrun] at hfirst
    rw [bind_of_failed hrun]
    exact hfirst
  | done taken v t =>
    rw [hrun] at hfirst
    obtain ⟨middle, hpass, hv⟩ := hfirst
    rw [bind_of_done hrun]
    exact .after hpass (hf v middle hv c t trivial)

theorem Balances.within {G : α → Prop} (h : Balances K G p) (opened : List Token) :
    Turns opened K (fun v closed => closed = opened ∧ G v) p := by
  intro c s hs
  have hreply := h c s hs
  cases hrun : p c s with
  | done taken v t =>
    rw [hrun] at hreply
    obtain ⟨closed, hpass, rfl, hv⟩ := hreply
    exact ⟨opened, hpass.around opened, rfl, hv⟩
  | failed taken e t =>
    rw [hrun] at hreply
    obtain ⟨closed, hpass, he⟩ := hreply
    refine ⟨closed ++ opened, hpass.around opened, ?_⟩
    cases e with
    | fault d =>
      intro hcode
      obtain ⟨hend, opener, outer, bracket, rfl, hopener, hd⟩ := he hcode
      exact ⟨hend, opener, outer ++ opened, bracket, rfl, hopener, hd⟩
    | tooLong count => trivial
    | exhausted => trivial

theorem Balances.then {G : α → Prop} (hp : Balances K G p)
    (hf : ∀ v, G v → Turns opened (fun _ => True) H (f v)) : Turns opened K H (p >>= f) := by
  apply (hp.within opened).bind
  rintro v _ ⟨rfl, hv⟩
  exact hf v hv

theorem BalancedAt.then (hp : BalancedAt K p)
    (hf : ∀ v, Turns opened (fun _ => True) H (f v)) : Turns opened K H (p >>= f) :=
  Balances.then hp fun v _ => hf v

theorem Balances.narrow {G : α → Prop} (hp : Balances K G p) (hK : ∀ ahead, K' ahead → K ahead) :
    Balances K' G p :=
  hp.mono hK fun _ _ hv => hv

theorem Balances.anywhere {G : α → Prop} (hp : Balances (fun _ => True) G p) : Balances K G p :=
  hp.narrow fun _ _ => trivial

theorem Balances.looked {G : α → Prop} {token : Token} {kind : TokenKind} (h : token.kind = kind)
    (hp : Balances (Ahead P) G p) (hkind : P kind) :
    Balances (fun ahead => K ahead ∧ ahead.headD eofToken = token) G p := by
  apply hp.narrow
  rintro ahead ⟨-, rfl⟩
  exact .of_eq h hkind

theorem Turns.pure {v : α} (hv : G v opened) : Turns opened K G (Pure.pure v) :=
  fun _ _ _ => ⟨opened, .of_same rfl opened, hv⟩

theorem balanced_pure (v : α) : BalancedAt K (Pure.pure v : Parser α) := .pure ⟨rfl, trivial⟩

theorem Turns.fault {d : Diagnostic} (hcode : d.code ≠ .unmatchedBracket) :
    Turns opened K G (Parser.fail (.fault d) : Parser α) :=
  fun _ _ _ => ⟨opened, .of_same rfl opened, fun h => absurd h hcode⟩

theorem Turns.ite {condition : Prop} [Decidable condition] {q : Parser α}
    (hp : Turns opened K G p) (hq : Turns opened K G q) :
    Turns opened K G (if condition then p else q) := by
  split
  · exact hp
  · exact hq

theorem Turns.withLoops {change : List (Option Name) → List (Option Name)}
    (hp : Turns opened K G p) : Turns opened K G (Parser.withLoops change p) :=
  fun c s hs => hp { c with loops := change c.loops } s hs

theorem balanced_map {f : α → β} (hp : BalancedAt K p) : BalancedAt K (f <$> p) :=
  BalancedAt.then hp fun v => balanced_pure (f v)

theorem balanced_some (hp : BalancedAt K p) : BalancedAt K (do return some (← p)) :=
  hp.then fun _ => balanced_pure _

/-! ## Looks -/

/-- The parser takes nothing and changes nothing, and its value is in a relation to the tokens
ahead. -/
def Sees (K : List Token → Prop) (R : List Token → α → Prop) (p : Parser α) : Prop :=
  ∀ c s, K s.ahead → ∃ v, p c s = .done false v s ∧ R s.ahead v

variable {R : List Token → α → Prop} {Q : List Token → β → Prop}

theorem Sees.pure {v : α} (hv : ∀ ahead, K ahead → R ahead v) : Sees K R (Pure.pure v) :=
  fun _ s hs => ⟨v, rfl, hv s.ahead hs⟩

theorem Sees.bind (hp : Sees K R p)
    (hf : ∀ v, Sees (fun ahead => K ahead ∧ R ahead v) Q (f v)) : Sees K Q (p >>= f) := by
  intro c s hs
  obtain ⟨v, hrun, hv⟩ := hp c s hs
  obtain ⟨w, hmore, hw⟩ := hf v c s ⟨hs, hv⟩
  exact ⟨w, by rw [bind_of_done hrun, hmore]; rfl, hw⟩

theorem sees_current : Sees K (fun ahead token => ahead.headD eofToken = token) Parser.current :=
  fun _ _ _ => ⟨_, rfl, rfl⟩

theorem sees_currentSpan :
    Sees K (fun ahead span => (ahead.headD eofToken).span = span) Parser.currentSpan :=
  fun _ _ _ => ⟨_, rfl, rfl⟩

theorem sees_describeCurrent : Sees K (fun _ _ => True) describeCurrent :=
  fun _ _ _ => ⟨_, rfl, trivial⟩

theorem sees_peek : Sees K (fun ahead kind => (ahead.tail.headD eofToken).kind = kind) peek :=
  fun _ _ _ => ⟨_, peek_eq, rfl⟩

theorem sees_pastNewlines :
    Sees K
      (fun ahead kind =>
        ((ahead.dropWhile (·.kind.isMark .newline)).headD eofToken).kind = kind) pastNewlines :=
  fun _ _ _ => ⟨_, rfl, rfl⟩

theorem Sees.turns (hp : Sees K R p)
    (hf : ∀ v, Turns opened (fun ahead => K ahead ∧ R ahead v) H (f v)) :
    Turns opened K H (p >>= f) := by
  intro c s hs
  obtain ⟨v, hrun, hv⟩ := hp c s hs
  rw [bind_of_done hrun, ParseReply.after_false]
  exact hf v c s ⟨hs, hv⟩

theorem Stays.turns {Q : TokenKind → α → Prop} (hp : Stays Q p)
    (hf : ∀ v, Turns opened (fun ahead => K ahead ∧ Ahead (Q · v) ahead) H (f v)) :
    Turns opened K H (p >>= f) := by
  intro c s hs
  have hstays := hp c s
  cases hrun : p c s with
  | failed taken e t =>
    rw [hrun] at hstays
    obtain ⟨rfl, hahead, count, rfl⟩ := hstays
    rw [bind_of_failed hrun]
    exact ⟨opened, .of_same hahead opened, trivial⟩
  | done taken v t =>
    rw [hrun] at hstays
    obtain ⟨rfl, hahead, hv⟩ := hstays
    rw [bind_of_done hrun]
    apply Nests.after (.of_same hahead opened)
    apply hf v c t
    rw [hahead]
    exact ⟨hs, hv⟩

theorem Stays.balanced {Q : TokenKind → α → Prop} (hp : Stays Q p) : BalancedAt K p := by
  intro c s _
  have hstays := hp c s
  cases hrun : p c s with
  | failed taken e t =>
    rw [hrun] at hstays
    obtain ⟨rfl, hahead, count, rfl⟩ := hstays
    exact ⟨[], .of_same hahead [], trivial⟩
  | done taken v t =>
    rw [hrun] at hstays
    obtain ⟨rfl, hahead, -⟩ := hstays
    exact ⟨[], .of_same hahead [], rfl, trivial⟩

theorem turns_failFound {code : Code} (hcode : code ≠ .unmatchedBracket) :
    Turns opened K G (failFound code : Parser α) :=
  sees_currentSpan.turns fun _ => sees_describeCurrent.turns fun _ => .fault hcode

theorem turns_failExpected (what : String) :
    Turns opened K G (failExpected what : Parser α) :=
  sees_describeCurrent.turns fun _ => sees_currentSpan.turns fun _ => .fault (by simp)

/-! ## Tokens taken -/

theorem turns_advance {G : Token → List Token → Prop}
    (h : ∀ ahead, K ahead → ∃ token rest closed, ahead = token :: rest ∧ token.kind.Takable ∧
      openBehind opened token = some closed ∧ G token closed) :
    Turns opened K G advance := by
  intro c s hs
  obtain ⟨token, rest, closed, hahead, hkind, hopen, hG⟩ := h _ hs
  rw [advance_of_ahead hahead hkind]
  exact ⟨closed, .one hahead hopen, hG⟩

theorem Ahead.exists_token {ahead : List Token} (h : Ahead P ahead) (hP : ¬P (.mark .eof)) :
    ∃ token rest, ahead = token :: rest ∧ P token.kind := by
  cases ahead with
  | nil => exact absurd h hP
  | cons token rest => exact ⟨token, rest, rfl, h⟩

theorem balanced_advance : BalancedAt (Ahead TokenKind.Plain) advance := by
  apply turns_advance
  intro ahead h
  obtain ⟨token, rest, rfl, hplain⟩ := h.exists_token id
  exact ⟨token, rest, [], rfl, TokenKind.Plain.takable hplain, openBehind_plain [] hplain, rfl,
    trivial⟩

theorem turns_opener (bracket : Bracket) :
    Turns opened (Ahead (· = .mark (.opening bracket)))
      (fun opener closed => closed = opener :: opened ∧ opener.kind = .mark (.opening bracket))
      advance := by
  apply turns_advance
  intro ahead h
  obtain ⟨token, rest, rfl, hkind⟩ := h.exists_token (by simp)
  refine ⟨token, rest, _, rfl, ?_, openBehind_opening hkind opened, rfl, hkind⟩
  simp [TokenKind.Takable, hkind, TokenKind.isMark, TokenKind.mark?]

theorem turns_closer {opener : Token} {bracket : Bracket}
    (hopener : opener.kind = .mark (.opening bracket)) :
    Turns (opener :: opened) (Ahead (· = .mark (.closing bracket)))
      (fun _ closed => closed = opened) advance := by
  apply turns_advance
  intro ahead h
  obtain ⟨token, rest, rfl, hkind⟩ := h.exists_token (by simp)
  refine ⟨token, rest, _, rfl, ?_, openBehind_closing hkind hopener opened, rfl⟩
  simp [TokenKind.Takable, hkind, TokenKind.isMark, TokenKind.mark?]

theorem Turns.take {f : Token → Parser β} (hK : ∀ ahead, K ahead → Ahead TokenKind.Plain ahead)
    (hf : ∀ token, Turns opened (fun _ => True) H (f token)) :
    Turns opened K H (advance >>= f) :=
  BalancedAt.then (Balances.narrow balanced_advance hK) hf

theorem Turns.takeSeen {f : Token → Parser β} {token : Token} {kind : TokenKind}
    (h : token.kind = kind) (hkind : kind.Plain)
    (hf : ∀ token, Turns opened (fun _ => True) H (f token)) :
    Turns opened (fun ahead => K ahead ∧ ahead.headD eofToken = token) H (advance >>= f) := by
  apply Turns.take _ hf
  rintro ahead ⟨-, rfl⟩
  exact .of_eq h hkind

/-- Two tokens are taken of which a look has told that they are no brackets. -/
theorem Turns.takeTwo {f : Token → Token → Parser β}
    (hf : ∀ first second, Turns opened (fun _ => True) H (f first second)) :
    Turns opened (fun ahead => Ahead TokenKind.Plain ahead ∧ Ahead TokenKind.Plain ahead.tail) H
      (advance >>= fun first => advance >>= fun second => f first second) := by
  intro c s hs
  obtain ⟨first, rest, hahead, hfirst⟩ := hs.1.exists_token id
  rw [bind_of_done (advance_of_ahead hahead (TokenKind.Plain.takable hfirst))]
  apply Nests.after (.one hahead (openBehind_plain opened hfirst))
  refine Turns.take (fun _ h => h) (hf first) c _ ?_
  simpa [hahead] using hs.2

theorem Turns.eat {f : Bool → Parser β} {mark : Mark} (hmark : mark ≠ .eof)
    (hyes : ∀ token rest, K (token :: rest) → token.kind = .mark mark →
      ∃ middle, openBehind opened token = some middle ∧
        Turns middle (fun _ => True) H (f true))
    (hno : Turns opened (fun _ => True) H (f false)) :
    Turns opened K H (Parser.eat mark >>= f) := by
  intro c s hs
  cases hfound : s.kind.isMark mark with
  | false =>
    rw [bind_of_done (eat_of_not hfound), ParseReply.after_false]
    exact hno c s trivial
  | true =>
    obtain ⟨token, rest, hahead⟩ := s.ahead_of_isMark hfound hmark
    rw [ParseState.kind_of_ahead hahead] at hfound
    rw [bind_of_done (eat_of_ahead hahead hfound hmark)]
    rw [hahead] at hs
    obtain ⟨middle, hopen, hrest⟩ := hyes token rest hs (TokenKind.isMark_iff.mp hfound)
    exact .after (.one hahead hopen) (hrest c _ trivial)

theorem Turns.eatPlain {f : Bool → Parser β} {mark : Mark} (hmark : (TokenKind.mark mark).Plain)
    (hyes : Turns opened (fun _ => True) H (f true))
    (hno : Turns opened (fun _ => True) H (f false)) :
    Turns opened K H (Parser.eat mark >>= f) := by
  apply Turns.eat _ _ hno
  · rintro rfl
    exact hmark
  · intro token _ _ hkind
    rw [← hkind] at hmark
    exact ⟨opened, openBehind_plain opened hmark, hyes⟩

/-- The opener that is taken is the token at which the parser has looked before. -/
theorem Turns.eatOpener {f : Bool → Parser β} {bracket : Bracket} {span : Span}
    (hyes : ∀ opener : Token, opener.kind = .mark (.opening bracket) → opener.span = span →
      Turns (opener :: opened) (fun _ => True) H (f true))
    (hno : Turns opened (fun _ => True) H (f false)) :
    Turns opened (fun ahead => K ahead ∧ (ahead.headD eofToken).span = span) H
      (Parser.eat (.opening bracket) >>= f) := by
  apply Turns.eat (by simp) _ hno
  intro opener rest hahead hkind
  exact ⟨opener :: opened, openBehind_opening hkind opened, hyes opener hkind hahead.2⟩

theorem Turns.eatCloser {f : Bool → Parser β} {opener : Token} {bracket : Bracket}
    (hopener : opener.kind = .mark (.opening bracket))
    (hyes : Turns opened (fun _ => True) H (f true))
    (hno : Turns (opener :: opened) (fun _ => True) H (f false)) :
    Turns (opener :: opened) K H (Parser.eat (.closing bracket) >>= f) := by
  apply Turns.eat (by simp) _ hno
  intro token _ _ hkind
  exact ⟨opened, openBehind_closing hkind hopener opened, hyes⟩

theorem Turns.eatKeyword {f : Bool → Parser β} {word : Keyword}
    (hyes : Turns opened (fun _ => True) H (f true))
    (hno : Turns opened (fun _ => True) H (f false)) :
    Turns opened K H (Parser.eatKeyword word >>= f) := by
  intro c s _
  cases hfound : s.kind.isKeyword word with
  | false =>
    rw [bind_of_done (eatKeyword_of_not hfound), ParseReply.after_false]
    exact hno c s trivial
  | true =>
    have hplain : Ahead TokenKind.Plain s.ahead := .of_isKeyword hfound
    obtain ⟨token, rest, hahead, hkind⟩ := hplain.exists_token id
    rw [ParseState.kind_of_ahead hahead] at hfound
    rw [bind_of_done (eatKeyword_of_ahead hahead hfound)]
    exact .after (.one hahead (openBehind_plain opened hkind)) (hyes c _ trivial)

/-! ## Repetition -/

theorem nests_loop {G : α → Prop} {step : σ → Parser (σ ⊕ α)} {c : ParseContext}
    (hstep : ∀ v, Balances (fun _ => True) (Sum.elim (fun _ => True) G) (step v)) (steps : Nat)
    {v : σ} (hst : Passes [] s taken t []) :
    Nests [] (fun w closed => closed = [] ∧ G w) s (Parser.loop step steps taken v c t) := by
  induction steps generalizing taken v t with
  | zero => exact ⟨[], hst, trivial⟩
  | succ steps ih =>
    have hround := hstep v c t trivial
    rw [loop_succ]
    cases hrun : step v c t with
    | failed more e u =>
      rw [hrun] at hround
      obtain ⟨closed, hpass, he⟩ := hround
      exact ⟨closed, hst.trans hpass, he⟩
    | done more r u =>
      rw [hrun] at hround
      obtain ⟨_, hpass, rfl, hr⟩ := hround
      cases r with
      | inr result => exact ⟨[], hst.trans hpass, rfl, hr⟩
      | inl next => exact ih (hst.trans hpass)

theorem Balances.repeating {G : α → Prop} {step : σ → Parser (σ ⊕ α)}
    (hstep : ∀ v, Balances (fun _ => True) (Sum.elim (fun _ => True) G) (step v)) (start : σ) :
    Balances K G (Parser.repeating step start) :=
  fun c _ _ => nests_loop hstep (c.rounds + 1) (.of_same rfl [])

theorem balanced_repeating {step : σ → Parser (σ ⊕ α)} (hstep : ∀ v, Balanced (step v))
    (start : σ) : BalancedAt K (Parser.repeating step start) := by
  apply Balances.repeating _ start
  intro v
  apply (hstep v).mono (fun _ h => h)
  rintro r _ ⟨rfl, -⟩
  cases r with
  | inl next => exact ⟨rfl, trivial⟩
  | inr result => exact ⟨rfl, trivial⟩

/-! ## Small parsers -/

theorem balanced_skipNewlines : BalancedAt K skipNewlines := by
  apply balanced_repeating
  intro _
  exact .eatPlain trivial (balanced_pure _) (balanced_pure _)

theorem balanced_identifier {code : Code} (hcode : code ≠ .unmatchedBracket) :
    BalancedAt K (identifier code) := by
  apply sees_current.turns
  intro token
  split
  · rename_i name hkind
    exact .takeSeen hkind trivial fun _ => balanced_pure name
  · exact turns_failFound hcode

/-- A parser that stops has taken nothing, so no bracket is the reason. -/
theorem Balances.orStop {G : α → Prop} (hp : Balances K G p) :
    Balances K (fun r => ∀ d, r = .error d → d.code ≠ .unmatchedBracket) (Parser.orStop p) := by
  intro c s hs
  have hreply := hp c s hs
  unfold Parser.orStop
  cases hrun : p c s with
  | done taken v t =>
    rw [hrun] at hreply
    obtain ⟨closed, hpass, hclosed, -⟩ := hreply
    exact ⟨closed, hpass, hclosed, by simp⟩
  | failed taken e t =>
    rw [hrun] at hreply
    cases taken with
    | true => exact hreply
    | false =>
      cases e with
      | tooLong count => exact hreply
      | exhausted => exact hreply
      | fault d =>
        obtain ⟨closed, hpass, he⟩ := hreply
        obtain ⟨gone, hgone, hsome, hclosed⟩ := hpass
        obtain rfl : gone = [] := by simpa using hsome
        cases hclosed
        refine ⟨[], ⟨[], hgone, by simp, rfl⟩, rfl, ?_⟩
        rintro _ ⟨rfl⟩ hcode
        obtain ⟨-, opener, outer, bracket, hopened, -⟩ := he hcode
        cases hopened

/-- A bracket is closed, unless another token or the end of the input is in the way. At the end the
opener is at fault. -/
theorem turns_expectCloser {opener : Token} {bracket : Bracket} {stopped : Option Diagnostic}
    (hopener : opener.kind = .mark (.opening bracket))
    (hstopped : ∀ d, stopped = some d → d.code ≠ .unmatchedBracket) :
    Turns (opener :: opened) K (fun _ closed => closed = opened)
      (expectCloser bracket opener.span stopped) := by
  apply BalancedAt.then balanced_skipNewlines
  intro _
  apply (stays_check _).turns
  intro closes
  cases closes with
  | true =>
    refine Turns.bind ((turns_closer hopener).mono ?_ fun _ _ h => h) fun _ _ h => .pure h
    rintro ahead ⟨-, hkind⟩
    exact TokenKind.isMark_iff.mp hkind.symm
  | false =>
    apply (stays_check .eof).turns
    intro ends
    cases ends with
    | true =>
      intro c s hs
      exact ⟨opener :: opened, .of_same rfl _, fun _ =>
        ⟨hs.2.symm, opener, opened, bracket, rfl, hopener, rfl⟩⟩
    | false =>
      cases hreason : stopped with
      | some d => exact .fault (hstopped d hreason)
      | none => exact turns_failExpected _

theorem Turns.behindNewlines {f : Token → Parser β}
    (hK : ∀ ahead, K ahead →
      Ahead TokenKind.Plain (ahead.dropWhile (·.kind.isMark .newline)))
    (hf : ∀ token, Turns opened (fun _ => True) H (f token)) :
    Turns opened K H (do skipNewlines; f (← Parser.advance)) := by
  intro c s hs
  have hskip := balanced_skipNewlines.within opened c s hs
  cases hrun : skipNewlines c s with
  | failed taken e t =>
    rw [hrun] at hskip
    rw [bind_of_failed hrun]
    exact hskip
  | done taken v t =>
    rw [hrun] at hskip
    obtain ⟨_, hpass, rfl, -⟩ := hskip
    rw [bind_of_done hrun]
    apply Nests.after hpass
    apply Turns.take (fun _ h => h) hf c t
    rw [ahead_of_skipNewlines hrun]
    exact hK _ hs

end Parser
end ExprScript
