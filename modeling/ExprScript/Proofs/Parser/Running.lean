import ExprScript.Proofs.Parser.Measured

/-!
# Runs of single steps

What the small parsers reply when the token ahead is known. A look takes nothing and leaves the
state; a token that is taken moves to `previous`.
-/
namespace ExprScript

/-- The kind of the first token, that of the end of the input if there is none. -/
def firstKind (rest : List Token) : TokenKind := (rest.headD Parser.eofToken).kind

namespace ParseState

def kind (s : ParseState) : TokenKind := (s.ahead.headD Parser.eofToken).kind

def past (s : ParseState) (token : Token) (rest : List Token) : ParseState :=
  { s with ahead := rest, previous := some token.span }

def behindNewlines (s : ParseState) : List Token :=
  s.ahead.dropWhile (·.kind.isMark .newline)

variable {s : ParseState} {token : Token} {rest : List Token}

theorem kind_of_ahead (h : s.ahead = token :: rest) : s.kind = token.kind := by
  simp [kind, h]

/-- Only the end of the input is ahead of no token. -/
theorem ahead_of_isMark (s : ParseState) {mark : Mark} (h : s.kind.isMark mark = true)
    (hmark : mark ≠ .eof) : ∃ token rest, s.ahead = token :: rest := by
  cases hahead : s.ahead with
  | cons token rest => exact ⟨token, rest, rfl⟩
  | nil =>
    have heof : Mark.eof = mark := by
      simpa [kind, hahead, Parser.eofToken, TokenKind.isMark, TokenKind.mark?] using h
    exact absurd heof.symm hmark

theorem behindNewlines_of_not (s : ParseState) (h : s.kind.isMark .newline = false) :
    s.behindNewlines = s.ahead := by
  cases hahead : s.ahead with
  | nil => simp [behindNewlines, hahead]
  | cons token rest =>
    rw [kind_of_ahead hahead] at h
    simp [behindNewlines, hahead, h]

@[simp] theorem past_ahead : (s.past token rest).ahead = rest := rfl
@[simp] theorem past_arena : (s.past token rest).arena = s.arena := rfl
@[simp] theorem past_warnings : (s.past token rest).warnings = s.warnings := rfl
@[simp] theorem past_previous : (s.past token rest).previous = some token.span := rfl

end ParseState

/-- A kind of token that can be taken. -/
def TokenKind.Takable (kind : TokenKind) : Prop := kind.isMark .eof = false

theorem TokenKind.Takable.of_isMark {kind : TokenKind} {mark : Mark} (h : kind.isMark mark = true)
    (hmark : mark ≠ .eof) : kind.Takable := by
  have hkind : kind.mark? = some mark := by simpa [isMark] using h
  simp [Takable, isMark, hkind, hmark]

theorem TokenKind.Takable.of_isKeyword {kind : TokenKind} {word : Keyword}
    (h : kind.isKeyword word = true) : kind.Takable := by
  cases kind with
  | mark m => simp [isKeyword] at h
  | _ => rfl

/-- A reply to a later part of a parser, told of what was taken before. -/
def ParseReply.after {α : Type} (taken : Bool) : ParseReply α → ParseReply α
  | .done more v s => .done (taken || more) v s
  | .failed more e s => .failed (taken || more) e s

@[simp] theorem ParseReply.after_false {α : Type} (reply : ParseReply α) :
    reply.after false = reply := by
  cases reply <;> rfl

namespace Parser

variable {α β σ : Type} {c : ParseContext} {s t : ParseState} {token : Token} {rest : List Token}
  {p : Parser α} {f : α → Parser β} {taken : Bool}

/-! ## One after another -/

theorem bind_of_done {v : α} (h : p c s = .done taken v t) :
    (p >>= f) c s = (f v c t).after taken := by
  change Parser.bind p f c s = _
  unfold Parser.bind
  rw [h]
  dsimp only
  cases f v c t <;> rfl

theorem bind_of_failed {e : ParseFailure} (h : p c s = .failed taken e t) :
    (p >>= f) c s = .failed taken e t := by
  change Parser.bind p f c s = _
  unfold Parser.bind
  rw [h]

/-- Two parsers succeed together if each does. -/
theorem done_of_bind {v : β} (h : (p >>= f) c s = .done taken v t) :
    ∃ first a u more, p c s = .done first a u ∧ f a c u = .done more v t := by
  cases hp : p c s with
  | failed first e u =>
    rw [bind_of_failed hp] at h
    cases h
  | done first a u =>
    rw [bind_of_done hp] at h
    cases hf : f a c u with
    | failed more e u =>
      rw [hf] at h
      cases h
    | done more v' t' =>
      rw [hf] at h
      cases h
      exact ⟨first, a, u, more, rfl, hf⟩

theorem exists_done_then {a : α} {v : β} {P : ParseState → Prop} (hp : p c s = .done taken a t)
    (hf : ∃ more u, f a c t = .done more v u ∧ P u) :
    ∃ more u, (p >>= f) c s = .done more v u ∧ P u := by
  obtain ⟨more, u, hrun, hu⟩ := hf
  exact ⟨taken || more, u, by rw [bind_of_done hp, hrun]; rfl, hu⟩

theorem then_assoc {γ : Type} (p : Parser α) (f : α → Parser β) (g : β → Parser γ) :
    (p >>= f) >>= g = p >>= fun a => f a >>= g := by
  funext c s
  cases hp : p c s with
  | failed taken e t => rw [bind_of_failed (bind_of_failed hp), bind_of_failed hp]
  | done taken a t =>
    rw [bind_of_done hp]
    cases hf : f a c t with
    | failed more e u =>
      rw [bind_of_failed hf, bind_of_failed (by rw [bind_of_done hp, hf]; rfl)]
      rfl
    | done more v u =>
      rw [bind_of_done hf, bind_of_done (by rw [bind_of_done hp, hf]; rfl)]
      cases g v c u <;> simp [ParseReply.after, Bool.or_assoc]

theorem pure_then (a : α) (f : α → Parser β) : (Pure.pure a >>= f) = f a := by
  funext c s
  have hpure : (Pure.pure a : Parser α) c s = .done false a s := rfl
  rw [bind_of_done hpure, ParseReply.after_false]

theorem loop_succ (step : σ → Parser (σ ⊕ α)) (steps : Nat) (before : Bool) (v : σ) :
    loop step (steps + 1) before v c s =
      match step v c s with
      | .done more (.inl next) t => loop step steps (before || more) next c t
      | .done more (.inr result) t => .done (before || more) result t
      | .failed more e t => .failed (before || more) e t := rfl

theorem loop_of_inl {step : σ → Parser (σ ⊕ α)} {v w : σ} (h : step v c s = .done taken (.inl w) t)
    (steps : Nat) (before : Bool) :
    loop step (steps + 1) before v c s = loop step steps (before || taken) w c t := by
  rw [loop_succ, h]

theorem loop_of_inr {step : σ → Parser (σ ⊕ α)} {v : σ} {result : α}
    (h : step v c s = .done taken (.inr result) t) (steps : Nat) (before : Bool) :
    loop step (steps + 1) before v c s = .done (before || taken) result t := by
  rw [loop_succ, h]

/-! ## Tokens -/

theorem current_of_ahead (h : s.ahead = token :: rest) : current c s = .done false token s := by
  simp [current, h]

/-- What follows a look at the current token depends on that token. -/
theorem done_of_current {f : Token → Parser β} {v : β}
    (h : (current >>= f) c s = .done taken v t) :
    ∃ p, p = f (s.ahead.headD eofToken) ∧ p c s = .done taken v t := by
  have hcurrent : current c s = .done false (s.ahead.headD eofToken) s := rfl
  rw [bind_of_done hcurrent, ParseReply.after_false] at h
  exact ⟨_, rfl, h⟩

theorem peek_eq : peek c s = .done false (firstKind s.ahead.tail) s := by
  unfold peek
  cases s.ahead with
  | nil => rfl
  | cons token more =>
    cases more <;> rfl

theorem advance_of_ahead (h : s.ahead = token :: rest) (hkind : token.kind.Takable) :
    advance c s = .done true token (s.past token rest) := by
  have hkind : token.kind.isMark .eof = false := hkind
  unfold advance
  rw [h]
  simp [hkind, ParseState.past]

theorem advance_of_not (h : ¬s.kind.Takable) :
    advance c s = .done false (s.ahead.headD eofToken) s := by
  have hkind : s.kind.isMark .eof = true := by simpa [TokenKind.Takable] using h
  cases hahead : s.ahead with
  | nil => simp [advance, hahead]
  | cons token rest =>
    rw [ParseState.kind_of_ahead hahead] at hkind
    simp [advance, hahead, hkind]

theorem check_eq (mark : Mark) : check mark c s = .done false (s.kind.isMark mark) s := rfl

theorem checkKeyword_eq (word : Keyword) :
    checkKeyword word c s = .done false (s.kind.isKeyword word) s := rfl

theorem eat_of_ahead {mark : Mark} (h : s.ahead = token :: rest)
    (hkind : token.kind.isMark mark = true) (hmark : mark ≠ .eof) :
    eat mark c s = .done true true (s.past token rest) := by
  have hfound : check mark c s = .done false true s := by
    rw [check_eq, ParseState.kind_of_ahead h, hkind]
  have htaken := advance_of_ahead (c := c) h (TokenKind.Takable.of_isMark hkind hmark)
  rw [eat, bind_of_done hfound, if_pos rfl, bind_of_done htaken]
  rfl

theorem eat_of_not {mark : Mark} (h : s.kind.isMark mark = false) :
    eat mark c s = .done false false s := by
  have hmissing : check mark c s = .done false false s := by
    rw [check_eq, h]
  rw [eat, bind_of_done hmissing]
  rfl

theorem eatKeyword_of_ahead {word : Keyword} (h : s.ahead = token :: rest)
    (hkind : token.kind.isKeyword word = true) :
    eatKeyword word c s = .done true true (s.past token rest) := by
  have hfound : checkKeyword word c s = .done false true s := by
    rw [checkKeyword_eq, ParseState.kind_of_ahead h, hkind]
  have htaken := advance_of_ahead (c := c) h (TokenKind.Takable.of_isKeyword hkind)
  rw [eatKeyword, bind_of_done hfound, if_pos rfl, bind_of_done htaken]
  rfl

theorem eatKeyword_of_not {word : Keyword} (h : s.kind.isKeyword word = false) :
    eatKeyword word c s = .done false false s := by
  have hmissing : checkKeyword word c s = .done false false s := by
    rw [checkKeyword_eq, h]
  rw [eatKeyword, bind_of_done hmissing]
  rfl

theorem eat_then (mark : Mark) (f : Bool → Parser β) :
    eat mark >>= f =
      check mark >>= fun found => if found then advance >>= fun _ => f true else f false := by
  unfold eat
  rw [then_assoc]
  congr 1
  funext found
  cases found
  · exact pure_then ..
  · exact (then_assoc ..).trans (congrArg _ (funext fun _ => pure_then ..))

theorem eatKeyword_then (word : Keyword) (f : Bool → Parser β) :
    eatKeyword word >>= f =
      checkKeyword word >>= fun found =>
        if found then advance >>= fun _ => f true else f false := by
  unfold eatKeyword
  rw [then_assoc]
  congr 1
  funext found
  cases found
  · exact pure_then ..
  · exact (then_assoc ..).trans (congrArg _ (funext fun _ => pure_then ..))

/-! ## Line breaks -/

theorem skipNewlines_of_not (h : s.kind.isMark .newline = false) :
    skipNewlines c s = .done false () s := by
  unfold skipNewlines repeating
  exact loop_of_inr ((bind_of_done (eat_of_not h)).trans rfl) c.rounds false

theorem pastNewlines_eq :
    pastNewlines c s = .done false (s.behindNewlines.headD eofToken).kind s := rfl

/-- Line breaks are skipped up to another token. -/
theorem skipNewlines_run (hrounds : s.ahead.length ≤ c.rounds) :
    ∃ taken t, skipNewlines c s = .done taken () t ∧ t.ahead = s.behindNewlines ∧
      t.arena = s.arena ∧ t.warnings = s.warnings := by
  suffices h : ∀ steps before, s.ahead.length < steps → ∃ taken t,
      loop (fun _ : Unit => do if ← eat .newline then return .inl () else return .inr ())
        steps before () c s = .done taken () t ∧ t.ahead = s.behindNewlines ∧
          t.arena = s.arena ∧ t.warnings = s.warnings from
    h (c.rounds + 1) false (by omega)
  intro steps before hsteps
  clear hrounds
  induction steps generalizing s before with
  | zero => omega
  | succ steps ih =>
    cases hmark : s.kind.isMark .newline with
    | true =>
      obtain ⟨token, rest, hahead⟩ := s.ahead_of_isMark hmark (by simp)
      rw [ParseState.kind_of_ahead hahead] at hmark
      rw [loop_of_inl ((bind_of_done (eat_of_ahead hahead hmark (by simp))).trans rfl)]
      obtain ⟨taken, t, hrun, hrest, hkept⟩ := ih (s := s.past token rest) (before || true)
        (by simpa [hahead] using hsteps)
      refine ⟨taken, t, hrun, hrest.trans ?_, hkept⟩
      simp [ParseState.behindNewlines, hahead, hmark]
    | false =>
      rw [loop_of_inr ((bind_of_done (eat_of_not hmark)).trans rfl)]
      exact ⟨_, s, rfl, (s.behindNewlines_of_not hmark).symm, rfl, rfl⟩

/-- Where line breaks were skipped, the tokens behind them are ahead, and nothing was stored or
noticed. -/
theorem kept_of_skipNewlines (h : skipNewlines c s = .done taken () t) :
    t.ahead = s.behindNewlines ∧ t.arena = s.arena ∧ t.warnings = s.warnings := by
  suffices hloop : ∀ steps before s, loop (fun _ : Unit => do
      if ← eat .newline then return .inl () else return .inr ()) steps before () c s =
        .done taken () t →
      t.ahead = s.behindNewlines ∧ t.arena = s.arena ∧ t.warnings = s.warnings from
    hloop (c.rounds + 1) false s h
  intro steps
  induction steps with
  | zero => exact fun before s h => by cases h
  | succ steps ih =>
    intro before s h
    cases hmark : s.kind.isMark .newline with
    | true =>
      obtain ⟨token, rest, hahead⟩ := s.ahead_of_isMark hmark (by simp)
      rw [ParseState.kind_of_ahead hahead] at hmark
      rw [loop_of_inl ((bind_of_done (eat_of_ahead hahead hmark (by simp))).trans rfl)] at h
      obtain ⟨hrest, hkept⟩ := ih _ _ h
      refine ⟨hrest.trans ?_, hkept⟩
      simp [ParseState.behindNewlines, hahead, hmark]
    | false =>
      rw [loop_of_inr ((bind_of_done (eat_of_not hmark)).trans rfl)] at h
      cases h
      exact ⟨(ParseState.behindNewlines_of_not _ hmark).symm, rfl, rfl⟩

theorem ahead_of_skipNewlines (h : skipNewlines c s = .done taken () t) :
    t.ahead = s.behindNewlines := (kept_of_skipNewlines h).1

/-- Where line breaks were skipped none is ahead. -/
theorem kind_of_skipNewlines (h : skipNewlines c s = .done taken () t) :
    t.kind.isMark .newline = false := by
  have hfirst := List.head?_dropWhile_not (fun token : Token => token.kind.isMark .newline) s.ahead
  rw [← ParseState.behindNewlines, ← ahead_of_skipNewlines h] at hfirst
  cases hahead : t.ahead with
  | nil => simp [ParseState.kind, hahead, eofToken, TokenKind.isMark, TokenKind.mark?]
  | cons token rest => simpa [ParseState.kind_of_ahead hahead, hahead] using hfirst

theorem orStop_of_done {v : α} (h : p c s = .done taken v t) :
    orStop p c s = .done taken (.ok v) t := by
  rw [orStop, h]

theorem orStop_of_soft {d : Diagnostic} (h : p c s = .failed false (.fault d) t) :
    orStop p c s = .done false (.error d) t := by
  rw [orStop, h]

/-- A failure behind a token and a breakdown are passed on. -/
theorem orStop_of_hard {e : ParseFailure} (h : p c s = .failed taken e t)
    (hhard : ∀ d, e = .fault d → taken = true) : orStop p c s = .failed taken e t := by
  cases taken with
  | true => rw [orStop, h]
  | false =>
    cases e with
    | fault d => exact absurd (hhard d rfl) Bool.false_ne_true
    | _ => rw [orStop, h]

/-- Where a parser stopped, it has taken nothing. -/
theorem taken_of_orStop {d : Diagnostic} (h : orStop p c s = .done taken (.error d) t) :
    taken = false := by
  unfold orStop at h
  cases hrun : p c s with
  | done more v u =>
    rw [hrun] at h
    cases h
  | failed more e u =>
    rw [hrun] at h
    cases more with
    | true => cases h
    | false =>
      cases e with
      | fault d => cases h; rfl
      | tooLong count => cases h
      | exhausted => cases h

end Parser

/-! ## The root -/

def Arena.pushBlock (arena : Arena) (nodes : List NodeId) (span : Span) : NodeId × Arena :=
  { arena with lists := arena.lists ++ nodes.toArray }.push
    ⟨.block ⟨arena.lists.size, nodes.length⟩, span⟩

theorem finishParse_eq (context : ParseContext) (start : Span) (nodes : List NodeId)
    (error : Option Diagnostic) (s : ParseState) :
    finishParse context start nodes error s =
      if nodes.length ≤ maxRunLength then
        let last := s.previous.getD (Span.point (s.ahead.headD Parser.eofToken).span.start)
        let (root, arena) := s.arena.pushBlock nodes (start.merge last)
        .ok ⟨arena, root, error, s.warnings.toList⟩
      else .error (.listTooLong nodes.length) := by
  unfold finishParse Parser.rootBlock
  by_cases hlength : nodes.length ≤ maxRunLength
  · have hstore : Parser.storeList nodes context s =
        .done false ⟨s.arena.lists.size, nodes.length⟩
          { s with arena := { s.arena with lists := s.arena.lists ++ nodes.toArray } } := by
      simp [Parser.storeList, Parser.store, hlength, appendRun]
    rw [Parser.bind_of_done hstore, if_pos hlength]
    rfl
  · have hstore : Parser.storeList nodes context s = .failed false (.tooLong nodes.length) s := by
      simp [Parser.storeList, Parser.store, hlength]
    rw [Parser.bind_of_failed hstore, if_neg hlength]

end ExprScript
