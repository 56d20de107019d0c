import ExprScript.Proofs.Parser.Running
import ExprScript.Proofs.Tree.Renumbering

/-!
# Where a token list goes on

Two parsers read the same tokens. For one of them they are all, and for the other one a line break
and more tokens follow; the other one may also have stored nodes and warned of something before.
Where the first parser succeeds the second one does the same, with other numbers for the nodes: what
ends at the end of the input ends at a line break, too. Only inside of brackets line breaks do not
matter, but there the first parser cannot come to the end and succeed.
-/
namespace ExprScript

open Renumbers ExprScript.Parser

/-- A kind of token that ends a statement wherever it stands. -/
def TokenKind.Breaks (kind : TokenKind) : Prop := kind = .mark .newline ∨ kind = .mark .eof

/-- Where a token list ends for one parser and goes on for another one, and what the other one has
stored and noticed before. What follows does not belong to a conditional in front of it. -/
structure Seam where
  last : Token
  more : List Token
  base : Arena
  before : Array Diagnostic
  ends : last.kind = .mark .eof
  breaks : ∃ token rest, more = token :: rest ∧ token.kind.Breaks
  noBranch : ∀ kind,
    kind = ((more.dropWhile (·.kind.isMark .newline)).headD Parser.eofToken).kind →
      kind ≠ .keyword .elifWord ∧ kind ≠ .keyword .elseWord

/-- A context as good as another one, for a longer token list. -/
structure ParseContext.Within (c c' : ParseContext) : Prop where
  names : c'.names = c.names
  loops : c'.loops = c.loops
  rounds : c.rounds ≤ c'.rounds

namespace Seam

def shift {α : Type} [Renumbers α] (J : Seam) : α → α := renumber (.behind J.base)

/-- Two states in front of the same tokens. If it is asked for, a token was taken before. -/
structure Beside (J : Seam) (taken : Bool) (s s' : ParseState) : Prop where
  ahead : ∃ tokens, s.ahead = tokens ++ [J.last] ∧ s'.ahead = tokens ++ J.more ∧
    ∀ token ∈ tokens, token.kind.Takable
  previous : taken = true → ∃ span, s.previous = some span ∧ s'.previous = some span
  arena : s'.arena = J.base.append s.arena
  warnings : s'.warnings = J.before ++ s.warnings

variable {α β σ : Type} [Renumbers α] [Renumbers β] [Renumbers σ] {J : Seam} {w b : Bool}
  {K K' : ParseState → Prop} {s s' t : ParseState} {c c' : ParseContext}

theorem Beside.mono (h : J.Beside true s s') (b : Bool) : J.Beside b s s' :=
  { h with previous := fun _ => h.previous rfl }

/-- The other parser has come as far, unless the first one was lost at the end of the input. -/
def Reached (J : Seam) (w b : Bool) (v : α) (t : ParseState) (reply : ParseReply α) : Prop :=
  (∃ more t', reply = .done more (J.shift v) t' ∧ J.Beside b t t') ∨
    w = true ∧ t.ahead = [J.last]

omit [Renumbers β] [Renumbers σ] in
theorem Reached.mono {v : α} {reply : ParseReply α} (h : J.Reached w true v t reply) (b : Bool) :
    J.Reached w b v t reply := by
  refine h.imp_left ?_
  rintro ⟨more, t', hdone, ht'⟩
  exact ⟨more, t', hdone, ht'.mono b⟩

/-- Where the first parser succeeds the second one reaches the same. From the end of the input the
first one goes nowhere. -/
def Follows (J : Seam) (w b : Bool) (K : ParseState → Prop) (p q : Parser α) : Prop :=
  ∀ c c' s taken v t, c.Within c' → K s → p c s = .done taken v t →
    (∀ s', J.Beside b s s' → J.Reached w b v t (q c' s')) ∧
      (s.ahead = [J.last] → t.ahead = [J.last])

/-- Whether a parser never succeeds at the end of the input. -/
def Stuck (J : Seam) (p : Parser α) : Prop :=
  ∀ c s taken v t, s.ahead = [J.last] → p c s ≠ .done taken v t

/-! ## States -/

theorem kind_of_end (h : s.ahead = [J.last]) : s.kind = .mark .eof := by
  rw [ParseState.kind_of_ahead h]
  exact J.ends

theorem not_takable_last (J : Seam) : ¬J.last.kind.Takable := by
  rw [J.ends]
  exact Bool.false_ne_true ∘ Eq.symm

theorem Beside.cases (h : J.Beside b s s') :
    (∃ token rest rest', token.kind.Takable ∧ s.ahead = token :: rest ∧
      s'.ahead = token :: rest' ∧ J.Beside true (s.past token rest) (s'.past token rest')) ∨
    ∃ token rest, s.ahead = [J.last] ∧ s'.ahead = token :: rest ∧ token.kind.Breaks := by
  obtain ⟨tokens, hs, hs', htakable⟩ := h.ahead
  cases tokens with
  | nil =>
    obtain ⟨token, rest, hmore, hbreaks⟩ := J.breaks
    exact .inr ⟨token, rest, hs, hs'.trans hmore, hbreaks⟩
  | cons token tokens =>
    obtain ⟨htoken, hrest⟩ := List.forall_mem_cons.mp htakable
    exact .inl ⟨token, _, _, htoken, hs, hs', ⟨tokens, rfl, rfl, hrest⟩,
      fun _ => ⟨token.span, rfl, rfl⟩, h.arena, h.warnings⟩

theorem Beside.kind (h : J.Beside b s s') :
    s'.kind = s.kind ∧ s.kind.Takable ∨ s.ahead = [J.last] ∧ s'.kind.Breaks := by
  rcases h.cases with ⟨token, rest, rest', htoken, hs, hs', -⟩ | ⟨token, rest, hs, hs', hbreaks⟩
  · rw [ParseState.kind_of_ahead hs, ParseState.kind_of_ahead hs']
    exact .inl ⟨rfl, htoken⟩
  · rw [ParseState.kind_of_ahead hs']
    exact .inr ⟨hs, hbreaks⟩

theorem Beside.isMark (h : J.Beside b s s') {m : Mark} (hm : m ≠ .newline ∧ m ≠ .eof) :
    s'.kind.isMark m = s.kind.isMark m := by
  rcases h.kind with ⟨hsame, -⟩ | ⟨hlast, hbreaks⟩
  · rw [hsame]
  · rw [kind_of_end hlast]
    obtain ⟨hnewline, heof⟩ := hm
    rcases hbreaks with hkind | hkind <;>
      simp [hkind, TokenKind.isMark, TokenKind.mark?, hnewline.symm, heof.symm]

theorem Beside.isKeyword (h : J.Beside b s s') (word : Keyword) :
    s'.kind.isKeyword word = s.kind.isKeyword word := by
  rcases h.kind with ⟨hsame, -⟩ | ⟨hlast, hbreaks⟩
  · rw [hsame]
  · rw [kind_of_end hlast]
    rcases hbreaks with hkind | hkind <;> simp [hkind, TokenKind.isKeyword]

/-! ## One after another -/

omit [Renumbers α] [Renumbers σ] in
theorem Reached.then {p : Parser α} {f : α → Parser β} {a : α} {u : β} {taken : Bool}
    (hp : p c s = .done taken a t) (hf : J.Reached w b u s' (f a c t)) :
    J.Reached w b u s' ((p >>= f) c s) := by
  exact hf.imp_left (exists_done_then hp)

variable {p q : Parser α} {f f' : α → Parser β}

theorem Follows.mono (h : J.Follows false b K' p q) (hK : ∀ s, K s → K' s) (w : Bool) :
    J.Follows w b K p q := by
  intro c c' s taken v t hc hs hrun
  obtain ⟨hreached, hend⟩ := h c c' s taken v t hc (hK s hs) hrun
  exact ⟨fun s' hs' => (hreached s' hs').imp_right fun h => absurd h.1 Bool.false_ne_true, hend⟩

theorem Follows.anywhere (h : J.Follows w b (fun _ => True) p q) : J.Follows w b K p q :=
  fun c c' s taken v t hc _ => h c c' s taken v t hc trivial

theorem Follows.never (h : ∀ c s taken v t, K s → p c s ≠ .done taken v t) :
    J.Follows w b K p q :=
  fun c _ s taken v t _ hs hrun => absurd hrun (h c s taken v t hs)

theorem Follows.lastly (h : J.Stuck p) : J.Follows w b (fun s => K s ∧ s.ahead = [J.last]) p q :=
  .never fun c s taken v t hs => h c s taken v t hs.2

theorem Follows.pure {v v' : α} (hv : v' = J.shift v) :
    J.Follows w b K (Pure.pure v) (Pure.pure v') := by
  intro c c' s taken u t _ _ hrun
  cases hrun
  exact ⟨fun s' hs => .inl ⟨false, s', by rw [← hv]; rfl, hs⟩, id⟩

theorem Follows.bind (hp : J.Follows w b K p q)
    (hf : ∀ v, J.Follows w b (fun _ => True) (f v) (f' (J.shift v))) :
    J.Follows w b K (p >>= f) (q >>= f') := by
  intro c c' s taken v t hc hs hrun
  obtain ⟨first, a, u, more, hfirst, hmore⟩ := done_of_bind hrun
  obtain ⟨hp, hpEnd⟩ := hp c c' s first a u hc hs hfirst
  obtain ⟨hf, hfEnd⟩ := hf a c c' u more v t hc trivial hmore
  refine ⟨fun s' hs' => ?_, fun h => hfEnd (hpEnd h)⟩
  rcases hp s' hs' with ⟨more', u', hdone, hu'⟩ | ⟨hw, hlost⟩
  · exact .then hdone (hf u' hu')
  · exact .inr ⟨hw, hfEnd hlost⟩

theorem Follows.closing (hp : J.Follows true b K p q)
    (hf : ∀ v, J.Follows w b (fun _ => True) (f v) (f' (J.shift v)))
    (hstuck : ∀ v, J.Stuck (f v)) : J.Follows w b K (p >>= f) (q >>= f') := by
  intro c c' s taken v t hc hs hrun
  obtain ⟨first, a, u, more, hfirst, hmore⟩ := done_of_bind hrun
  obtain ⟨hp, hpEnd⟩ := hp c c' s first a u hc hs hfirst
  obtain ⟨hf, hfEnd⟩ := hf a c c' u more v t hc trivial hmore
  refine ⟨fun s' hs' => ?_, fun h => hfEnd (hpEnd h)⟩
  rcases hp s' hs' with ⟨more', u', hdone, hu'⟩ | ⟨-, hlost⟩
  · exact .then hdone (hf u' hu')
  · exact absurd hmore (hstuck a c u more v t hlost)

/-! ## Parsers that do not begin -/

section
variable {kind : TokenKind}
omit [Renumbers α] [Renumbers β]

/-- Whether a parser never succeeds in front of a kind of token. -/
def Refuses (kind : TokenKind) (p : Parser α) : Prop :=
  ∀ c s taken v t, s.kind = kind → p c s ≠ .done taken v t

theorem Refuses.bind (h : Refuses kind p) : Refuses kind (p >>= f) := by
  intro c s taken v t hs hrun
  obtain ⟨first, a, u, more, hfirst, -⟩ := done_of_bind hrun
  exact h c s first a u hs hfirst

theorem Refuses.checkKeyword {word : Keyword} (hkind : kind.isKeyword word = false)
    {f : Bool → Parser β} (h : Refuses kind (f false)) :
    Refuses kind (Parser.checkKeyword word >>= f) := by
  intro c s taken v t hs hrun
  rw [bind_of_done (checkKeyword_eq _), ParseReply.after_false, hs, hkind] at hrun
  exact h c s taken v t hs hrun

theorem Refuses.current {f : Token → Parser β}
    (h : ∀ token, token.kind = kind → Refuses kind (f token)) :
    Refuses kind (Parser.current >>= f) := by
  intro c s taken v t hs hrun
  obtain ⟨p, rfl, hrun⟩ := done_of_current hrun
  exact h _ hs c s taken v t hs hrun

theorem Refuses.peek {f : TokenKind → Parser β} (h : ∀ behind, Refuses kind (f behind)) :
    Refuses kind (Parser.peek >>= f) := by
  intro c s taken v t hs hrun
  rw [bind_of_done peek_eq, ParseReply.after_false] at hrun
  exact h _ c s taken v t hs hrun

theorem refuses_failFound (code : Code) : Refuses kind (failFound code : Parser β) :=
  fun _ _ _ _ _ _ h => by cases h

theorem Refuses.stuck (h : Refuses (.mark .eof) p) : J.Stuck p :=
  fun c s taken v t hs => h c s taken v t (kind_of_end hs)

end

/-! ## Parsers at the end -/

section
omit [Renumbers α] [Renumbers β] [Renumbers σ]

theorem Stuck.fail {failure : ParseFailure} : J.Stuck (Parser.fail failure : Parser α) :=
  fun _ _ _ _ _ _ h => by cases h

theorem Stuck.check {m : Mark} (hm : m ≠ .newline ∧ m ≠ .eof) {f : Bool → Parser β}
    (h : J.Stuck (f false)) : J.Stuck (Parser.check m >>= f) := by
  intro c s taken v t hs hrun
  have hkind : s.kind.isMark m = false := by
    simp [kind_of_end hs, TokenKind.isMark, TokenKind.mark?, hm.2.symm]
  rw [bind_of_done (check_eq _), ParseReply.after_false, hkind] at hrun
  exact h c s taken v t hs hrun

theorem Stuck.atEnd {f : Bool → Parser β} (h : J.Stuck (f true)) :
    J.Stuck (Parser.isAtEnd >>= f) := by
  intro c s taken v t hs hrun
  have hkind : s.kind.isMark .eof = true := by
    rw [kind_of_end hs]
    rfl
  rw [Parser.isAtEnd, bind_of_done (check_eq _), ParseReply.after_false, hkind] at hrun
  exact h c s taken v t hs hrun

theorem Stuck.current {f : Token → Parser β} (h : J.Stuck (f J.last)) :
    J.Stuck (Parser.current >>= f) := by
  intro c s taken v t hs hrun
  rw [bind_of_done (current_of_ahead hs), ParseReply.after_false] at hrun
  exact h c s taken v t hs hrun

theorem Stuck.currentSpan {f : Span → Parser β} (h : ∀ span, J.Stuck (f span)) :
    J.Stuck (Parser.currentSpan >>= f) := by
  intro c s taken v t hs hrun
  obtain ⟨first, span, u, more, hspan, hmore⟩ := done_of_bind hrun
  cases hspan
  exact h _ c s more v t hs hmore

theorem Stuck.advance {f : Token → Parser β} (h : ∀ token, J.Stuck (f token)) :
    J.Stuck (Parser.advance >>= f) := by
  intro c s taken v t hs hrun
  have hkind : ¬s.kind.Takable := by
    rw [ParseState.kind_of_ahead hs]
    exact J.not_takable_last
  rw [bind_of_done (advance_of_not hkind), ParseReply.after_false] at hrun
  exact h _ c s taken v t hs hrun

theorem Stuck.eat {m : Mark} (hm : m ≠ .newline ∧ m ≠ .eof) {f : Bool → Parser β}
    (h : J.Stuck (f false)) : J.Stuck (Parser.eat m >>= f) := by
  rw [eat_then]
  exact .check hm h

theorem Stuck.repeating {step : σ → Parser (σ ⊕ α)} (h : ∀ v, J.Stuck (step v)) (start : σ) :
    J.Stuck (Parser.repeating step start) := by
  intro c s taken v t hs hrun
  unfold Parser.repeating at hrun
  rw [loop_succ] at hrun
  cases hround : step start c s with
  | failed more e u =>
    rw [hround] at hrun
    cases hrun
  | done more r u => exact h start c s more r u hs hround

theorem Stuck.bind (h : J.Stuck p) : J.Stuck (p >>= f) := by
  intro c s taken v t hs hrun
  obtain ⟨first, a, u, more, hfirst, -⟩ := done_of_bind hrun
  exact h c s first a u hs hfirst

end

omit [Renumbers β] in
theorem Stuck.behind (hp : J.Follows w b (fun _ => True) p q) (hf : ∀ v, J.Stuck (f v)) :
    J.Stuck (p >>= f) := by
  intro c s taken v t hs hrun
  obtain ⟨first, a, u, more, hfirst, hmore⟩ := done_of_bind hrun
  exact hf a c u more v t
    ((hp c c s first a u ⟨rfl, rfl, Nat.le_refl _⟩ trivial hfirst).2 hs) hmore

/-! ## Parsers built from others -/

theorem Follows.map {g : α → β} (hp : J.Follows w b K p q)
    (hg : ∀ v, g (J.shift v) = J.shift (g v)) : J.Follows w b K (g <$> p) (g <$> q) :=
  hp.bind fun v => .pure (hg v)

theorem Follows.fault {d : Diagnostic} : J.Follows w b K (Parser.fail (.fault d)) q :=
  .never fun _ _ _ _ _ _ h => by cases h

theorem Follows.withLoops {change : List (Option Name) → List (Option Name)}
    (hp : J.Follows w b K p q) :
    J.Follows w b K (Parser.withLoops change p) (Parser.withLoops change q) :=
  fun _ _ s taken v t hc =>
    hp _ _ s taken v t ⟨hc.names, congrArg change hc.loops, hc.rounds⟩

theorem Follows.ite {condition : Prop} [Decidable condition] {p' q' : Parser α}
    (hp : J.Follows w b K p q) (hp' : J.Follows w b K p' q') :
    J.Follows w b K (if condition then p else p') (if condition then q else q') := by
  split
  · exact hp
  · exact hp'

/-! ## Repetition -/

theorem Follows.repeating {step step' : σ → Parser (σ ⊕ α)}
    (hstep : ∀ v, J.Follows w b (fun _ => True) (step v) (step' (J.shift v))) (start : σ) :
    J.Follows w b K (Parser.repeating step start) (Parser.repeating step' (J.shift start)) := by
  intro c c' s taken v t hc _ hrun
  suffices h : ∀ steps steps' before start s, steps ≤ steps' →
      Parser.loop step steps before start c s = .done taken v t →
      (∀ s' before', J.Beside b s s' →
        J.Reached w b v t (Parser.loop step' steps' before' (J.shift start) c' s')) ∧
      (s.ahead = [J.last] → t.ahead = [J.last]) by
    obtain ⟨hreached, hend⟩ := h _ _ false start s (Nat.succ_le_succ hc.rounds) hrun
    exact ⟨fun s' => hreached s' false, hend⟩
  clear hrun
  intro steps
  induction steps with
  | zero => exact fun _ _ _ _ _ hrun => by cases hrun
  | succ steps ih =>
    intro steps' before start s hsteps hrun
    obtain ⟨steps', rfl⟩ : ∃ n, steps' = n + 1 := ⟨steps' - 1, by omega⟩
    rw [loop_succ] at hrun
    cases hround : step start c s with
    | failed more e u =>
      rw [hround] at hrun
      cases hrun
    | done more r u =>
      rw [hround] at hrun
      obtain ⟨hreached, hend⟩ := hstep start c c' s more r u hc trivial hround
      cases r with
      | inr result =>
        cases hrun
        refine ⟨fun s' before' hs' => (hreached s' hs').imp_left ?_, hend⟩
        rintro ⟨more', t', hdone, ht'⟩
        exact ⟨_, t', loop_of_inr hdone _ _, ht'⟩
      | inl next =>
        obtain ⟨hrest, hrestEnd⟩ := ih steps' _ next u (Nat.le_of_succ_le_succ hsteps) hrun
        refine ⟨fun s' before' hs' => ?_, fun h => hrestEnd (hend h)⟩
        rcases hreached s' hs' with ⟨more', u', hdone, hu'⟩ | ⟨hw, hlost⟩
        · rw [loop_of_inl hdone]
          exact hrest u' _ hu'
        · exact .inr ⟨hw, hrestEnd hlost⟩

/-! ## Looks -/

theorem Follows.look {look : ParseState → α} (hp : ∀ c s, p c s = .done false (look s) s)
    (hq : ∀ c s, q c s = .done false (look s) s)
    (hlook : ∀ s s', J.Beside b s s' → look s' = J.shift (look s))
    (hf : ∀ v, J.Follows w b (fun s => K s ∧ look s = v) (f v) (f' (J.shift v))) :
    J.Follows w b K (p >>= f) (q >>= f') := by
  intro c c' s taken v t hc hs hrun
  rw [bind_of_done (hp c s), ParseReply.after_false] at hrun
  obtain ⟨hreached, hend⟩ := hf (look s) c c' s taken v t hc ⟨hs, rfl⟩ hrun
  refine ⟨fun s' hs' => .then (hq c' s') ?_, hend⟩
  rw [hlook s s' hs']
  exact hreached s' hs'

theorem Follows.check {m : Mark} (hm : m ≠ .newline ∧ m ≠ .eof) {f f' : Bool → Parser β}
    (hf : ∀ found, J.Follows w b (fun s => K s ∧ s.kind.isMark m = found) (f found) (f' found)) :
    J.Follows w b K (check m >>= f) (check m >>= f') :=
  .look (fun _ _ => check_eq m) (fun _ _ => check_eq m) (fun _ _ h => h.isMark hm) hf

theorem Follows.checkKeyword {word : Keyword} {f f' : Bool → Parser β}
    (hf : ∀ found, J.Follows w b (fun s => K s ∧ s.kind.isKeyword word = found)
      (f found) (f' found)) :
    J.Follows w b K (checkKeyword word >>= f) (checkKeyword word >>= f') :=
  .look (fun _ _ => checkKeyword_eq word) (fun _ _ => checkKeyword_eq word)
    (fun _ _ h => h.isKeyword word) hf

theorem Follows.context {f f' : ParseContext → Parser β}
    (hf : ∀ c c', c.Within c' → J.Follows w b K (f c) (f' c')) :
    J.Follows w b K (Parser.context >>= f) (Parser.context >>= f') := by
  intro c c' s taken v t hc hs hrun
  have hcontext : ∀ c s, Parser.context c s = .done false c s := fun _ _ => rfl
  rw [bind_of_done (hcontext c s), ParseReply.after_false] at hrun
  obtain ⟨hreached, hend⟩ := hf c c' hc c c' s taken v t hc hs hrun
  exact ⟨fun s' hs' => .then (hcontext c' s') (hreached s' hs'), hend⟩

/-- The token ahead is the same one, unless the first list is at its end. -/
theorem Follows.current {f f' : Token → Parser β}
    (hsame : ∀ token, token.kind.Takable →
      J.Follows w b (fun s => K s ∧ s.kind = token.kind) (f token) (f' token))
    (hend : ∀ token, token.kind.Breaks →
      J.Follows w b (fun s => K s ∧ s.ahead = [J.last]) (f J.last) (f' token)) :
    J.Follows w b K (Parser.current >>= f) (Parser.current >>= f') := by
  intro c c' s taken v t hc hs hrun
  constructor
  · intro s' hs'
    rcases hs'.cases with ⟨token, rest, rest', htoken, hahead, hahead', -⟩ |
      ⟨token, rest, hahead, hahead', hbreaks⟩
    · rw [bind_of_done (current_of_ahead hahead), ParseReply.after_false] at hrun
      have hkind : s.kind = token.kind := ParseState.kind_of_ahead hahead
      exact .then (current_of_ahead hahead')
        ((hsame token htoken c c' s taken v t hc ⟨hs, hkind⟩ hrun).1 s' hs')
    · rw [bind_of_done (current_of_ahead hahead), ParseReply.after_false] at hrun
      exact .then (current_of_ahead hahead')
        ((hend token hbreaks c c' s taken v t hc ⟨hs, hahead⟩ hrun).1 s' hs')
  · intro hahead
    obtain ⟨token, -, -, hbreaks⟩ := J.breaks
    rw [bind_of_done (current_of_ahead hahead), ParseReply.after_false] at hrun
    exact (hend token hbreaks c c' s taken v t hc ⟨hs, hahead⟩ hrun).2 hahead

theorem Follows.currentSpan {f f' : Span → Parser β}
    (hf : ∀ span, J.Follows w b K (f span) (f' span)) (hstuck : ∀ span, J.Stuck (f span)) :
    J.Follows w b K (Parser.currentSpan >>= f) (Parser.currentSpan >>= f') := by
  intro c c' s taken v t hc hs hrun
  have hspan : ∀ {c s token rest}, s.ahead = token :: rest →
      Parser.currentSpan c s = .done false token.span s := by
    intro c s token rest hahead
    unfold Parser.currentSpan
    rw [bind_of_done (current_of_ahead hahead)]
    rfl
  constructor
  · intro s' hs'
    rcases hs'.cases with ⟨token, rest, rest', -, hahead, hahead', -⟩ | ⟨-, -, hahead, -⟩
    · rw [bind_of_done (hspan hahead), ParseReply.after_false] at hrun
      exact .then (hspan hahead') ((hf token.span c c' s taken v t hc hs hrun).1 s' hs')
    · rw [bind_of_done (hspan hahead), ParseReply.after_false] at hrun
      exact absurd hrun (hstuck _ c s taken v t hahead)
  · intro hahead
    rw [bind_of_done (hspan hahead), ParseReply.after_false] at hrun
    exact absurd hrun (hstuck _ c s taken v t hahead)

/-- The token behind one that is not the end of the input is the same one, or there is none for the
first parser and a break for the other one. -/
theorem Beside.second (h : J.Beside b s s') (hkind : s.kind.Takable) :
    firstKind s'.ahead.tail = firstKind s.ahead.tail ∨
      firstKind s.ahead.tail = .mark .eof ∧ (firstKind s'.ahead.tail).Breaks := by
  rcases h.cases with ⟨token, rest, rest', -, hs, hs', hpast⟩ | ⟨-, -, hs, -⟩
  · rw [hs, hs', List.tail_cons, List.tail_cons]
    rcases hpast.cases with ⟨behind, more, more', -, hrest, hrest', -⟩ |
      ⟨behind, more, hrest, hrest', hbreaks⟩ <;>
      rw [ParseState.past_ahead] at hrest hrest' <;> rw [hrest, hrest']
    · exact .inl rfl
    · exact .inr ⟨J.ends, hbreaks⟩
  · rw [kind_of_end hs] at hkind
    cases hkind

theorem Follows.peek {f f' : TokenKind → Parser β} (hK : ∀ s, K s → s.kind.Takable)
    (hsame : ∀ kind, J.Follows w b (fun s => K s ∧ firstKind s.ahead.tail = kind) (f kind) (f' kind))
    (hend : ∀ kind, kind.Breaks → J.Follows w b K (f (.mark .eof)) (f' kind)) :
    J.Follows w b K (Parser.peek >>= f) (Parser.peek >>= f') := by
  intro c c' s taken v t hc hs hrun
  rw [bind_of_done peek_eq, ParseReply.after_false] at hrun
  have hfirst := hsame (firstKind s.ahead.tail) c c' s taken v t hc ⟨hs, rfl⟩ hrun
  refine ⟨fun s' hs' => .then peek_eq ?_, hfirst.2⟩
  rcases hs'.second (hK s hs) with hsecond | ⟨hlast, hbreaks⟩
  · rw [hsecond]
    exact hfirst.1 s' hs'
  · rw [hlast] at hrun
    exact (hend _ hbreaks c c' s taken v t hc hs hrun).1 s' hs'

/-- Where the token behind the current one does not matter. -/
theorem Follows.peekAny {f f' : TokenKind → Parser β}
    (hf : ∀ kind kind', J.Follows w b K (f kind) (f' kind')) :
    J.Follows w b K (Parser.peek >>= f) (Parser.peek >>= f') := by
  intro c c' s taken v t hc hs hrun
  rw [bind_of_done peek_eq, ParseReply.after_false] at hrun
  have hfirst := fun kind' => hf _ kind' c c' s taken v t hc hs hrun
  exact ⟨fun s' hs' => .then peek_eq ((hfirst _).1 s' hs'), (hfirst (.mark .eof)).2⟩

/-- Behind the line breaks ahead the token is the same one, or it begins no further branch. -/
theorem Follows.pastNewlines {f f' : TokenKind → Parser β}
    (hsame : ∀ kind, J.Follows w b K (f kind) (f' kind))
    (hend : ∀ kind, kind ≠ .keyword .elifWord ∧ kind ≠ .keyword .elseWord →
      J.Follows w b K (f (.mark .eof)) (f' kind)) :
    J.Follows w b K (Parser.pastNewlines >>= f) (Parser.pastNewlines >>= f') := by
  intro c c' s taken v t hc hs hrun
  rw [bind_of_done pastNewlines_eq, ParseReply.after_false] at hrun
  have hfirst := hsame (s.behindNewlines.headD eofToken).kind c c' s taken v t hc hs hrun
  refine ⟨fun s' hs' => .then pastNewlines_eq ?_, hfirst.2⟩
  obtain ⟨tokens, hahead, hahead', -⟩ := hs'.ahead
  cases hrest : tokens.dropWhile (·.kind.isMark .newline) with
  | cons token rest =>
    have hbehind : s.behindNewlines.headD eofToken = token := by
      rw [ParseState.behindNewlines, hahead, List.dropWhile_append, hrest]
      rfl
    have hbehind' : s'.behindNewlines.headD eofToken = token := by
      rw [ParseState.behindNewlines, hahead', List.dropWhile_append, hrest]
      rfl
    rw [hbehind']
    rw [hbehind] at hfirst
    exact hfirst.1 s' hs'
  | nil =>
    have hbehind : (s.behindNewlines.headD eofToken).kind = .mark .eof := by
      rw [ParseState.behindNewlines, hahead, List.dropWhile_append, hrest]
      simp [J.ends, TokenKind.isMark, TokenKind.mark?]
    have hbehind' : s'.behindNewlines = J.more.dropWhile (·.kind.isMark .newline) := by
      rw [ParseState.behindNewlines, hahead', List.dropWhile_append, hrest]
      rfl
    rw [hbehind] at hrun
    rw [hbehind']
    exact (hend _ (J.noBranch _ rfl) c c' s taken v t hc hs hrun).1 s' hs'

theorem Follows.atEnd {f f' : Bool → Parser β}
    (htrue : ∀ c s taken v t, f true c s = .done taken v t → t.ahead = s.ahead)
    (hf : ∀ ended, J.Follows true b K (f ended) (f' ended)) :
    J.Follows true b K (isAtEnd >>= f) (isAtEnd >>= f') := by
  intro c c' s taken v t hc hs hrun
  rw [isAtEnd, bind_of_done (check_eq _), ParseReply.after_false] at hrun
  have hfirst := hf (s.kind.isMark .eof) c c' s taken v t hc hs hrun
  refine ⟨fun s' hs' => ?_, hfirst.2⟩
  rcases hs'.kind with ⟨hsame, -⟩ | ⟨hlast, -⟩
  · refine .then (check_eq _) ?_
    rw [hsame]
    exact hfirst.1 s' hs'
  · have hkind : s.kind.isMark .eof = true := by
      rw [kind_of_end hlast]
      rfl
    rw [hkind] at hrun
    exact .inr ⟨rfl, (htrue _ _ _ _ _ hrun).trans hlast⟩

theorem follows_atBoundary : J.Follows w b K atBoundary atBoundary := by
  refine .current (fun token _ => ?_) (fun token hbreaks => ?_)
  · split <;> exact .pure rfl
  · rcases hbreaks with hkind | hkind <;> rw [hkind, J.ends] <;> exact .pure rfl

theorem follows_textOf (name : Name) : J.Follows w b K (textOf name) (textOf name) := by
  refine Follows.context fun c c' hc => .pure ?_
  rw [hc.names]
  rfl

theorem follows_failFound {q : Parser α} (code : Code) :
    J.Follows w b K (failFound code) q :=
  .never fun _ _ _ _ _ _ h => by cases h

theorem follows_failExpected {q : Parser α} (what : String) :
    J.Follows w b K (failExpected what) q :=
  .never fun _ _ _ _ _ _ h => by cases h

/-! ## Tokens -/

theorem Follows.advance {f f' : Token → Parser β} (hK : ∀ s, K s → s.kind.Takable)
    (hf : ∀ token, J.Follows w true (fun t => ∃ s, K s ∧ s.ahead = token :: t.ahead)
      (f token) (f' token)) :
    J.Follows w b K (Parser.advance >>= f) (Parser.advance >>= f') := by
  intro c c' s taken v t hc hs hrun
  have hkind := hK s hs
  obtain ⟨token, rest, hahead⟩ : ∃ token rest, s.ahead = token :: rest := by
    cases hahead : s.ahead with
    | nil =>
      rw [ParseState.kind, hahead] at hkind
      cases hkind
    | cons token rest => exact ⟨token, rest, rfl⟩
  rw [ParseState.kind_of_ahead hahead] at hkind
  obtain ⟨first, a, u, more, hfirst, hmore⟩ := done_of_bind hrun
  rw [advance_of_ahead hahead hkind] at hfirst
  cases hfirst
  obtain ⟨hreached, hend⟩ := hf token c c' (s.past token rest) more v t hc ⟨s, hs, hahead⟩ hmore
  refine ⟨fun s' hs' => ?_, fun hlast => ?_⟩
  · rcases hs'.cases with ⟨other, rest₁, rest', -, hahead₁, hahead', hpast⟩ | ⟨-, -, hlast, -⟩
    · obtain ⟨rfl, rfl⟩ := List.cons_eq_cons.mp (hahead.symm.trans hahead₁)
      exact .then (advance_of_ahead hahead' hkind) ((hreached _ hpast).mono b)
    · rw [hahead] at hlast
      cases hlast
      exact absurd hkind J.not_takable_last
  · rw [hahead] at hlast
    cases hlast
    exact absurd hkind J.not_takable_last

theorem Follows.advanceTwice {f f' : Token → Token → Parser β}
    (hK : ∀ s, K s → s.kind.Takable ∧ (firstKind s.ahead.tail).Takable)
    (hf : ∀ first second, J.Follows w true (fun _ => True) (f first second) (f' first second)) :
    J.Follows w b K
      (do
        let first ← Parser.advance
        let second ← Parser.advance
        f first second)
      (do
        let first ← Parser.advance
        let second ← Parser.advance
        f' first second) := by
  refine .advance (fun s hs => (hK s hs).1) fun first => .advance ?_ fun second => ?_
  · rintro t ⟨s, hs, hahead⟩
    have hsecond := (hK s hs).2
    rwa [hahead] at hsecond
  · exact (hf first second).anywhere

/-- What does not succeed at the end of the input is behind another token. -/
theorem Follows.taking {f f' : Token → Parser β}
    (hf : ∀ token, J.Follows w true (fun _ => True) (f token) (f' token))
    (hstuck : ∀ token, J.Stuck (f token)) :
    J.Follows w b K (Parser.advance >>= f) (Parser.advance >>= f') := by
  intro c c' s taken v t hc hs hrun
  have hopen : ∀ h : s.ahead = [J.last], False := fun h =>
    Stuck.advance hstuck c s taken v t h hrun
  refine ⟨fun s' hs' => ?_, fun h => (hopen h).elim⟩
  have hkind := (hs'.kind.resolve_right fun h => hopen h.1).2
  have hnext := Follows.advance (w := w) (b := b) (fun _ h => h) (fun token => (hf token).anywhere)
    c c' s taken v t hc hkind hrun
  exact hnext.1 s' hs'

theorem Follows.eat {m : Mark} (hm : m ≠ .newline ∧ m ≠ .eof) {f f' : Bool → Parser β}
    (htrue : J.Follows w true (fun _ => True) (f true) (f' true))
    (hfalse : J.Follows w b (fun s => K s ∧ s.kind.isMark m = false) (f false) (f' false)) :
    J.Follows w b K (Parser.eat m >>= f) (Parser.eat m >>= f') := by
  rw [eat_then, eat_then]
  refine .check hm fun found => ?_
  cases found with
  | false => exact hfalse
  | true => exact .advance (fun s hs => .of_isMark hs.2 hm.2) fun _ => htrue.anywhere

theorem Follows.eatKeyword {word : Keyword} {f f' : Bool → Parser β}
    (htrue : J.Follows w true (fun _ => True) (f true) (f' true))
    (hfalse : J.Follows w b (fun s => K s ∧ s.kind.isKeyword word = false) (f false) (f' false)) :
    J.Follows w b K (Parser.eatKeyword word >>= f) (Parser.eatKeyword word >>= f') := by
  rw [eatKeyword_then, eatKeyword_then]
  refine .checkKeyword fun found => ?_
  cases found with
  | false => exact hfalse
  | true => exact .advance (fun s hs => .of_isKeyword hs.2) fun _ => htrue.anywhere

theorem follows_eatNewline : J.Follows true b K (Parser.eat .newline) (Parser.eat .newline) := by
  intro c c' s taken v t _ _ hrun
  have hend : s.ahead = [J.last] → t.ahead = [J.last] := by
    intro hlast
    rw [eat_of_not (by rw [kind_of_end hlast]; rfl)] at hrun
    cases hrun
    exact hlast
  refine ⟨fun s' hs' => ?_, hend⟩
  rcases hs'.cases with ⟨token, rest, rest', -, hahead, hahead', hpast⟩ | ⟨-, -, hlast, -⟩
  · left
    by_cases hkind : token.kind.isMark .newline = true
    · rw [eat_of_ahead hahead hkind (by simp)] at hrun
      cases hrun
      exact ⟨_, _, eat_of_ahead hahead' hkind (by simp), hpast.mono b⟩
    · rw [Bool.not_eq_true, ← ParseState.kind_of_ahead hahead] at hkind
      rw [eat_of_not hkind] at hrun
      cases hrun
      rw [ParseState.kind_of_ahead hahead, ← ParseState.kind_of_ahead hahead'] at hkind
      exact ⟨_, _, eat_of_not hkind, hs'⟩
  · exact .inr ⟨rfl, hend hlast⟩

theorem follows_skipNewlines : J.Follows true b K skipNewlines skipNewlines := by
  refine .repeating (fun _ => follows_eatNewline.bind fun found => ?_) ()
  cases found <;> exact .pure rfl

theorem follows_identifier (code : Code) :
    J.Follows w b K (identifier code) (identifier code) := by
  refine .current (fun token _ => ?_) (fun token _ => ?_)
  · split
    next name hkind =>
      exact .advance (fun s hs => by rw [hs.2, hkind]; rfl) fun _ => .pure rfl
    next => exact follows_failFound code
  · rw [J.ends]
    exact follows_failFound code

omit [Renumbers β] in
theorem stuck_failFound (code : Code) : J.Stuck (failFound code : Parser β) :=
  fun _ _ _ _ _ _ h => by cases h

omit [Renumbers β] in
theorem stuck_failExpected (what : String) : J.Stuck (failExpected what : Parser β) :=
  fun _ _ _ _ _ _ h => by cases h

theorem stuck_identifier (code : Code) : J.Stuck (identifier code) := by
  refine .current ?_
  rw [J.ends]
  exact stuck_failFound code

theorem stuck_expectCloser (bracket : Bracket) (opened : Span) (stopped : Option Diagnostic) :
    J.Stuck (expectCloser bracket opened stopped) :=
  .behind (follows_skipNewlines (b := false)) fun _ => .check (by simp) (.atEnd .fail)

theorem previous_of_expectCloser {bracket : Bracket} {opened closed : Span}
    {stopped : Option Diagnostic} {taken : Bool}
    (h : expectCloser bracket opened stopped c s = .done taken closed t) :
    t.previous = some closed := by
  obtain ⟨_, _, u, _, -, h⟩ := done_of_bind h
  rw [bind_of_done (check_eq _), ParseReply.after_false] at h
  cases hkind : u.kind.isMark (.closing bracket) with
  | true =>
    obtain ⟨token, rest, hahead⟩ := u.ahead_of_isMark hkind (by simp)
    rw [ParseState.kind_of_ahead hahead] at hkind
    rw [ParseState.kind_of_ahead hahead, hkind, if_pos rfl,
      bind_of_done (advance_of_ahead hahead (.of_isMark hkind (by simp)))] at h
    cases h
    rfl
  | false =>
    rw [hkind, if_neg Bool.false_ne_true] at h
    obtain ⟨_, ended, _, _, -, h⟩ := done_of_bind h
    cases ended <;> cases stopped <;> cases h

theorem follows_expectCloser (bracket : Bracket) (opened : Span) :
    J.Follows w b K (expectCloser bracket opened none) (expectCloser bracket opened none) := by
  refine follows_skipNewlines.closing (fun _ => ?_) fun _ => .check (by simp) (.atEnd .fail)
  refine .check (by simp) fun found => ?_
  cases found with
  | true => exact .advance (fun s hs => .of_isMark hs.2 (by simp)) fun _ => .pure rfl
  | false =>
    refine .never fun c s taken v t _ hrun => ?_
    obtain ⟨first, ended, u, more, -, hmore⟩ := done_of_bind hrun
    cases ended <;> cases hmore

/-! ## Spans and nodes -/

theorem Follows.looked {look look' : ParseState → α} (hp : ∀ c s, p c s = .done false (look s) s)
    (hq : ∀ c s, q c s = .done false (look' s) s)
    (hlook : ∀ s s', J.Beside b s s' → look' s' = J.shift (look s)) : J.Follows w b K p q := by
  intro c c' s taken v t _ _ hrun
  rw [hp] at hrun
  cases hrun
  exact ⟨fun s' hs' => .inl ⟨false, s', by rw [hq, hlook s s' hs'], hs'⟩, id⟩

theorem follows_previousSpan : J.Follows w true K previousSpan previousSpan :=
  .looked (fun _ _ => rfl) (fun _ _ => rfl) fun s s' h => by
    obtain ⟨span, hs, hs'⟩ := h.previous rfl
    rw [hs, hs']
    rfl

theorem follows_spanFrom (start : Span) : J.Follows w true K (spanFrom start) (spanFrom start) :=
  follows_previousSpan.bind fun _ => .pure rfl

theorem follows_spanOf (id : NodeId) : J.Follows w b K (spanOf id) (spanOf (J.shift id)) :=
  .looked (fun _ _ => rfl) (fun _ _ => rfl) fun s s' h => by
    have hnode := J.base.node?_append s.arena id
    rw [h.arena]
    unfold Arena.spanOf shift
    rw [hnode]
    cases s.arena.node? id <;> rfl

theorem follows_isBoolCast (id : NodeId) :
    J.Follows w b K (isBoolCast id) (isBoolCast (J.shift id)) :=
  .looked (fun _ _ => rfl) (fun _ _ => rfl) fun s s' h => by
    have hnode := J.base.node?_append s.arena id
    rw [h.arena]
    unfold shift
    rw [hnode]
    cases s.arena.node? id with
    | none => rfl
    | some node =>
      obtain ⟨expr, span⟩ := node
      cases expr with
      | cast operand type => cases type <;> rfl
      | _ => rfl

theorem follows_warn (code : Code) (span : Span) (args : List String) :
    J.Follows w b K (warn code span args) (warn code span args) := by
  intro c c' s taken v t _ _ hrun
  cases hrun
  refine ⟨fun s' hs' => .inl ⟨_, _, rfl, { hs' with warnings := ?_ }⟩, id⟩
  dsimp only
  rw [hs'.warnings, Array.append_push]

theorem follows_node {expr expr' : Expr} (h : expr' = J.shift expr) (span : Span) :
    J.Follows w b K (node expr span) (node expr' span) := by
  intro c c' s taken v t _ _ hrun
  cases hrun
  have hpush := J.base.append_push s.arena expr span
  refine ⟨fun s' hs' => .inl ⟨false, { s' with arena := (s'.arena.push ⟨expr', span⟩).2 }, ?_,
    { hs' with arena := ?_ }⟩, id⟩
  · unfold node shift
    rw [hs'.arena, h]
    unfold shift
    rw [hpush]
    rfl
  · rw [hs'.arena, h]
    unfold shift
    rw [hpush]
    rfl

theorem follows_store {table : Arena → Array α} {put : Arena → Array α → Arena}
    [Renumbers (Run α)] (items : List α)
    (htable : ∀ a, table (J.base.append a) = table J.base ++ (table a).map J.shift)
    (hput : ∀ a (items : Array α), put (J.base.append a) (table J.base ++ items.map J.shift) =
      J.base.append (put a items))
    (hrun : ∀ start length, J.shift (Run.mk start length : Run α) =
      ⟨(table J.base).size + start, length⟩) :
    J.Follows w b K (store table put items) (store table put (J.shift items)) := by
  intro c c' s taken v t _ _ hstore
  unfold store at hstore
  split at hstore
  · rename_i hfits
    cases hstore
    have hlength : (J.shift items).length = items.length := List.length_map ..
    have hentries : ∀ a, table (J.base.append a) ++ (J.shift items).toArray =
        table J.base ++ (table a ++ items.toArray).map J.shift := by
      intro a
      have hitems : (J.shift items).toArray = items.toArray.map J.shift :=
        (List.map_toArray ..).symm
      rw [htable, hitems, Array.map_append, Array.append_assoc]
    refine ⟨fun s' hs' => .inl ⟨false,
      { s' with arena := put s'.arena (table s'.arena ++ (J.shift items).toArray) }, ?_,
      { hs' with arena := ?_ }⟩, id⟩
    · unfold store appendRun
      rw [if_pos (hlength.trans_le hfits), hrun, hs'.arena, hlength, htable]
      simp
    · rw [hs'.arena, hentries, hput]
  · cases hstore

theorem follows_storeList (items : List NodeId) :
    J.Follows w b K (storeList items) (storeList (J.shift items)) :=
  follows_store items (fun _ => rfl) (fun _ _ => rfl) fun _ _ => rfl

theorem follows_storeSpecs (items : List IndexSpec) :
    J.Follows w b K (storeSpecs items) (storeSpecs (J.shift items)) :=
  follows_store items (fun _ => rfl) (fun _ _ => rfl) fun _ _ => rfl

theorem follows_storeBranches (items : List Branch) :
    J.Follows w b K (storeBranches items) (storeBranches (J.shift items)) :=
  follows_store items (fun _ => rfl) (fun _ _ => rfl) fun _ _ => rfl

theorem follows_storeArms (items : List CaseArm) :
    J.Follows w b K (storeArms items) (storeArms (J.shift items)) :=
  follows_store items (fun _ => rfl) (fun _ _ => rfl) fun _ _ => rfl

theorem follows_storeParams (items : List Parameter) :
    J.Follows w b K (storeParams items) (storeParams (J.shift items)) :=
  follows_store items (fun _ => rfl) (fun _ _ => rfl) fun _ _ => rfl

theorem follows_storeArgs (items : List Argument) :
    J.Follows w b K (storeArgs items) (storeArgs (J.shift items)) :=
  follows_store items (fun _ => rfl) (fun _ _ => rfl) fun _ _ => rfl

end Seam
end ExprScript
