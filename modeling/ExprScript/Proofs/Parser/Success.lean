import ExprScript.Proofs.Parser.Running
import ExprScript.Proofs.Tree.Growth

/-!
# Parsers that succeed

`Succeeds` says that a parser gives a value with a property, leaves certain tokens ahead and warns
of nothing. What is known of earlier values is kept, since arenas only grow.
-/
namespace ExprScript.Parser

variable {α β σ : Type}

/-- From a state the parser gives a value with a property, with the rest of the tokens ahead and
no warning more. -/
def Succeeds (p : Parser α) (c : ParseContext) (s : ParseState) (rest : List Token)
    (G : Arena → α → Prop) : Prop :=
  ∃ taken v t, p c s = .done taken v t ∧ (t.ahead = rest ∧ t.warnings = s.warnings) ∧
    s.arena ≤ t.arena ∧ G t.arena v

variable {p : Parser α} {f : α → Parser β} {c : ParseContext} {s : ParseState} {token : Token}
  {more mid rest : List Token} {G : Arena → α → Prop} {H : Arena → β → Prop}

/-! ## One after another -/

theorem Succeeds.pure {v : α} (h : G s.arena v) (hrest : s.ahead = rest) :
    Succeeds (Pure.pure v) c s rest G :=
  ⟨false, v, s, rfl, ⟨hrest, rfl⟩, le_refl _, h⟩

theorem Succeeds.bind (hp : Succeeds p c s mid G)
    (hf : ∀ v t, t.ahead = mid → s.arena ≤ t.arena → G t.arena v → Succeeds (f v) c t rest H) :
    Succeeds (p >>= f) c s rest H := by
  obtain ⟨taken, v, t, hrun, ⟨hahead, hquiet⟩, hst, hv⟩ := hp
  obtain ⟨next, w, u, hnext, ⟨hrest, hsilent⟩, htu, hw⟩ := hf v t hahead hst hv
  refine ⟨taken || next, w, u, ?_, ⟨hrest, hsilent.trans hquiet⟩, hst.trans htu, hw⟩
  rw [bind_of_done hrun, hnext]
  rfl

theorem Succeeds.mono {G' : Arena → α → Prop} (h : Succeeds p c s rest G)
    (hG : ∀ b v, G b v → G' b v) : Succeeds p c s rest G' := by
  obtain ⟨taken, v, t, hrun, hahead, hst, hv⟩ := h
  exact ⟨taken, v, t, hrun, hahead, hst, hG _ _ hv⟩

theorem Succeeds.map {g : α → β} (hp : Succeeds p c s rest fun b v => H b (g v)) :
    Succeeds (g <$> p) c s rest H :=
  Succeeds.bind (f := fun v => Pure.pure (g v)) hp fun _ _ hahead _ hv => .pure hv hahead

theorem Succeeds.wrapped (wrap : α → β) (hp : Succeeds p c s rest G) :
    Succeeds (wrap <$> p) c s rest fun b w => ∃ v, w = wrap v ∧ G b v :=
  .map (hp.mono fun _ v h => ⟨v, rfl, h⟩)

theorem Succeeds.look {v : α} (hp : p c s = .done false v s) (hf : Succeeds (f v) c s rest H) :
    Succeeds (p >>= f) c s rest H := by
  obtain ⟨taken, w, t, hrun, hrest, hst, hw⟩ := hf
  refine ⟨taken, w, t, ?_, hrest, hst, hw⟩
  rw [bind_of_done hp, hrun]
  rfl

theorem Succeeds.current {f : Token → Parser β} (h : s.ahead = token :: more)
    (hf : Succeeds (f token) c s rest H) : Succeeds (Parser.current >>= f) c s rest H :=
  .look (current_of_ahead h) hf

theorem Succeeds.advance {f : Token → Parser β} (h : s.ahead = token :: more)
    (hkind : token.kind.Takable)
    (hf : ∀ t, t.ahead = more → s.arena ≤ t.arena → Succeeds (f token) c t rest H) :
    Succeeds (Parser.advance >>= f) c s rest H := by
  have hp : Succeeds Parser.advance c s more fun _ v => v = token :=
    ⟨true, token, _, advance_of_ahead h hkind, ⟨rfl, rfl⟩, le_refl _, rfl⟩
  exact hp.bind fun v t hahead hst hv => hv ▸ hf t hahead hst

theorem Succeeds.eat {f : Bool → Parser β} {mark : Mark} (h : s.ahead = token :: more)
    (hkind : token.kind = .mark mark) (hmark : mark ≠ .eof)
    (hf : ∀ t, t.ahead = more → s.arena ≤ t.arena → Succeeds (f true) c t rest H) :
    Succeeds (Parser.eat mark >>= f) c s rest H := by
  have hfound : token.kind.isMark mark = true := by simp [hkind, TokenKind.isMark, TokenKind.mark?]
  have hp : Succeeds (Parser.eat mark) c s more fun _ v => v = true :=
    ⟨true, true, _, eat_of_ahead h hfound hmark, ⟨rfl, rfl⟩, le_refl _, rfl⟩
  exact hp.bind fun v t hahead hst hv => hv ▸ hf t hahead hst

theorem Succeeds.eatNot {f : Bool → Parser β} {mark : Mark} (h : s.kind.isMark mark = false)
    (hf : Succeeds (f false) c s rest H) : Succeeds (Parser.eat mark >>= f) c s rest H :=
  .look (eat_of_not h) hf

theorem Succeeds.eatKeyword {f : Bool → Parser β} {word : Keyword} (h : s.ahead = token :: more)
    (hkind : token.kind = .keyword word)
    (hf : ∀ t, t.ahead = more → s.arena ≤ t.arena → Succeeds (f true) c t rest H) :
    Succeeds (Parser.eatKeyword word >>= f) c s rest H := by
  have hfound : token.kind.isKeyword word = true := by simp [hkind, TokenKind.isKeyword]
  have hp : Succeeds (Parser.eatKeyword word) c s more fun _ v => v = true :=
    ⟨true, true, _, eatKeyword_of_ahead h hfound, ⟨rfl, rfl⟩, le_refl _, rfl⟩
  exact hp.bind fun v t hahead hst hv => hv ▸ hf t hahead hst

theorem Succeeds.eatKeywordNot {f : Bool → Parser β} {word : Keyword}
    (h : s.kind.isKeyword word = false) (hf : Succeeds (f false) c s rest H) :
    Succeeds (Parser.eatKeyword word >>= f) c s rest H :=
  .look (eatKeyword_of_not h) hf

theorem Succeeds.check {f : Bool → Parser β} (mark : Mark)
    (hf : Succeeds (f (s.kind.isMark mark)) c s rest H) :
    Succeeds (Parser.check mark >>= f) c s rest H :=
  .look (check_eq mark) hf

theorem Succeeds.skipNewlines {f : Unit → Parser β} (h : s.kind.isMark .newline = false)
    (hf : Succeeds (f ()) c s rest H) : Succeeds (Parser.skipNewlines >>= f) c s rest H :=
  .look (skipNewlines_of_not h) hf

/-! ## Spans and nodes -/

theorem Succeeds.spanOf {f : Span → Parser β} (id : NodeId)
    (hf : ∀ span, Succeeds (f span) c s rest H) : Succeeds (Parser.spanOf id >>= f) c s rest H :=
  .look rfl (hf _)

theorem Succeeds.spanFrom {f : Span → Parser β} (start : Span)
    (hf : ∀ span, Succeeds (f span) c s rest H) :
    Succeeds (Parser.spanFrom start >>= f) c s rest H :=
  .look rfl (hf _)

theorem Succeeds.currentSpan {f : Span → Parser β} (hf : ∀ span, Succeeds (f span) c s rest H) :
    Succeeds (Parser.currentSpan >>= f) c s rest H :=
  .look rfl (hf _)

theorem succeeds_node (expr : Expr) (span : Span) :
    Succeeds (node expr span) c s s.ahead fun b id => b.node? id = some ⟨expr, span⟩ :=
  ⟨false, _, _, rfl, ⟨rfl, rfl⟩, s.arena.le_push _, s.arena.node?_push _⟩

theorem Succeeds.store {table : Arena → Array α} {put : Arena → Array α → Arena} {items : List α}
    {f : Run α → Parser β} (hlength : items.length ≤ maxRunLength)
    (hput : ∀ b, b ≤ put b (table b ++ items.toArray) ∧
      table (put b (table b ++ items.toArray)) = table b ++ items.toArray)
    (hf : ∀ run t, t.ahead = s.ahead → s.arena ≤ t.arena →
      run.entries? (table t.arena) = some items →
      Succeeds (f run) c t rest H) :
    Succeeds (Parser.store table put items >>= f) c s rest H := by
  obtain ⟨hgrows, htable⟩ := hput s.arena
  have hp : Succeeds (Parser.store table put items) c s s.ahead
      fun b run => run.entries? (table b) = some items := by
    refine ⟨false, (appendRun (table s.arena) items).1,
      { s with arena := put s.arena (table s.arena ++ items.toArray) }, ?_, ⟨rfl, rfl⟩, hgrows, ?_⟩
    · simp [Parser.store, hlength, appendRun]
    · dsimp only
      rw [htable]
      exact entries?_appendRun ..
  exact hp.bind hf

/-! ## Repetition -/

theorem Succeeds.again {step : σ → Parser (σ ⊕ α)} {v : σ} {steps : Nat} {before : Bool}
    {I : Arena → σ → Prop}
    (hround : Succeeds (step v) c s mid fun b r => ∃ w, r = .inl w ∧ I b w)
    (hnext : ∀ w t after, t.ahead = mid → s.arena ≤ t.arena → I t.arena w →
      Succeeds (loop step steps after w) c t rest G) :
    Succeeds (loop step (steps + 1) before v) c s rest G := by
  obtain ⟨taken, r, t, hrun, ⟨hahead, hquiet⟩, hst, w, rfl, hw⟩ := hround
  obtain ⟨last, x, u, hloop, ⟨hrest, hsilent⟩, htu, hx⟩ :=
    hnext w t (before || taken) hahead hst hw
  refine ⟨last, x, u, ?_, ⟨hrest, hsilent.trans hquiet⟩, hst.trans htu, hx⟩
  rw [loop_of_inl hrun, hloop]

theorem Succeeds.stop {step : σ → Parser (σ ⊕ α)} {v : σ} {steps : Nat} {before : Bool}
    (hround : Succeeds (step v) c s rest fun b r => ∃ w, r = .inr w ∧ G b w) :
    Succeeds (loop step (steps + 1) before v) c s rest G := by
  obtain ⟨taken, r, t, hrun, hahead, hst, w, rfl, hw⟩ := hround
  exact ⟨before || taken, w, t, loop_of_inr hrun steps before, hahead, hst, hw⟩

/-- There are more rounds than tokens. -/
theorem Succeeds.repeating {step : σ → Parser (σ ⊕ α)} {v : σ}
    (h : Succeeds (loop step (c.rounds + 1) false v) c s rest G) :
    Succeeds (Parser.repeating step v) c s rest G := h

end ExprScript.Parser
