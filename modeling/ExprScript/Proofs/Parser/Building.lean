import ExprScript.Proofs.Parser.Measured
import ExprScript.Proofs.Tree.Signals
import Mathlib.Order.RelClasses

/-!
# What parsers build

`Ends` says how a parser leaves the arena and what its result is like there. A parser that `Builds`
only adds to the arena. Results are followed through later steps by lower bounds: what holds in an
arena holds in every larger one. `Quiet` parsers add nothing.
-/
namespace ExprScript.Parser

variable {α β σ : Type}

/-! ## How parsers end -/

/-- The arena that is left is in a relation to the one before, and a result has a property there. -/
def Ends (K : Arena → Arena → Prop) (G : Arena → α → Prop) (before : Arena) : ParseReply α → Prop
  | .done _ v t => K before t.arena ∧ G t.arena v
  | .failed _ _ t => K before t.arena

/-- What a round of a repetition leaves: a state for the next round, or the result. -/
def Round (I : Arena → σ → Prop) (G : Arena → α → Prop) (b : Arena) : σ ⊕ α → Prop
  | .inl next => I b next
  | .inr result => G b result

section
variable {K : Arena → Arena → Prop} [IsPreorder Arena K] {G : Arena → α → Prop}
  {H : Arena → β → Prop} {p : Parser α} {c : ParseContext} {s : ParseState}

theorem Ends.bind {f : α → Parser β} (hp : Ends K G s.arena (p c s))
    (hf : ∀ v t, K s.arena t.arena → G t.arena v → Ends K H t.arena (f v c t)) :
    Ends K H s.arena ((p >>= f) c s) := by
  change Ends K H s.arena (Parser.bind p f c s)
  unfold Parser.bind
  cases hrun : p c s with
  | failed taken e t =>
    rw [hrun] at hp
    exact hp
  | done taken v t =>
    rw [hrun] at hp
    have hnext := hf v t hp.1 hp.2
    dsimp only
    cases hmore : f v c t with
    | failed more e u =>
      rw [hmore] at hnext
      exact trans_of K hp.1 hnext
    | done more w u =>
      rw [hmore] at hnext
      exact ⟨trans_of K hp.1 hnext.1, hnext.2⟩

theorem Ends.loop {step : σ → Parser (σ ⊕ α)} {I : Arena → σ → Prop}
    (hstep : ∀ v s, I s.arena v → Ends K (Round I G) s.arena (step v c s)) (steps : Nat)
    (taken : Bool) {v : σ} (hv : I s.arena v) :
    Ends K G s.arena (Parser.loop step steps taken v c s) := by
  induction steps generalizing taken v s with
  | zero => exact refl_of K s.arena
  | succ steps ih =>
    have hround := hstep v s hv
    unfold Parser.loop
    cases hrun : step v c s with
    | failed more e t =>
      rw [hrun] at hround
      exact hround
    | done more r t =>
      rw [hrun] at hround
      cases r with
      | inr result => exact hround
      | inl next =>
        have hrest := ih (s := t) (taken || more) hround.2
        dsimp only
        cases hloop : Parser.loop step steps (taken || more) next c t with
        | failed last e u =>
          rw [hloop] at hrest
          exact trans_of K hround.1 hrest
        | done last w u =>
          rw [hloop] at hrest
          exact ⟨trans_of K hround.1 hrest.1, hrest.2⟩

omit [IsPreorder Arena K] in
theorem Ends.mono {K' : Arena → Arena → Prop} {G' : Arena → α → Prop} {before : Arena}
    {reply : ParseReply α} (h : Ends K G before reply) (hK : ∀ b, K before b → K' before b)
    (hG : ∀ b v, K before b → G b v → G' b v) : Ends K' G' before reply := by
  cases reply with
  | done taken v t => exact ⟨hK _ h.1, hG _ _ h.1 h.2⟩
  | failed taken e t => exact hK _ h

end

/-- Inside the given loops and from an arena at least as large as the given one, the parser keeps
all that is in the arena, and a result that it gives has the property there. -/
def Builds (loops : Loops) (a : Arena) (G : Arena → α → Prop) (p : Parser α) : Prop :=
  ∀ c s, c.loops = loops → a ≤ s.arena → Ends (· ≤ ·) G s.arena (p c s)

def Quiet (p : Parser α) : Prop :=
  ∀ c s, Ends (· = ·) (fun _ _ => True) s.arena (p c s)

variable {loops : Loops} {a : Arena} {G : Arena → α → Prop} {H : Arena → β → Prop} {p : Parser α}

/-! ## Parsers that build -/

theorem Builds.pure {v : α} (h : ∀ b, a ≤ b → G b v) : Builds loops a G (Pure.pure v) :=
  fun _ s _ hs => ⟨le_refl _, h s.arena hs⟩

theorem Builds.bind {f : α → Parser β} (hp : Builds loops a G p)
    (hf : ∀ b v, a ≤ b → G b v → Builds loops b H (f v)) : Builds loops a H (p >>= f) :=
  fun c s hc hs => (hp c s hc hs).bind fun v t hst hv =>
    hf t.arena v (hs.trans hst) hv c t hc (le_refl _)

theorem Builds.map {f : α → β} (hp : Builds loops a (fun b v => H b (f v)) p) :
    Builds loops a H (f <$> p) := by
  intro c s hc hs
  change Ends (· ≤ ·) H s.arena ((p >>= fun v => Pure.pure (f v)) c s)
  exact (hp c s hc hs).bind fun v t _ hv => ⟨le_refl _, hv⟩

theorem Builds.fail (failure : ParseFailure) : Builds loops a G (Parser.fail failure) :=
  fun _ s _ _ => le_refl s.arena

theorem Quiet.builds (hp : Quiet p) : Builds loops a (fun _ _ => True) p :=
  fun c s _ _ => (hp c s).mono (fun _ h => h.le) fun _ _ _ _ => trivial

theorem Quiet.then {f : α → Parser β} (hp : Quiet p) (hf : ∀ v, Builds loops a H (f v)) :
    Builds loops a H (p >>= f) :=
  hp.builds.bind fun _ v hab _ c s hc hs => hf v c s hc (hab.trans hs)

theorem Builds.context {f : ParseContext → Parser β}
    (hf : ∀ c, c.loops = loops → Builds loops a H (f c)) :
    Builds loops a H (Parser.context >>= f) := by
  intro c s hc hs
  have hcontext : Ends (· ≤ ·) (fun _ d => d = c) s.arena (Parser.context c s) :=
    ⟨le_refl _, rfl⟩
  refine hcontext.bind fun d t hst hd => ?_
  rw [hd]
  exact hf c hc c t hc (hs.trans hst)

theorem Builds.withLoops {change : Loops → Loops} (hp : Builds (change loops) a G p) :
    Builds loops a G (Parser.withLoops change p) :=
  fun c s hc hs => hp { c with loops := change c.loops } s (congrArg change hc) hs

theorem Builds.orStop (hp : Builds loops a G p) :
    Builds loops a (fun b r => ∀ v, r = .ok v → G b v) (Parser.orStop p) := by
  intro c s hc hs
  have h := hp c s hc hs
  unfold Parser.orStop
  cases hrun : p c s with
  | done taken v t =>
    rw [hrun] at h
    refine ⟨h.1, fun w hw => ?_⟩
    cases hw
    exact h.2
  | failed taken e t =>
    rw [hrun] at h
    cases taken with
    | true => exact h
    | false =>
      cases e with
      | fault d => exact ⟨h, fun w hw => by cases hw⟩
      | tooLong count => exact h
      | exhausted => exact h

theorem Builds.repeating {step : σ → Parser (σ ⊕ α)} {start : σ} (I : Arena → σ → Prop)
    (hstart : I a start)
    (hstep : ∀ b v, a ≤ b → I b v → Builds loops b (Round I G) (step v)) :
    Builds loops a G (Parser.repeating step start) := by
  intro c s hc hs
  -- Between rounds the invariant holds in some arena that the current one has grown from.
  refine Ends.loop (I := fun d v => ∃ b, a ≤ b ∧ b ≤ d ∧ I b v) ?_ (c.rounds + 1) false
    ⟨a, le_refl a, hs, hstart⟩
  rintro v t ⟨b, hab, hbt, hv⟩
  refine (hstep b v hab hv c t hc hbt).mono (fun _ h => h) fun d round htd hround => ?_
  cases round with
  | inl next => exact ⟨d, hab.trans (hbt.trans htd), le_refl d, hround⟩
  | inr result => exact hround

/-! ## Quiet parsers -/

theorem Quiet.pure (v : α) : Quiet (Pure.pure v : Parser α) := fun _ _ => ⟨rfl, trivial⟩

theorem Quiet.fail (failure : ParseFailure) : Quiet (Parser.fail failure : Parser α) :=
  fun _ s => Eq.refl s.arena

theorem Quiet.bind {f : α → Parser β} (hp : Quiet p) (hf : ∀ v, Quiet (f v)) :
    Quiet (p >>= f) :=
  fun c s => (hp c s).bind fun v t _ _ => hf v c t

theorem Quiet.ite {condition : Prop} [Decidable condition] {q : Parser α} (hp : Quiet p)
    (hq : Quiet q) : Quiet (if condition then p else q) := by
  split
  · exact hp
  · exact hq

theorem Quiet.repeating {step : σ → Parser (σ ⊕ α)} (hstep : ∀ v, Quiet (step v)) (start : σ) :
    Quiet (Parser.repeating step start) :=
  fun c _ => Ends.loop (I := fun _ _ => True)
    (fun v s _ => (hstep v c s).mono (fun _ h => h) fun _ r _ _ => by cases r <;> trivial)
    (c.rounds + 1) false trivial

theorem quiet_context : Quiet context := fun _ _ => ⟨rfl, trivial⟩

theorem quiet_current : Quiet current := fun _ _ => ⟨rfl, trivial⟩

theorem quiet_peek : Quiet peek := by
  intro c s
  unfold peek
  split <;> exact ⟨rfl, trivial⟩

theorem quiet_advance : Quiet advance := by
  intro c s
  unfold advance
  cases s.ahead with
  | nil => exact ⟨rfl, trivial⟩
  | cons token rest =>
    dsimp only
    split <;> exact ⟨rfl, trivial⟩

theorem quiet_pastNewlines : Quiet pastNewlines := fun _ _ => ⟨rfl, trivial⟩

theorem quiet_previousSpan : Quiet previousSpan := fun _ _ => ⟨rfl, trivial⟩

theorem quiet_spanOf (id : NodeId) : Quiet (spanOf id) := fun _ _ => ⟨rfl, trivial⟩

theorem quiet_isBoolCast (id : NodeId) : Quiet (isBoolCast id) := fun _ _ => ⟨rfl, trivial⟩

theorem quiet_warn (code : Code) (span : Span) (args : List String) : Quiet (warn code span args) :=
  fun _ _ => ⟨rfl, trivial⟩

theorem quiet_currentSpan : Quiet currentSpan := quiet_current.bind fun _ => .pure _

theorem quiet_check (m : Mark) : Quiet (check m) := quiet_current.bind fun _ => .pure _

theorem quiet_checkKeyword (k : Keyword) : Quiet (checkKeyword k) :=
  quiet_current.bind fun _ => .pure _

theorem quiet_eat (m : Mark) : Quiet (eat m) :=
  (quiet_check m).bind fun _ => .ite (quiet_advance.bind fun _ => .pure _) (.pure _)

theorem quiet_eatKeyword (k : Keyword) : Quiet (eatKeyword k) :=
  (quiet_checkKeyword k).bind fun _ => .ite (quiet_advance.bind fun _ => .pure _) (.pure _)

theorem quiet_skipNewlines : Quiet skipNewlines :=
  .repeating (fun _ => (quiet_eat .newline).bind fun _ => .ite (.pure _) (.pure _)) _

theorem quiet_atBoundary : Quiet atBoundary := by
  refine quiet_current.bind fun token => ?_
  split <;> exact .pure _

theorem quiet_spanFrom (start : Span) : Quiet (spanFrom start) :=
  quiet_previousSpan.bind fun _ => .pure _

theorem quiet_textOf (name : Name) : Quiet (textOf name) := quiet_context.bind fun _ => .pure _

theorem quiet_describeCurrent : Quiet describeCurrent :=
  quiet_context.bind fun _ => quiet_current.bind fun _ => .pure _

theorem quiet_failFound (code : Code) : Quiet (failFound code : Parser α) :=
  quiet_currentSpan.bind fun _ => quiet_describeCurrent.bind fun _ => .fail _

theorem quiet_identifier (code : Code) : Quiet (identifier code) := by
  refine quiet_current.bind fun token => ?_
  split
  · exact quiet_advance.bind fun _ => .pure _
  · exact quiet_failFound code

theorem Builds.failFound (code : Code) : Builds loops a G (Parser.failFound code) :=
  quiet_currentSpan.then fun _ => quiet_describeCurrent.then fun _ => .fail _

theorem Builds.failExpected (what : String) : Builds loops a G (Parser.failExpected what) :=
  quiet_describeCurrent.then fun _ => quiet_currentSpan.then fun _ => .fail _

theorem quiet_expectCloser (bracket : Bracket) (opened : Span) (stopped : Option Diagnostic) :
    Quiet (expectCloser bracket opened stopped) := by
  refine quiet_skipNewlines.bind fun _ => (quiet_check _).bind fun _ => .ite ?_ ?_
  · exact quiet_advance.bind fun _ => .pure _
  · refine (quiet_check .eof).bind fun _ => .ite (.fail _) ?_
    split
    · exact .fail _
    · exact quiet_describeCurrent.bind fun _ => quiet_currentSpan.bind fun _ => .fail _

end ExprScript.Parser
