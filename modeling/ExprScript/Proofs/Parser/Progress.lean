import ExprScript.Proofs.Parser.Running
import Mathlib.Logic.Basic

/-!
# Progress

A parser goes on through the tokens ahead, never past the end of the input, and its reply says
whether it took any. Nested expressions are parsed only behind a token that was taken, and a
repetition goes on only after a round that took one. So the levels of nesting and the rounds of
repetition that a parse provides for are never used up.
-/
namespace ExprScript

namespace Parser

variable {α β σ : Type}

/-! ## Tokens taken -/

/-- Some tokens were taken between two states, at least one exactly if the flag says so. -/
def Moves (s : ParseState) (taken : Bool) (t : ParseState) : Prop :=
  ∃ gone, s.ahead = gone ++ t.ahead ∧ (taken = true ↔ gone ≠ []) ∧
    ∀ token ∈ gone, token.kind.Takable

variable {s t u : ParseState} {taken more : Bool}

theorem Moves.of_ahead_eq (h : t.ahead = s.ahead) : Moves s false t :=
  ⟨[], by simp [h], by simp, by simp⟩

theorem Moves.trans (hst : Moves s taken t) (htu : Moves t more u) : Moves s (taken || more) u := by
  obtain ⟨first, hfirst, hsome, hall⟩ := hst
  obtain ⟨last, hlast, hmore, hrest⟩ := htu
  refine ⟨first ++ last, by rw [hfirst, hlast, List.append_assoc], ?_, fun token htoken => ?_⟩
  · rw [Bool.or_eq_true, hsome, hmore, Ne, Ne, Ne, List.append_eq_nil_iff, not_and_or]
  · rcases List.mem_append.mp htoken with h | h
    · exact hall token h
    · exact hrest token h

theorem Moves.length_le (h : Moves s taken t) : t.ahead.length ≤ s.ahead.length := by
  obtain ⟨gone, hgone, -, -⟩ := h
  simp [hgone]

theorem Moves.length_lt (h : Moves s true t) : t.ahead.length < s.ahead.length := by
  obtain ⟨gone, hgone, hsome, -⟩ := h
  have hpos := List.length_pos_iff.mpr (hsome.mp rfl)
  rw [hgone, List.length_append]
  omega

/-! ## Replies -/

/-- The reply tells truly whether tokens were taken, which they were for the values that need some,
and is not that provisions are used up. -/
def Proceeds (needs : α → Prop) (s : ParseState) : ParseReply α → Prop
  | .done taken v t => Moves s taken t ∧ (needs v → taken = true)
  | .failed taken e t => Moves s taken t ∧ e ≠ .exhausted

/-- With less than so many tokens ahead, of which the first is of a given kind, and no more of them
than rounds. -/
def Advances (n : Nat) (K : TokenKind → Prop) (needs : α → Prop) (p : Parser α) : Prop :=
  ∀ c s, s.ahead.length < n → s.ahead.length ≤ c.rounds → K s.kind → Proceeds needs s (p c s)

/-- Behind a token that was taken, any token may be ahead and no more need be taken. -/
abbrev GoesOn (n : Nat) (p : Parser α) : Prop :=
  Advances n (fun _ => True) (fun _ => False) p

/-- From a token of a given kind at least one token is taken. -/
abbrev Takes (n : Nat) (K : TokenKind → Prop) (p : Parser α) : Prop :=
  Advances n K (fun _ => True) p

/-- The parser takes nothing, and a value that it gives suits the token ahead. It fails at most for
a list that is too long. -/
def Stays (Q : TokenKind → α → Prop) (p : Parser α) : Prop :=
  ∀ c s, match p c s with
    | .done taken v t => taken = false ∧ t.ahead = s.ahead ∧ Q s.kind v
    | .failed taken e t => taken = false ∧ t.ahead = s.ahead ∧ ∃ count, e = .tooLong count

variable {n m : Nat} {K K' : TokenKind → Prop} {needs : α → Prop} {H : β → Prop} {p : Parser α}
  {Q : TokenKind → α → Prop}

theorem Proceeds.after {reply : ParseReply β} (hst : Moves s taken t)
    (h : Proceeds (fun w => H w ∧ taken = false) t reply) : Proceeds H s (reply.after taken) := by
  cases reply with
  | failed more e u => exact ⟨hst.trans h.1, h.2⟩
  | done more w u =>
    refine ⟨hst.trans h.1, fun hw => ?_⟩
    cases taken with
    | true => rfl
    | false => exact h.2 ⟨hw, rfl⟩

theorem Proceeds.mono {needs' : α → Prop} {reply : ParseReply α} (h : Proceeds needs s reply)
    (hneeds : ∀ v, needs' v → needs v) : Proceeds needs' s reply := by
  cases reply with
  | failed taken e t => exact h
  | done taken v t => exact ⟨h.1, fun hv => h.2 (hneeds v hv)⟩

theorem Proceeds.bind {f : α → Parser β} {c : ParseContext} (hp : Proceeds needs s (p c s))
    (hf : ∀ taken v t, Moves s taken t → (needs v → taken = true) →
      Proceeds (fun w => H w ∧ taken = false) t (f v c t)) :
    Proceeds H s ((p >>= f) c s) := by
  cases hrun : p c s with
  | failed taken e t =>
    rw [hrun] at hp
    rw [bind_of_failed hrun]
    exact hp
  | done taken v t =>
    rw [hrun] at hp
    rw [bind_of_done hrun]
    exact .after hp.1 (hf taken v t hp.1 hp.2)

theorem Advances.mono {needs' : α → Prop} (h : Advances n K needs p) (hmn : m ≤ n)
    (hK : ∀ k, K' k → K k) (hneeds : ∀ v, needs' v → needs v) : Advances m K' needs' p :=
  fun c s hlength hrounds hkind =>
    (h c s (by omega) hrounds (hK _ hkind)).mono hneeds

theorem Advances.goesOn (h : Advances n (fun _ => True) needs p) : GoesOn n p :=
  h.mono (Nat.le_refl n) (fun _ h => h) fun _ h => h.elim

/-- Behind a value for which a token was taken there is one token less. -/
theorem Advances.bind {f : α → Parser β} (hp : Advances n K needs p) (hnm : n ≤ m + 1)
    (htaken : ∀ v, needs v → GoesOn m (f v))
    (hother : ∀ v, ¬needs v → Advances n (fun _ => True) H (f v)) : Advances n K H (p >>= f) := by
  intro c s hlength hrounds hkind
  refine (hp c s hlength hrounds hkind).bind fun taken v t hst hneeds => ?_
  have hle := hst.length_le
  by_cases hv : needs v
  · obtain rfl := hneeds hv
    have hlt := hst.length_lt
    exact (htaken v hv c t (by omega) (by omega) trivial).mono fun w hw => by simp at hw
  · exact (hother v hv c t (by omega) (by omega) trivial).mono fun w hw => hw.1

theorem Advances.take {f : α → Parser β} (hp : Takes n K p) (hnm : n ≤ m + 1)
    (hf : ∀ v, GoesOn m (f v)) : Advances n K H (p >>= f) :=
  hp.bind hnm (fun v _ => hf v) fun _ hv => absurd trivial hv

theorem Advances.then {f : α → Parser β} (hp : GoesOn n p)
    (hf : ∀ v, Advances n (fun _ => True) H (f v)) : Advances n (fun _ => True) H (p >>= f) :=
  hp.bind (Nat.le_succ n) (fun _ hv => hv.elim) fun v _ => hf v

theorem Stays.then {f : α → Parser β} (hp : Stays Q p)
    (hf : ∀ v, Advances n (fun k => K k ∧ Q k v) H (f v)) : Advances n K H (p >>= f) := by
  intro c s hlength hrounds hkind
  have hstays := hp c s
  cases hrun : p c s with
  | failed taken e t =>
    rw [hrun] at hstays
    obtain ⟨rfl, hahead, count, rfl⟩ := hstays
    rw [bind_of_failed hrun]
    exact ⟨.of_ahead_eq hahead, by simp⟩
  | done taken v t =>
    rw [hrun] at hstays
    obtain ⟨rfl, hahead, hv⟩ := hstays
    rw [bind_of_done hrun]
    have hsame : t.kind = s.kind := by rw [ParseState.kind, hahead, ParseState.kind]
    refine .after (.of_ahead_eq hahead) ((hf v c t ?_ ?_ ?_).mono fun w hw => hw.1)
    · rwa [hahead]
    · rwa [hahead]
    · rw [hsame]
      exact ⟨hkind, hv⟩

theorem Stays.advances (hp : Stays Q p) (hneeds : ∀ v, ¬needs v) : Advances n K needs p := by
  intro c s _ _ _
  have hstays := hp c s
  cases hrun : p c s with
  | failed taken e t =>
    rw [hrun] at hstays
    obtain ⟨rfl, hahead, count, rfl⟩ := hstays
    exact ⟨.of_ahead_eq hahead, by simp⟩
  | done taken v t =>
    rw [hrun] at hstays
    obtain ⟨rfl, hahead, -⟩ := hstays
    exact ⟨.of_ahead_eq hahead, fun hv => absurd hv (hneeds v)⟩

theorem Stays.goesOn (hp : Stays Q p) : GoesOn n p := hp.advances fun _ h => h

theorem Advances.pure {v : α} (hv : ¬needs v) : Advances n K needs (Pure.pure v) :=
  fun _ _ _ _ _ => ⟨.of_ahead_eq rfl, fun h => absurd h hv⟩

theorem Advances.fault {d : Diagnostic} : Advances n K needs (Parser.fail (.fault d) : Parser α) :=
  fun _ _ _ _ _ => ⟨.of_ahead_eq rfl, by simp⟩

theorem Advances.withLoops {change : List (Option Name) → List (Option Name)}
    (hp : Advances n K needs p) : Advances n K needs (Parser.withLoops change p) :=
  fun c s hlength hrounds hkind =>
    hp { c with loops := change c.loops } s hlength hrounds hkind

theorem Advances.map {f : α → β} (hp : Advances n K (fun v => H (f v)) p) :
    Advances n K H (f <$> p) := by
  intro c s hlength hrounds hkind
  change Proceeds H s ((p >>= fun v => Pure.pure (f v)) c s)
  refine (hp c s hlength hrounds hkind).bind fun taken v t _ hneeds => ?_
  exact ⟨.of_ahead_eq rfl, fun hw => by simp [hneeds hw.1] at hw⟩

/-! ## Repetition -/

/-- A round that is followed by another one has taken a token. -/
def Again : σ ⊕ α → Prop
  | .inl _ => True
  | .inr _ => False

theorem proceeds_loop {step : σ → Parser (σ ⊕ α)} {c : ParseContext}
    (hstep : ∀ v, Advances n (fun _ => True) Again (step v)) (steps : Nat) {v : σ}
    (hst : Moves s taken t) (hlength : t.ahead.length < n) (hrounds : t.ahead.length ≤ c.rounds)
    (hsteps : t.ahead.length < steps) :
    Proceeds (fun _ => False) s (Parser.loop step steps taken v c t) := by
  induction steps generalizing taken v t with
  | zero => omega
  | succ steps ih =>
    have hround := hstep v c t hlength hrounds trivial
    rw [loop_succ]
    cases hrun : step v c t with
    | failed more e u =>
      rw [hrun] at hround
      exact ⟨hst.trans hround.1, hround.2⟩
    | done more r u =>
      rw [hrun] at hround
      cases r with
      | inr result => exact ⟨hst.trans hround.1, fun h => h.elim⟩
      | inl next =>
        obtain ⟨htu, htaken⟩ := hround
        obtain rfl := htaken trivial
        have hlt := htu.length_lt
        exact ih (hst.trans htu) (by omega) (by omega) (by omega)

theorem Advances.repeating {step : σ → Parser (σ ⊕ α)}
    (hstep : ∀ v, Advances n (fun _ => True) Again (step v)) (start : σ) :
    GoesOn n (Parser.repeating step start) :=
  fun c _ hlength hrounds _ =>
    proceeds_loop hstep (c.rounds + 1) (.of_ahead_eq rfl) hlength hrounds (by omega)

/-! ## Single steps -/

theorem Stays.pure (v : α) (hv : ∀ k, Q k v) : Stays Q (Pure.pure v) :=
  fun _ s => ⟨rfl, rfl, hv s.kind⟩

theorem Stays.bind {R : TokenKind → β → Prop} {f : α → Parser β} (hp : Stays Q p)
    (hf : ∀ v, Stays R (f v)) : Stays R (p >>= f) := by
  intro c s
  have hstays := hp c s
  cases hrun : p c s with
  | failed taken e t =>
    rw [hrun] at hstays
    rw [bind_of_failed hrun]
    exact hstays
  | done taken v t =>
    rw [hrun] at hstays
    obtain ⟨rfl, hahead, -⟩ := hstays
    have hnext := hf v c t
    have hsame : t.kind = s.kind := by rw [ParseState.kind, hahead, ParseState.kind]
    rw [bind_of_done hrun, ParseReply.after_false]
    cases hmore : f v c t with
    | failed more e u =>
      rw [hmore] at hnext
      exact ⟨hnext.1, hnext.2.1.trans hahead, hnext.2.2⟩
    | done more w u =>
      rw [hmore] at hnext
      exact ⟨hnext.1, hnext.2.1.trans hahead, hsame ▸ hnext.2.2⟩

theorem stays_context : Stays (fun _ _ => True) context := fun _ _ => ⟨rfl, rfl, trivial⟩

theorem stays_current : Stays (fun k token => token.kind = k) current := fun _ _ => ⟨rfl, rfl, rfl⟩

theorem stays_currentSpan : Stays (fun _ _ => True) currentSpan := fun _ _ => ⟨rfl, rfl, trivial⟩

theorem stays_peek : Stays (fun _ _ => True) peek := by
  intro c s
  unfold peek
  split <;> rename_i h <;> split at h <;> cases h <;> exact ⟨rfl, rfl, trivial⟩

theorem stays_check (m : Mark) : Stays (fun k b => b = k.isMark m) (check m) :=
  fun _ _ => ⟨rfl, rfl, rfl⟩

theorem stays_checkKeyword (w : Keyword) :
    Stays (fun k b => b = k.isKeyword w) (checkKeyword w) := fun _ _ => ⟨rfl, rfl, rfl⟩

theorem stays_spanFrom (start : Span) : Stays (fun _ _ => True) (spanFrom start) :=
  fun _ _ => ⟨rfl, rfl, trivial⟩

theorem stays_spanOf (id : NodeId) : Stays (fun _ _ => True) (spanOf id) :=
  fun _ _ => ⟨rfl, rfl, trivial⟩

theorem stays_isBoolCast (id : NodeId) : Stays (fun _ _ => True) (isBoolCast id) :=
  fun _ _ => ⟨rfl, rfl, trivial⟩

theorem stays_textOf (name : Name) : Stays (fun _ _ => True) (textOf name) :=
  fun _ _ => ⟨rfl, rfl, trivial⟩

theorem stays_describeCurrent : Stays (fun _ _ => True) describeCurrent :=
  fun _ _ => ⟨rfl, rfl, trivial⟩

theorem stays_warn (code : Code) (span : Span) (args : List String) :
    Stays (fun _ _ => True) (warn code span args) := fun _ _ => ⟨rfl, rfl, trivial⟩

theorem stays_node (expr : Expr) (span : Span) : Stays (fun _ _ => True) (node expr span) :=
  fun _ _ => ⟨rfl, rfl, trivial⟩

theorem stays_store (table : Arena → Array α) (put : Arena → Array α → Arena) (items : List α) :
    Stays (fun _ _ => True) (store table put items) := by
  intro c s
  unfold store
  split
  · rename_i h
    split at h
    · cases h
      exact ⟨rfl, rfl, trivial⟩
    · cases h
  · rename_i h
    split at h
    · cases h
    · cases h
      exact ⟨rfl, rfl, _, rfl⟩

theorem stays_atBoundary : Stays (fun _ _ => True) atBoundary := by
  refine stays_current.bind fun token => ?_
  split <;> exact .pure _ fun _ => trivial

theorem advances_failFound (code : Code) : Advances n K needs (failFound code : Parser α) :=
  stays_currentSpan.then fun _ => stays_describeCurrent.then fun _ => .fault

theorem advances_failExpected (what : String) : Advances n K needs (failExpected what : Parser α) :=
  stays_describeCurrent.then fun _ => stays_currentSpan.then fun _ => .fault

theorem takes_advance : Takes n TokenKind.Takable advance := by
  intro c s _ _ hkind
  cases hahead : s.ahead with
  | nil =>
    rw [ParseState.kind, hahead] at hkind
    cases hkind
  | cons token rest =>
    rw [ParseState.kind_of_ahead hahead] at hkind
    rw [advance_of_ahead hahead hkind]
    exact ⟨⟨[token], hahead, by simp, List.forall_mem_singleton.mpr hkind⟩, fun _ => rfl⟩

theorem goesOn_advance : GoesOn n advance := by
  intro c s hlength hrounds _
  by_cases hkind : s.kind.Takable
  · exact (takes_advance c s hlength hrounds hkind).mono fun _ h => h.elim
  · rw [advance_of_not hkind]
    exact ⟨.of_ahead_eq rfl, fun h => h.elim⟩

theorem advances_eat {mark : Mark} (hmark : mark ≠ .eof) :
    Advances n K (fun eaten => eaten = true) (eat mark) := by
  refine (stays_check mark).then fun found => ?_
  cases found with
  | false => exact .pure (by simp)
  | true =>
    exact (takes_advance.mono (Nat.le_refl n)
      (fun k hk => .of_isMark hk.2.symm hmark) fun _ h => h).take (Nat.le_succ n)
        fun _ => .pure id

theorem advances_eatKeyword (word : Keyword) :
    Advances n K (fun eaten => eaten = true) (eatKeyword word) := by
  refine (stays_checkKeyword word).then fun found => ?_
  cases found with
  | false => exact .pure (by simp)
  | true =>
    exact (takes_advance.mono (Nat.le_refl n)
      (fun k hk => .of_isKeyword hk.2.symm) fun _ h => h).take (Nat.le_succ n)
        fun _ => .pure id

theorem Advances.eat {f : Bool → Parser β} {mark : Mark} (hmark : mark ≠ .eof) (hnm : n ≤ m + 1)
    (hyes : GoesOn m (f true)) (hno : Advances n (fun _ => True) H (f false)) :
    Advances n K H (Parser.eat mark >>= f) :=
  (advances_eat hmark).bind hnm (fun _ h => h ▸ hyes)
    fun _ h => (Bool.eq_false_iff.mpr h) ▸ hno

theorem Advances.eatKeyword {f : Bool → Parser β} {word : Keyword} (hnm : n ≤ m + 1)
    (hyes : GoesOn m (f true)) (hno : Advances n (fun _ => True) H (f false)) :
    Advances n K H (Parser.eatKeyword word >>= f) :=
  (advances_eatKeyword word).bind hnm (fun _ h => h ▸ hyes)
    fun _ h => (Bool.eq_false_iff.mpr h) ▸ hno

theorem goesOn_skipNewlines : GoesOn n skipNewlines :=
  .repeating (fun _ => .eat (by simp) (Nat.le_succ n) (.pure id) (.pure id)) _

theorem takes_identifier (code : Code) : Takes n K (identifier code) := by
  refine stays_current.then fun token => ?_
  split
  · rename_i name hname
    refine (takes_advance.mono (Nat.le_refl n) (fun k hk => ?_) fun _ h => h).take (Nat.le_succ n)
      fun _ => .pure (by simp)
    obtain ⟨-, rfl⟩ := hk
    rw [hname]
    rfl
  · exact advances_failFound code

theorem goesOn_expectCloser (bracket : Bracket) (opened : Span) (stopped : Option Diagnostic) :
    GoesOn n (expectCloser bracket opened stopped) := by
  refine goesOn_skipNewlines.then fun _ => (stays_check _).then fun closes => ?_
  split
  · exact (goesOn_advance.mono (Nat.le_refl n) (fun _ _ => trivial) fun _ h => h).bind
      (Nat.le_succ n) (fun _ h => h.elim) fun _ _ => .pure (by simp)
  · refine (stays_check _).then fun ends => ?_
    split
    · exact .fault
    · split
      · exact .fault
      · exact advances_failExpected _

end Parser
end ExprScript
