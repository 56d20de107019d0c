import ExprScript.Proofs.Parser.Progress

/-!
# Provisions suffice

Given a grammar that takes a token wherever there are fewer tokens than a bound, each production
takes one where there are as many as the bound, since it nests only behind a token of its own. So
the levels and rounds that a parse provides for its tokens are enough for every token list.
-/
namespace ExprScript

namespace Parser

variable {α β : Type} {n : Nat} {K : TokenKind → Prop} {g : Grammar}

theorem Advances.looked {p : Parser α} {needs : α → Prop} {token : Token} {kind : TokenKind}
    (h : token.kind = kind) (hkind : kind.Takable) (hp : Advances n TokenKind.Takable needs p) :
    Advances n (fun k => K k ∧ token.kind = k) needs p := by
  refine hp.mono (Nat.le_refl n) (fun k hk => ?_) fun _ h => h
  rw [← hk.2, h]
  exact hkind

/-- A parser that takes a token from anywhere takes one in front of a known token. -/
theorem Advances.anywhere {p : Parser α} {needs : α → Prop}
    (hp : Advances n (fun _ => True) needs p) : Advances n K needs p :=
  hp.mono (Nat.le_refl n) (fun _ _ => trivial) fun _ h => h

theorem Advances.behind {p : Parser α} {needs : α → Prop} (hp : Advances (n + 1) K needs p) :
    Advances n K (fun _ => False) p :=
  hp.mono (Nat.le_succ n) (fun _ h => h) fun _ h => h.elim

theorem Advances.ite {condition : Prop} [Decidable condition] {p q : Parser α} {needs : α → Prop}
    (hp : Advances n K needs p) (hq : Advances n K needs q) :
    Advances n K needs (if condition then p else q) := by
  split
  · exact hp
  · exact hq

theorem goesOn_some {p : Parser α} (hp : GoesOn n p) : GoesOn n (do return some (← p)) :=
  hp.then fun _ => .pure id

/-- A parser that fails softly leaves the tokens where they are, so a statement that is not there
stops a list of statements without a loss. -/
theorem Advances.orStop {p : Parser α} (hp : Takes n K p) :
    Advances n K (fun r => ∃ v, r = .ok v) (Parser.orStop p) := by
  intro c s hlength hrounds hkind
  have hreply := hp c s hlength hrounds hkind
  unfold Parser.orStop
  cases hrun : p c s with
  | done taken v t =>
    rw [hrun] at hreply
    exact ⟨hreply.1, fun _ => hreply.2 trivial⟩
  | failed taken e t =>
    rw [hrun] at hreply
    cases taken with
    | true => exact hreply
    | false =>
      cases e with
      | fault d => exact ⟨hreply.1, fun h => by obtain ⟨v, hv⟩ := h; cases hv⟩
      | tooLong count => exact hreply
      | exhausted => exact hreply

def Grammar.Takes (n : Nat) (g : Grammar) : Prop :=
  ∀ place, Parser.Takes n (fun _ => True) (g place)

/-! ## Statements -/

section
variable (hg : Grammar.Takes n g)
include hg

theorem advances_guard : Advances n K (fun condition => condition.isSome) (guard g) :=
  .eatKeyword (Nat.le_succ n) (goesOn_some (hg .ternary).goesOn) (.pure (by simp))

theorem goesOn_guard : GoesOn n (guard g) := (advances_guard hg).goesOn

theorem goesOn_returnedValue : GoesOn n (returnedValue g) :=
  stays_atBoundary.goesOn.then fun _ => (stays_checkKeyword _).goesOn.then fun _ =>
    .ite (.pure id) (goesOn_some (hg .expr).goesOn)

theorem takes_returnStatement : Takes n TokenKind.Takable (returnStatement g) :=
  takes_advance.take (Nat.le_succ n) fun _ => (goesOn_returnedValue hg).then fun _ =>
    (goesOn_guard hg).then fun _ => (stays_spanFrom _).goesOn.then fun _ => (stays_node _ _).goesOn

omit hg in
theorem goesOn_loopLabel : GoesOn n loopLabel := by
  refine .eat (by simp) (Nat.le_succ n) ?_ (.pure id)
  refine stays_currentSpan.goesOn.then fun span => (takes_identifier _).goesOn.then fun name => ?_
  refine stays_context.goesOn.then fun c => .ite (.pure id) ?_
  exact (stays_textOf name).goesOn.then fun _ => .fault

theorem takes_loopControl (keyword : Keyword) (build : Option Name → Option NodeId → Expr) :
    Takes n TokenKind.Takable (loopControl g keyword build) := by
  refine takes_advance.take (Nat.le_succ n) fun _ => stays_context.goesOn.then fun c => ?_
  refine .ite .fault (goesOn_loopLabel.then fun label => (goesOn_guard hg).then fun condition => ?_)
  exact (stays_spanFrom _).goesOn.then fun _ => (stays_node _ _).goesOn

theorem takes_statement : Takes n (fun _ => True) (statement g) := by
  refine stays_current.then fun token => ?_
  split
  next h => exact .looked h rfl (takes_returnStatement hg)
  next h => exact .looked h rfl (takes_loopControl hg _ _)
  next h => exact .looked h rfl (takes_loopControl hg _ _)
  next => exact (hg .expr).anywhere

theorem advances_nextStatement (before : List NodeId) :
    Advances n (fun _ => True) Again (nextStatement g before) := by
  refine goesOn_skipNewlines.then fun _ => (stays_check .eof).goesOn.then fun _ =>
    (stays_check _).goesOn.then fun _ => .ite (.pure id) ?_
  refine (takes_statement hg).orStop.bind (Nat.le_succ n) (fun r hr => ?_) fun r hr => ?_
  · obtain ⟨last, rfl⟩ := hr
    refine stays_current.goesOn.then fun token => ?_
    split
    · exact .pure id
    · exact .pure id
    · exact .pure id
    · exact .pure id
    · exact advances_failFound _
  · cases r with
    | ok last => exact absurd ⟨last, rfl⟩ hr
    | error d => exact .pure id

theorem goesOn_statements : GoesOn n (statements g) := .repeating (advances_nextStatement hg) []

theorem takes_block : Takes n K (block g) := by
  refine stays_currentSpan.then fun opened => .eat (by simp) (Nat.le_succ n) ?_
    (advances_failExpected _)
  refine (goesOn_statements hg).then fun body => (goesOn_expectCloser _ _ _).then fun closed => ?_
  exact (stays_store _ _ _).goesOn.then fun list => (stays_node _ _).goesOn

theorem goesOn_block : GoesOn n (block g) := (takes_block hg).goesOn

/-! ## Lists and branches -/

omit hg in
theorem advances_commaRound (closing : Bracket) {item : Parser α}
    (hitem : Takes n (fun _ => True) item) (before : List α) :
    Advances n (fun _ => True) Again (commaRound closing item before) := by
  refine (stays_check _).goesOn.then fun _ => (stays_check .eof).goesOn.then fun _ =>
    .ite (.pure id) ?_
  refine hitem.take (Nat.le_succ n) fun next => goesOn_skipNewlines.then fun _ => ?_
  exact .eat (by simp) (Nat.le_succ n) (goesOn_skipNewlines.then fun _ => .pure id) (.pure id)

omit hg in
theorem goesOn_commaList (closing : Bracket) {item : Parser α}
    (hitem : Takes n (fun _ => True) item) : GoesOn n (commaList closing item) :=
  goesOn_skipNewlines.then fun _ => .repeating (advances_commaRound closing hitem) []

theorem takes_group : Takes (n + 1) TokenKind.Takable (group g) :=
  takes_advance.take (Nat.le_refl _) fun _ => goesOn_skipNewlines.then fun _ =>
    (hg .expr).goesOn.then fun _ => (goesOn_expectCloser _ _ _).then fun _ => .pure id

theorem takes_listLiteral : Takes (n + 1) TokenKind.Takable (listLiteral g) :=
  takes_advance.take (Nat.le_refl _) fun _ => (goesOn_commaList _ (hg .ternary)).then fun _ =>
    (goesOn_expectCloser _ _ _).then fun _ => (stays_store _ _ _).goesOn.then fun _ =>
      (stays_node _ _).goesOn

theorem goesOn_branch : GoesOn n (branch g) :=
  (hg .logical).goesOn.then fun _ => (goesOn_block hg).then fun _ => .pure id

omit hg in
theorem proceeds_behindNewlines {f : Token → Parser β} {needs : β → Prop} {c : ParseContext}
    {s : ParseState} (hlength : s.ahead.length < n) (hrounds : s.ahead.length ≤ c.rounds)
    (hkind : (s.behindNewlines.headD eofToken).kind.Takable) (hf : ∀ token, GoesOn n (f token)) :
    Proceeds needs s ((do skipNewlines; f (← advance)) c s) := by
  obtain ⟨taken, t, hrun, hahead, -⟩ := skipNewlines_run hrounds
  have hskip := goesOn_skipNewlines c s hlength hrounds trivial
  rw [hrun] at hskip
  have hle := hskip.1.length_le
  rw [bind_of_done hrun]
  refine .after hskip.1 (takes_advance.take (Nat.le_succ n) hf c t (by omega) (by omega) ?_)
  rwa [ParseState.kind, hahead]

theorem advances_nextBranch (before : List Branch) :
    Advances n (fun _ => True) Again (nextBranch g before) := by
  intro c s hlength hrounds _
  rw [nextBranch, bind_of_done pastNewlines_eq, ParseReply.after_false]
  generalize hkind : (s.behindNewlines.headD eofToken).kind = kind
  split
  · refine proceeds_behindNewlines hlength hrounds (by rw [hkind]; rfl) fun _ => ?_
    exact (goesOn_branch hg).then fun _ => .pure id
  · refine proceeds_behindNewlines hlength hrounds (by rw [hkind]; rfl) fun _ => ?_
    exact (goesOn_block hg).then fun _ => .pure id
  · exact ⟨.of_ahead_eq rfl, fun h => h.elim⟩

theorem takes_conditional : Takes (n + 1) TokenKind.Takable (conditional g) := by
  refine takes_advance.take (Nat.le_refl _) fun _ => (goesOn_branch hg).then fun first => ?_
  refine (Advances.repeating (advances_nextBranch hg) [first]).then fun all => ?_
  exact (stays_store _ _ _).goesOn.then fun _ => (stays_spanFrom _).goesOn.then fun _ =>
    (stays_node _ _).goesOn

theorem advances_nextArm (before : List CaseArm × Option NodeId) :
    Advances n (fun _ => True) Again (nextArm g before) := by
  obtain ⟨arms, otherwise⟩ := before
  refine goesOn_skipNewlines.then fun _ => .eatKeyword (Nat.le_succ n) ?_ ?_
  · exact (hg .factor).goesOn.then fun _ => (goesOn_block hg).then fun _ => .pure id
  refine (stays_checkKeyword .default).then fun found => ?_
  cases found with
  | false => exact .pure id
  | true =>
    rw [if_pos rfl]
    refine .ite ?_ ?_
    · exact stays_currentSpan.then fun _ => .fault
    · refine (takes_advance.mono (Nat.le_refl n) (fun k hk => .of_isKeyword hk.2.symm)
        fun _ h => h).take (Nat.le_succ n) fun _ => (goesOn_block hg).then fun _ => .pure id

theorem takes_caseOf : Takes (n + 1) TokenKind.Takable (caseOf g) := by
  refine takes_advance.take (Nat.le_refl _) fun _ => (hg .logical).goesOn.then fun _ => ?_
  refine stays_currentSpan.goesOn.then fun _ => .eat (by simp) (Nat.le_succ n) ?_
    (advances_failExpected _)
  refine (Advances.repeating (advances_nextArm hg) _).then fun all => ?_
  exact (goesOn_expectCloser _ _ _).then fun _ => (stays_store _ _ _).goesOn.then fun _ =>
    (stays_spanFrom _).goesOn.then fun _ => (stays_node _ _).goesOn

/-! ## Loops and functions -/

theorem goesOn_loopBody (label : Option Name) : GoesOn n (loopBody g label) :=
  .withLoops (goesOn_block hg)

theorem goesOn_loopBounds : GoesOn n (loopBounds g) :=
  (hg .sum).goesOn.then fun _ => .eatKeyword (Nat.le_succ n)
    ((hg .sum).goesOn.then fun _ => .pure id) (.pure id)

theorem goesOn_loopStep : GoesOn n (loopStep g) :=
  .eatKeyword (Nat.le_succ n) (goesOn_some (hg .sum).goesOn) (.pure id)

omit hg in
theorem goesOn_loopCounter : GoesOn n loopCounter :=
  .eat (by simp) (Nat.le_succ n) (goesOn_some (takes_identifier _).goesOn) (.pure id)

theorem takes_iterate (label : Option Name) (start : Span) :
    Takes (n + 1) TokenKind.Takable (iterate g label start) :=
  takes_advance.take (Nat.le_refl _) fun _ => (goesOn_loopBounds hg).then fun _ =>
    (goesOn_loopStep hg).then fun _ => goesOn_loopCounter.then fun _ =>
      (goesOn_loopBody hg label).then fun _ => (stays_spanFrom _).goesOn.then fun _ =>
        (stays_node _ _).goesOn

theorem takes_whileLoop (label : Option Name) (start : Span) :
    Takes (n + 1) TokenKind.Takable (whileLoop g label start) :=
  takes_advance.take (Nat.le_refl _) fun _ => (hg .logical).goesOn.then fun _ =>
    (goesOn_loopBody hg label).then fun _ => (stays_spanFrom _).goesOn.then fun _ =>
      (stays_node _ _).goesOn

theorem takes_labelledLoop : Takes (n + 1) TokenKind.Takable (labelledLoop g) := by
  refine takes_advance.take (Nat.le_refl _) fun _ => ?_
  refine (takes_identifier _).goesOn.then fun label => ?_
  refine stays_current.then fun token => ?_
  split
  next h => exact .looked h rfl (takes_iterate hg _ _).behind
  next h => exact .looked h rfl (takes_whileLoop hg _ _).behind
  next => exact stays_describeCurrent.then fun _ => stays_currentSpan.then fun _ => .fault

theorem goesOn_parameterDefault (name : Name) : GoesOn n (parameterDefault g name) := by
  refine stays_current.goesOn.then fun token => ?_
  split
  · exact goesOn_advance.then fun _ => goesOn_some (hg .ternary).goesOn
  · exact goesOn_advance.then fun _ => (stays_textOf _).goesOn.then fun _ =>
      (stays_warn _ _ _).goesOn.then fun _ => goesOn_some (hg .ternary).goesOn
  · exact .pure id

theorem takes_parameter : Takes n (fun _ => True) (parameter g) := by
  refine stays_current.then fun token => ?_
  split
  · exact advances_failFound _
  next type h =>
    have htype : Advances n (fun k => True ∧ token.kind = k) (fun _ => True) advance := by
      refine takes_advance.mono (Nat.le_refl n) (fun k hk => ?_) fun _ h => h
      rw [← hk.2]
      cases hkind : token.kind with
      | keyword word => rfl
      | _ => simp [declaredTypeOf, hkind] at h
    exact htype.take (Nat.le_succ n) fun _ => (takes_identifier _).goesOn.then fun _ =>
      (goesOn_parameterDefault hg _).then fun _ => (stays_spanFrom _).goesOn.then fun _ => .pure id

omit hg in
theorem goesOn_functionName : GoesOn n functionName := by
  refine stays_current.goesOn.then fun token => ?_
  split
  · exact goesOn_advance.then fun _ => .pure id
  · exact .pure id

theorem takes_function : Takes (n + 1) TokenKind.Takable (function g) := by
  refine takes_advance.take (Nat.le_refl _) fun _ => goesOn_functionName.then fun _ => ?_
  refine stays_currentSpan.goesOn.then fun _ => .eat (by simp) (Nat.le_succ n) ?_
    (advances_failExpected _)
  refine (goesOn_commaList _ (takes_parameter hg)).then fun _ => ?_
  refine (goesOn_expectCloser _ _ _).then fun _ => (goesOn_block hg).withLoops.then fun _ => ?_
  exact (stays_store _ _ _).goesOn.then fun _ => (stays_spanFrom _).goesOn.then fun _ =>
    (stays_node _ _).goesOn

omit hg in
theorem takes_literal (expr : Expr) : Takes n TokenKind.Takable (literal expr) :=
  takes_advance.take (Nat.le_succ n) fun _ => (stays_node _ _).goesOn

theorem takes_atom : Takes (n + 1) (fun _ => True) (atom g) := by
  refine stays_current.then fun token => ?_
  split
  next h => exact .looked h rfl (takes_literal _)
  next h => exact .looked h rfl (takes_literal _)
  next h => exact .looked h rfl (takes_literal _)
  next h => exact .looked h rfl (takes_literal _)
  next h => exact .looked h rfl (takes_group hg)
  next h => exact .looked h rfl (takes_listLiteral hg)
  next h => exact .looked h rfl (takes_labelledLoop hg)
  next h => exact .looked h rfl (takes_conditional hg)
  next h => exact .looked h rfl (takes_caseOf hg)
  next h => exact .looked h rfl (takes_iterate hg _ _)
  next h => exact .looked h rfl (takes_whileLoop hg _ _)
  next h => exact .looked h rfl (takes_function hg)
  next => exact advances_failFound _

/-! ## Operators behind an expression -/

omit hg in
theorem goesOn_argumentName : GoesOn n argumentName := by
  refine stays_current.goesOn.then fun token => stays_peek.goesOn.then fun behind => ?_
  split
  · exact goesOn_advance.then fun _ => goesOn_advance.then fun _ => .pure id
  · exact goesOn_advance.then fun _ => goesOn_advance.then fun _ =>
      (stays_textOf _).goesOn.then fun _ => (stays_warn _ _ _).goesOn.then fun _ => .pure id
  · exact .pure id

/-- The value of an argument takes a token, whether there is a name or not. -/
theorem takes_argument : Takes n (fun _ => True) (argument g) :=
  stays_currentSpan.goesOn.then fun _ => goesOn_argumentName.then fun _ =>
    (hg .ternary).take (Nat.le_succ n) fun _ => (stays_spanFrom _).goesOn.then fun _ => .pure id

theorem takes_call (callee : NodeId) : Takes (n + 1) TokenKind.Takable (call g callee) :=
  takes_advance.take (Nat.le_refl _) fun _ => (goesOn_commaList _ (takes_argument hg)).then fun _ =>
    (goesOn_expectCloser _ _ _).then fun _ => (stays_store _ _ _).goesOn.then fun _ =>
      (stays_spanOf _).goesOn.then fun _ => (stays_node _ _).goesOn

theorem takes_indexSpec : Takes n (fun _ => True) (indexSpec g) :=
  (hg .ternary).take (Nat.le_succ n) fun _ => .eatKeyword (Nat.le_succ n)
    ((hg .ternary).goesOn.then fun _ => .pure id) (.pure id)

theorem advances_nextSpec (before : List IndexSpec) :
    Advances n (fun _ => True) Again (nextSpec g before) :=
  (takes_indexSpec hg).take (Nat.le_succ n) fun _ => goesOn_skipNewlines.then fun _ =>
    .eat (by simp) (Nat.le_succ n) (goesOn_skipNewlines.then fun _ => .pure id) (.pure id)

theorem takes_index (target : NodeId) : Takes (n + 1) TokenKind.Takable (index g target) := by
  refine takes_advance.take (Nat.le_refl _) fun _ => goesOn_skipNewlines.then fun _ => ?_
  refine .eat (by simp) (Nat.le_succ n) (.pure id) ?_
  refine (Advances.repeating (advances_nextSpec hg) []).then fun _ => ?_
  exact (goesOn_expectCloser _ _ _).then fun _ => (stays_store _ _ _).goesOn.then fun _ =>
    (stays_spanOf _).goesOn.then fun _ => (stays_node _ _).goesOn

omit hg in
theorem takes_member (target : NodeId) : Takes n TokenKind.Takable (member target) :=
  takes_advance.take (Nat.le_succ n) fun _ => (takes_identifier _).goesOn.then fun _ =>
    (stays_spanOf _).goesOn.then fun _ => (stays_spanFrom _).goesOn.then fun _ =>
      (stays_node _ _).goesOn

omit hg in
theorem takes_cast (operand : NodeId) : Takes n TokenKind.Takable (cast operand) := by
  refine takes_advance.take (Nat.le_succ n) fun _ => stays_current.goesOn.then fun token => ?_
  split
  · exact advances_failFound _
  · exact goesOn_advance.then fun _ => (stays_spanOf _).goesOn.then fun _ =>
      (stays_spanFrom _).goesOn.then fun _ => (stays_node _ _).goesOn

omit hg in
/-- A production that takes a token can be a round that is followed by another one. -/
theorem Advances.again {p : Parser α} (hp : Takes (n + 1) K p) :
    Advances n K (Again : α ⊕ β → Prop) (Sum.inl <$> p) :=
  .map (hp.mono (Nat.le_succ n) (fun _ h => h) fun _ _ => trivial)

theorem advances_nextPostfix (target : NodeId) :
    Advances n (fun _ => True) Again (nextPostfix g target) := by
  refine stays_current.then fun token => ?_
  split
  next h => exact .looked h rfl (takes_call hg _).again
  next h => exact .looked h rfl (takes_index hg _).again
  next h => exact .looked h rfl (takes_member _).again
  next h => exact .looked h rfl (takes_cast _).again
  next => exact .pure id

theorem takes_suffixed : Takes (n + 1) (fun _ => True) (suffixed g) :=
  (takes_atom hg).take (Nat.le_refl _) fun target =>
    .repeating (advances_nextPostfix hg) target

/-! ## Operators -/

omit hg in
theorem takable_of_logicalOp? {kind : TokenKind} {op : BinaryOp} (h : logicalOp? kind = some op) :
    kind.Takable := by
  unfold logicalOp? at h
  split at h <;> first | rfl | cases h

omit hg in
theorem takable_of_comparisonOp? {kind : TokenKind} {op : BinaryOp}
    (h : comparisonOp? kind = some op) : kind.Takable := by
  unfold comparisonOp? at h
  split at h <;> first | rfl | cases h

omit hg in
theorem takable_of_sumOp? {kind : TokenKind} {op : BinaryOp} (h : sumOp? kind = some op) :
    kind.Takable := by
  unfold sumOp? at h
  split at h <;> first | rfl | cases h

omit hg in
theorem takable_of_productOp? {kind : TokenKind} {op : BinaryOp} (h : productOp? kind = some op) :
    kind.Takable := by
  unfold productOp? at h
  split at h <;> first | rfl | cases h

omit hg in
theorem takable_of_signOp? {kind : TokenKind} {op : UnaryOp} (h : signOp? kind = some op) :
    kind.Takable := by
  unfold signOp? at h
  split at h <;> first | rfl | cases h

omit hg in
theorem goesOn_binary (op : BinaryOp) (left right : NodeId) : GoesOn n (binary op left right) :=
  (stays_spanOf _).goesOn.then fun _ => (stays_spanOf _).goesOn.then fun _ =>
    (stays_node _ _).goesOn

omit hg in
theorem advances_nextOperand {operand : Parser NodeId}
    (hoperand : Takes (n + 1) (fun _ => True) operand) {operator? : TokenKind → Option BinaryOp}
    (hoperator : ∀ kind op, operator? kind = some op → kind.Takable) (left : NodeId) :
    Advances n (fun _ => True) Again (nextOperand operand operator? left) := by
  refine stays_current.then fun token => ?_
  split
  next op h =>
    refine (takes_advance.mono (Nat.le_refl n) (fun k hk => ?_) fun _ h => h).take (Nat.le_succ n)
      fun _ => hoperand.behind.then fun right => ?_
    · rw [← hk.2]
      exact hoperator _ _ h
    · exact .map ((goesOn_binary _ _ _).mono (Nat.le_refl n) (fun _ h => h) fun _ h => h.elim)
  next => exact .pure id

omit hg in
/-- A chain takes what its first operand takes, and an operator for each further one. -/
theorem takes_chain {operand : Parser NodeId} (hoperand : Takes (n + 1) (fun _ => True) operand)
    {operator? : TokenKind → Option BinaryOp}
    (hoperator : ∀ kind op, operator? kind = some op → kind.Takable) :
    Takes (n + 1) (fun _ => True) (chain operand operator?) :=
  hoperand.take (Nat.le_refl _) fun first =>
    .repeating (advances_nextOperand hoperand hoperator) first

theorem takes_power : Takes (n + 1) (fun _ => True) (power g) :=
  (takes_suffixed hg).take (Nat.le_refl _) fun _ => .eat (by simp) (Nat.le_succ n)
    ((hg .factor).goesOn.then fun _ => goesOn_binary _ _ _) (.pure id)

theorem takes_factor : Takes (n + 1) (fun _ => True) (factor g) := by
  refine stays_current.then fun token => ?_
  split
  next op h =>
    refine (takes_advance.mono (Nat.le_refl _) (fun k hk => ?_) fun _ h => h).take (Nat.le_refl _)
      fun _ => (hg .factor).goesOn.then fun _ => (stays_spanFrom _).goesOn.then fun _ =>
        (stays_node _ _).goesOn
    rw [← hk.2]
    exact takable_of_signOp? h
  next => exact (takes_power hg).anywhere

theorem takes_product : Takes (n + 1) (fun _ => True) (product g) :=
  takes_chain (takes_factor hg) fun _ _ => takable_of_productOp?

theorem takes_sum : Takes (n + 1) (fun _ => True) (sum g) :=
  takes_chain (takes_product hg) fun _ _ => takable_of_sumOp?

theorem takes_comparison : Takes (n + 1) (fun _ => True) (comparison g) :=
  takes_chain (takes_sum hg) fun _ _ => takable_of_comparisonOp?

theorem takes_negation : Takes (n + 1) (fun _ => True) (negation g) := by
  refine (stays_checkKeyword .not).then fun found => ?_
  cases found with
  | false => exact (takes_comparison hg).anywhere
  | true =>
    exact (takes_advance.mono (Nat.le_refl _) (fun k hk => .of_isKeyword hk.2.symm)
      fun _ h => h).take (Nat.le_refl _) fun _ => (hg .negation).goesOn.then fun _ =>
        (stays_spanFrom _).goesOn.then fun _ => (stays_node _ _).goesOn

theorem takes_logical : Takes (n + 1) (fun _ => True) (logical g) :=
  takes_chain (takes_negation hg) fun _ _ => takable_of_logicalOp?

theorem goesOn_positiveBranch (condition : NodeId) : GoesOn n (positiveBranch g condition) :=
  (stays_check _).goesOn.then fun _ => .ite
    ((stays_isBoolCast _).goesOn.then fun _ => .ite (.pure id) (advances_failFound _))
    (goesOn_some (hg .ternary).goesOn)

theorem goesOn_negativeBranch (positive : Option NodeId) : GoesOn n (negativeBranch g positive) :=
  .eat (by simp) (Nat.le_succ n)
    (stays_atBoundary.goesOn.then fun _ => .ite (.pure id) (goesOn_some (hg .ternary).goesOn))
    (stays_atBoundary.goesOn.then fun _ => .ite (.pure id) (advances_failExpected _))

theorem takes_ternary : Takes (n + 1) (fun _ => True) (ternary g) := by
  refine (takes_logical hg).take (Nat.le_refl _) fun condition => .eat (by simp) (Nat.le_succ n) ?_
    (.pure id)
  exact (goesOn_positiveBranch hg condition).then fun positive =>
    (goesOn_negativeBranch hg positive).then fun _ => (stays_spanOf _).goesOn.then fun _ =>
      (stays_spanFrom _).goesOn.then fun _ => (stays_node _ _).goesOn

theorem goesOn_initializer (type : DeclaredType) : GoesOn n (initializer g type) := by
  refine stays_current.goesOn.then fun token => ?_
  split
  · exact goesOn_advance.then fun _ => (hg .expr).goesOn.then fun _ => .pure id
  · exact advances_failFound _
  · exact .ite (advances_failFound _) (.pure id)

theorem takes_declaration (type : DeclaredType) :
    Takes (n + 1) TokenKind.Takable (declaration g type) :=
  takes_advance.take (Nat.le_refl _) fun _ => (takes_identifier _).goesOn.then fun _ =>
    (goesOn_initializer hg type).then fun _ => (stays_spanFrom _).goesOn.then fun _ =>
      (stays_node _ _).goesOn

theorem takes_assignment (name : Name) (op : AssignOp) (yields : Bool) :
    Takes (n + 1) TokenKind.Takable (assignment g name op yields) :=
  takes_advance.take (Nat.le_refl _) fun _ => goesOn_advance.then fun _ =>
    (hg .expr).goesOn.then fun _ => (stays_spanFrom _).goesOn.then fun _ => (stays_node _ _).goesOn

theorem takes_expr : Takes (n + 1) (fun _ => True) (expr g) := by
  refine stays_current.then fun token => stays_peek.then fun behind => ?_
  split
  next k h =>
    split
    · refine (takes_declaration hg _).mono (Nat.le_refl _) (fun kind hkind => ?_) fun _ h => h
      rw [← hkind.1.2, h]
      rfl
    · exact (takes_ternary hg).anywhere
  next h =>
    refine (takes_assignment hg _ _ _).mono (Nat.le_refl _) (fun kind hkind => ?_) fun _ h => h
    rw [← hkind.1.2, h]
    rfl
  next => exact (takes_ternary hg).anywhere

/-- Each place takes a token where one level less suffices for what is nested in it. -/
theorem takes_production (place : Place) : Takes (n + 1) (fun _ => True) (production g place) := by
  cases place with
  | expr => exact takes_expr hg
  | ternary => exact takes_ternary hg
  | logical => exact takes_logical hg
  | negation => exact takes_negation hg
  | sum => exact takes_sum hg
  | factor => exact takes_factor hg

end

/-! ## Programs -/

/-- A grammar with so many levels takes a token wherever fewer tokens are ahead. -/
theorem grammar_takes (level : Nat) : Grammar.Takes level (grammar level) := by
  induction level with
  | zero => exact fun place c s hlength => absurd hlength (Nat.not_lt_zero _)
  | succ level ih =>
    intro place c s hlength hrounds hkind
    simpa only [grammar, atLevel_eq] using takes_production ih place c s hlength hrounds hkind

theorem goesOn_strayToken (stopped : Option Diagnostic) : GoesOn n (strayToken stopped) := by
  refine stays_current.goesOn.then fun token => ?_
  split
  · exact .pure id
  · exact .pure id
  · exact stays_describeCurrent.goesOn.then fun _ => .pure id

theorem goesOn_programBody (hg : Grammar.Takes n g) : GoesOn n (programBody g) :=
  (goesOn_statements hg).then fun _ => (stays_check .eof).goesOn.then fun _ => .ite (.pure id)
    ((goesOn_strayToken _).then fun _ => .pure id)

end Parser

/-- No token list uses up the levels of nesting and the rounds that its parse provides for. -/
theorem measuredParse_ne_exhausted (tokens : List Token) (names : Interner) :
    measuredParse tokens names ≠ .error .exhausted := by
  have hlevels := le_levelsFor (tokens.length + 1)
  unfold measuredParse
  generalize levelsFor (tokens.length + 1) = levels at hlevels
  have hbody := Parser.goesOn_programBody (Parser.grammar_takes levels)
    ⟨names, [], tokens.length⟩ ⟨tokens, none, Arena.empty, #[]⟩ hlevels (Nat.le_refl _) trivial
  dsimp only
  cases hrun : Parser.programBody (Parser.grammar levels) ⟨names, [], tokens.length⟩
      ⟨tokens, none, Arena.empty, #[]⟩ with
  | done taken body s =>
    dsimp only
    rw [finishParse_eq]
    split <;> simp
  | failed taken e s =>
    rw [hrun] at hbody
    cases e with
    | exhausted => exact absurd rfl hbody.2
    | fault d =>
      dsimp only
      rw [finishParse_eq]
      split <;> simp
    | tooLong count => simp

end ExprScript
