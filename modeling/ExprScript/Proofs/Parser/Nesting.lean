import ExprScript.Proofs.Parser.Balance
import ExprScript.Proofs.Parser.Rules

/-!
# The grammar closes what it opens

Given parsers for nested expressions that close all brackets they open, each production does the
same. So a program that is read to its end is well nested; and if the parser finds an opener without
a closer, or a closer without an opener, the brackets of the tokens say the same.
-/
namespace ExprScript

namespace Parser

variable {α β : Type} {K : List Token → Prop} {g : Grammar} {opened : List Token}

/-- Whether a grammar closes the brackets that it opens, at all of its places. -/
def Grammar.Balanced (g : Grammar) : Prop := ∀ place, Parser.Balanced (g place)

/-- The end of a construct, in which a node is stored over everything from its start. -/
theorem balanced_nodeFrom (expr : Expr) (start : Span) :
    BalancedAt K (do node expr (← spanFrom start)) :=
  (stays_spanFrom start).balanced.then fun _ => (stays_node _ _).balanced

theorem balanced_nodeBetween (expr : Expr) (id : NodeId) (closed : Span) :
    BalancedAt K (do node expr ((← spanOf id).merge closed)) :=
  (stays_spanOf id).balanced.then fun _ => (stays_node _ _).balanced

theorem balanced_nodeFromNode (expr : Expr) (id : NodeId) :
    BalancedAt K (do node expr (← spanFrom (← spanOf id))) :=
  (stays_spanOf id).balanced.then fun _ => balanced_nodeFrom expr _

/-! ## Statements -/

section
variable (hg : Grammar.Balanced g)
include hg

theorem balanced_guard : Balanced (guard g) :=
  .eatKeyword (balanced_some (hg .ternary)) (balanced_pure _)

theorem balanced_returnedValue : Balanced (returnedValue g) := by
  apply BalancedAt.then stays_atBoundary.balanced
  intro _
  apply BalancedAt.then (stays_checkKeyword _).balanced
  intro _
  exact .ite (balanced_pure _) (balanced_some (hg .expr))

theorem balanced_returnStatement : BalancedAt (Ahead TokenKind.Plain) (returnStatement g) := by
  apply BalancedAt.then balanced_advance
  intro _
  apply BalancedAt.then (balanced_returnedValue hg)
  intro _
  apply BalancedAt.then (balanced_guard hg)
  intro _
  exact balanced_nodeFrom _ _

omit hg in
theorem balanced_loopLabel : Balanced loopLabel := by
  apply Turns.eatPlain
  · trivial
  · apply BalancedAt.then stays_currentSpan.balanced
    intro span
    apply BalancedAt.then (balanced_identifier (by simp))
    intro name
    apply BalancedAt.then stays_context.balanced
    intro c
    apply Turns.ite (balanced_pure _)
    apply BalancedAt.then (stays_textOf name).balanced
    intro _
    exact .fault (by simp)
  · exact balanced_pure _

theorem balanced_loopControl (keyword : Keyword) (build : Option Name → Option NodeId → Expr) :
    BalancedAt (Ahead TokenKind.Plain) (loopControl g keyword build) := by
  apply BalancedAt.then balanced_advance
  intro _
  apply BalancedAt.then stays_context.balanced
  intro c
  apply Turns.ite (.fault (by simp))
  apply BalancedAt.then balanced_loopLabel
  intro label
  apply BalancedAt.then (balanced_guard hg)
  intro _
  exact balanced_nodeFrom _ _

theorem balanced_statement : Balanced (statement g) := by
  apply sees_current.turns
  intro token
  split
  next h => exact Balances.looked h (balanced_returnStatement hg) trivial
  next h => exact Balances.looked h (balanced_loopControl hg _ _) trivial
  next h => exact Balances.looked h (balanced_loopControl hg _ _) trivial
  next => exact Balances.anywhere (hg .expr)

/-- If a list of statements stops early, no bracket is the reason. -/
def Statements.StopsForOther (body : Statements) : Prop :=
  ∀ d, body.stopped = some d → d.code ≠ .unmatchedBracket

theorem balances_nextStatement (before : List NodeId) :
    Balances (fun _ => True) (Sum.elim (fun _ => True) Statements.StopsForOther)
      (nextStatement g before) := by
  apply BalancedAt.then balanced_skipNewlines
  intro _
  apply BalancedAt.then (stays_check .eof).balanced
  intro _
  apply BalancedAt.then (stays_check _).balanced
  intro _
  apply Turns.ite
  · exact .pure ⟨rfl, by simp [Statements.StopsForOther]⟩
  apply (balanced_statement hg).orStop.then
  intro r hr
  cases r with
  | error d => exact .pure ⟨rfl, by simpa [Statements.StopsForOther] using hr⟩
  | ok id =>
    apply BalancedAt.then stays_current.balanced
    intro token
    split
    · exact .pure ⟨rfl, trivial⟩
    · exact .pure ⟨rfl, trivial⟩
    · exact .pure ⟨rfl, trivial⟩
    · exact .pure ⟨rfl, by simp [Statements.StopsForOther]⟩
    · exact turns_failFound (by simp)

theorem balances_statements : Balances K Statements.StopsForOther (statements g) :=
  .repeating (balances_nextStatement hg) []

theorem balanced_block : Balanced (block g) := by
  apply sees_currentSpan.turns
  intro span
  apply Turns.eatOpener _ (turns_failExpected _)
  rintro opener hopener rfl
  apply (balances_statements hg).then
  intro body hbody
  apply (turns_expectCloser hopener hbody).bind
  rintro closed _ rfl
  apply BalancedAt.then (stays_store _ _ _).balanced
  intro list
  exact (stays_node _ _).balanced

/-! ## Lists and branches -/

omit hg in
theorem balanced_commaRound (closing : Bracket) {item : Parser α} (hitem : Balanced item)
    (before : List α) : Balanced (commaRound closing item before) := by
  apply BalancedAt.then (stays_check _).balanced
  intro _
  apply BalancedAt.then (stays_check .eof).balanced
  intro _
  apply Turns.ite (balanced_pure _)
  apply BalancedAt.then hitem
  intro next
  apply BalancedAt.then balanced_skipNewlines
  intro _
  apply Turns.eatPlain
  · trivial
  · exact balanced_skipNewlines.then fun _ => balanced_pure _
  · exact balanced_pure _

omit hg in
theorem balanced_commaList (closing : Bracket) {item : Parser α} (hitem : Balanced item) :
    Balanced (commaList closing item) :=
  balanced_skipNewlines.then fun _ => balanced_repeating (balanced_commaRound closing hitem) []

theorem balanced_group : BalancedAt (Ahead (· = .mark (.opening .paren))) (group g) := by
  apply (turns_opener .paren).bind
  rintro opener _ ⟨rfl, hopener⟩
  apply BalancedAt.then balanced_skipNewlines
  intro _
  apply BalancedAt.then (hg .expr)
  intro inner
  apply (turns_expectCloser hopener (by simp)).bind
  rintro _ _ rfl
  exact balanced_pure inner

theorem balanced_listLiteral :
    BalancedAt (Ahead (· = .mark (.opening .square))) (listLiteral g) := by
  apply (turns_opener .square).bind
  rintro opener _ ⟨rfl, hopener⟩
  apply BalancedAt.then (balanced_commaList _ (hg .ternary))
  intro items
  apply (turns_expectCloser hopener (by simp)).bind
  rintro closed _ rfl
  apply BalancedAt.then (stays_store _ _ _).balanced
  intro list
  exact (stays_node _ _).balanced

theorem balanced_branch : Balanced (branch g) :=
  (hg .logical).then fun _ => (balanced_block hg).then fun _ => balanced_pure _

/-- The keyword of another branch stands behind the line breaks ahead. -/
theorem balanced_nextBranch (before : List Branch) : Balanced (nextBranch g before) := by
  apply sees_pastNewlines.turns
  intro kind
  split
  · apply Turns.behindNewlines
    · exact fun ahead h => .of_eq h.2 trivial
    · intro _
      exact (balanced_branch hg).then fun _ => balanced_pure _
  · apply Turns.behindNewlines
    · exact fun ahead h => .of_eq h.2 trivial
    · intro _
      exact (balanced_block hg).then fun _ => balanced_pure _
  · exact balanced_pure _

theorem balanced_conditional : BalancedAt (Ahead TokenKind.Plain) (conditional g) := by
  apply BalancedAt.then balanced_advance
  intro _
  apply BalancedAt.then (balanced_branch hg)
  intro first
  apply BalancedAt.then (balanced_repeating (balanced_nextBranch hg) [first])
  intro all
  apply BalancedAt.then (stays_store _ _ _).balanced
  intro run
  exact balanced_nodeFrom _ _

theorem balanced_nextArm (before : List CaseArm × Option NodeId) :
    Balanced (nextArm g before) := by
  obtain ⟨arms, otherwise⟩ := before
  apply BalancedAt.then balanced_skipNewlines
  intro _
  apply Turns.eatKeyword
  · apply BalancedAt.then (hg .factor)
    intro pattern
    exact (balanced_block hg).then fun _ => balanced_pure _
  · apply (stays_checkKeyword .default).turns
    intro found
    cases found with
    | false => exact balanced_pure _
    | true =>
      rw [if_pos rfl]
      apply Turns.ite
      · apply BalancedAt.then stays_currentSpan.balanced.anywhere
        intro _
        exact .fault (by simp)
      · apply Turns.take
        · exact fun ahead h => .of_isKeyword h.2.symm
        · intro _
          exact (balanced_block hg).then fun _ => balanced_pure _

theorem balanced_caseOf : BalancedAt (Ahead TokenKind.Plain) (caseOf g) := by
  apply BalancedAt.then balanced_advance
  intro _
  apply BalancedAt.then (hg .logical)
  intro subject
  apply sees_currentSpan.turns
  intro span
  apply Turns.eatOpener _ (turns_failExpected _)
  rintro opener hopener rfl
  apply BalancedAt.then (balanced_repeating (balanced_nextArm hg) ([], none))
  intro all
  apply (turns_expectCloser hopener (by simp)).bind
  rintro closed _ rfl
  apply BalancedAt.then (stays_store _ _ _).balanced
  intro run
  exact balanced_nodeFrom _ _

/-! ## Loops and functions -/

theorem balanced_loopBody (label : Option Name) : Balanced (loopBody g label) :=
  .withLoops (balanced_block hg)

theorem balanced_loopBounds : Balanced (loopBounds g) := by
  apply BalancedAt.then (hg .sum)
  intro bound
  apply Turns.eatKeyword
  · exact (hg .sum).then fun _ => balanced_pure _
  · exact balanced_pure _

theorem balanced_loopStep : Balanced (loopStep g) :=
  .eatKeyword (balanced_some (hg .sum)) (balanced_pure _)

omit hg in
theorem balanced_loopCounter : Balanced loopCounter := by
  apply Turns.eatPlain
  · trivial
  · exact balanced_some (balanced_identifier (by simp))
  · exact balanced_pure _

theorem balanced_iterate (label : Option Name) (start : Span) :
    BalancedAt (Ahead TokenKind.Plain) (iterate g label start) := by
  apply BalancedAt.then balanced_advance
  intro _
  apply BalancedAt.then (balanced_loopBounds hg)
  intro bounds
  apply BalancedAt.then (balanced_loopStep hg)
  intro step
  apply BalancedAt.then balanced_loopCounter
  intro counter
  apply BalancedAt.then (balanced_loopBody hg label)
  intro body
  exact balanced_nodeFrom _ _

theorem balanced_whileLoop (label : Option Name) (start : Span) :
    BalancedAt (Ahead TokenKind.Plain) (whileLoop g label start) := by
  apply BalancedAt.then balanced_advance
  intro _
  apply BalancedAt.then (hg .logical)
  intro condition
  apply BalancedAt.then (balanced_loopBody hg label)
  intro body
  exact balanced_nodeFrom _ _

theorem balanced_labelledLoop : BalancedAt (Ahead TokenKind.Plain) (labelledLoop g) := by
  apply BalancedAt.then balanced_advance
  intro _
  apply BalancedAt.then (balanced_identifier (by simp))
  intro label
  apply sees_current.turns
  intro token
  split
  next h => exact Balances.looked h (balanced_iterate hg _ _) trivial
  next h => exact Balances.looked h (balanced_whileLoop hg _ _) trivial
  next =>
    apply BalancedAt.then stays_describeCurrent.balanced
    intro _
    apply BalancedAt.then stays_currentSpan.balanced
    intro _
    exact .fault (by simp)

theorem balanced_parameterDefault (name : Name) : Balanced (parameterDefault g name) := by
  apply sees_current.turns
  intro token
  split
  next h =>
    apply Turns.takeSeen h trivial
    intro _
    exact balanced_some (hg .ternary)
  next h =>
    apply Turns.takeSeen h trivial
    intro _
    apply BalancedAt.then (stays_textOf name).balanced
    intro _
    apply BalancedAt.then (stays_warn _ _ _).balanced
    intro _
    exact balanced_some (hg .ternary)
  next => exact balanced_pure _

theorem balanced_parameter : Balanced (parameter g) := by
  apply sees_current.turns
  intro token
  split
  · exact turns_failFound (by simp)
  next type h =>
    have hplain : token.kind.Plain := by
      cases hkind : token.kind with
      | mark mark => simp [declaredTypeOf, hkind] at h
      | _ => trivial
    apply Turns.takeSeen rfl hplain
    intro _
    apply BalancedAt.then (balanced_identifier (by simp))
    intro name
    apply BalancedAt.then (balanced_parameterDefault hg name)
    intro default
    exact (stays_spanFrom _).balanced.then fun _ => balanced_pure _

omit hg in
theorem balanced_functionName : Balanced functionName := by
  apply sees_current.turns
  intro token
  split
  next h => exact .takeSeen h trivial fun _ => balanced_pure _
  next => exact balanced_pure _

theorem balanced_function : BalancedAt (Ahead TokenKind.Plain) (function g) := by
  apply BalancedAt.then balanced_advance
  intro _
  apply BalancedAt.then balanced_functionName
  intro name
  apply sees_currentSpan.turns
  intro span
  apply Turns.eatOpener _ (turns_failExpected _)
  rintro opener hopener rfl
  apply BalancedAt.then (balanced_commaList _ (balanced_parameter hg))
  intro params
  apply (turns_expectCloser hopener (by simp)).bind
  rintro closed _ rfl
  apply BalancedAt.then (balanced_block hg).withLoops
  intro body
  apply BalancedAt.then (stays_store _ _ _).balanced
  intro run
  exact balanced_nodeFrom _ _

omit hg in
theorem balanced_literal (expr : Expr) : BalancedAt (Ahead TokenKind.Plain) (literal expr) :=
  balanced_advance.then fun _ => (stays_node _ _).balanced

theorem balanced_atom : Balanced (atom g) := by
  apply sees_current.turns
  intro token
  split
  next h => exact Balances.looked h (balanced_literal _) trivial
  next h => exact Balances.looked h (balanced_literal _) trivial
  next h => exact Balances.looked h (balanced_literal _) trivial
  next h => exact Balances.looked h (balanced_literal _) trivial
  next h => exact Balances.looked h (balanced_group hg) rfl
  next h => exact Balances.looked h (balanced_listLiteral hg) rfl
  next h => exact Balances.looked h (balanced_labelledLoop hg) trivial
  next h => exact Balances.looked h (balanced_conditional hg) trivial
  next h => exact Balances.looked h (balanced_caseOf hg) trivial
  next h => exact Balances.looked h (balanced_iterate hg _ _) trivial
  next h => exact Balances.looked h (balanced_whileLoop hg _ _) trivial
  next h => exact Balances.looked h (balanced_function hg) trivial
  next => exact turns_failFound (by simp)

/-! ## Operators behind an expression -/

omit hg in
theorem balanced_argumentName : Balanced argumentName := by
  apply sees_current.turns
  intro token
  apply sees_peek.turns
  intro behind
  split
  next h =>
    refine Turns.mono (Turns.takeTwo fun _ _ => balanced_pure _) (fun ahead hs => ?_) fun _ _ h => h
    exact ⟨.of_eq ((congrArg Token.kind hs.1.2).trans h) trivial, .of_eq hs.2 trivial⟩
  next h =>
    refine Turns.mono (Turns.takeTwo fun _ second => ?_) (fun ahead hs => ?_) fun _ _ h => h
    · exact (stays_textOf _).balanced.then fun _ => (stays_warn _ _ _).balanced.then fun _ =>
        balanced_pure _
    · exact ⟨.of_eq ((congrArg Token.kind hs.1.2).trans h) trivial, .of_eq hs.2 trivial⟩
  next => exact balanced_pure _

theorem balanced_argument : Balanced (argument g) := by
  apply BalancedAt.then stays_currentSpan.balanced
  intro start
  apply BalancedAt.then balanced_argumentName
  intro name
  apply BalancedAt.then (hg .ternary)
  intro value
  exact (stays_spanFrom _).balanced.then fun _ => balanced_pure _

theorem balanced_call (callee : NodeId) :
    BalancedAt (Ahead (· = .mark (.opening .paren))) (call g callee) := by
  apply (turns_opener .paren).bind
  rintro opener _ ⟨rfl, hopener⟩
  apply BalancedAt.then (balanced_commaList _ (balanced_argument hg))
  intro args
  apply (turns_expectCloser hopener (by simp)).bind
  rintro closed _ rfl
  apply BalancedAt.then (stays_store _ _ _).balanced
  intro run
  exact balanced_nodeBetween _ _ _

theorem balanced_indexSpec : Balanced (indexSpec g) := by
  apply BalancedAt.then (hg .ternary)
  intro first
  apply Turns.eatKeyword
  · exact (hg .ternary).then fun _ => balanced_pure _
  · exact balanced_pure _

theorem balanced_nextSpec (before : List IndexSpec) : Balanced (nextSpec g before) := by
  apply BalancedAt.then (balanced_indexSpec hg)
  intro spec
  apply BalancedAt.then balanced_skipNewlines
  intro _
  apply Turns.eatPlain
  · trivial
  · exact balanced_skipNewlines.then fun _ => balanced_pure _
  · exact balanced_pure _

theorem balanced_index (target : NodeId) :
    BalancedAt (Ahead (· = .mark (.opening .square))) (index g target) := by
  apply (turns_opener .square).bind
  rintro opener _ ⟨rfl, hopener⟩
  apply BalancedAt.then balanced_skipNewlines
  intro _
  apply Turns.eatCloser hopener
  · exact balanced_pure target
  · apply BalancedAt.then (balanced_repeating (balanced_nextSpec hg) [])
    intro specs
    apply (turns_expectCloser hopener (by simp)).bind
    rintro closed _ rfl
    apply BalancedAt.then (stays_store _ _ _).balanced
    intro run
    exact balanced_nodeBetween _ _ _

omit hg in
theorem balanced_member (target : NodeId) :
    BalancedAt (Ahead TokenKind.Plain) (member target) := by
  apply BalancedAt.then balanced_advance
  intro _
  apply BalancedAt.then (balanced_identifier (by simp))
  intro name
  exact balanced_nodeFromNode _ _

omit hg in
theorem balanced_cast (operand : NodeId) : BalancedAt (Ahead TokenKind.Plain) (cast operand) := by
  apply BalancedAt.then balanced_advance
  intro _
  apply sees_current.turns
  intro token
  split
  · exact turns_failFound (by simp)
  next type h =>
    have hplain : token.kind.Plain := by
      cases hkind : token.kind with
      | mark mark => simp [valueTypeOf, hkind] at h
      | _ => trivial
    apply Turns.takeSeen rfl hplain
    intro _
    exact balanced_nodeFromNode _ _

theorem balanced_nextPostfix (target : NodeId) : Balanced (nextPostfix g target) := by
  apply sees_current.turns
  intro token
  split
  next h => exact balanced_map (Balances.looked h (balanced_call hg _) rfl)
  next h => exact balanced_map (Balances.looked h (balanced_index hg _) rfl)
  next h => exact balanced_map (Balances.looked h (balanced_member _) trivial)
  next h => exact balanced_map (Balances.looked h (balanced_cast _) trivial)
  next => exact balanced_pure _

theorem balanced_suffixed : Balanced (suffixed g) :=
  (balanced_atom hg).then fun target => balanced_repeating (balanced_nextPostfix hg) target

/-! ## Operators -/

omit hg in
theorem balanced_binary (op : BinaryOp) (left right : NodeId) :
    BalancedAt K (binary op left right) := by
  apply BalancedAt.then (stays_spanOf _).balanced
  intro _
  apply BalancedAt.then (stays_spanOf _).balanced
  intro _
  exact (stays_node _ _).balanced

omit hg in
theorem balanced_chain {operand : Parser NodeId} (hoperand : Balanced operand)
    {operator? : TokenKind → Option BinaryOp}
    (hoperator : ∀ kind op, operator? kind = some op → kind.Plain) :
    Balanced (chain operand operator?) := by
  apply BalancedAt.then hoperand
  intro first
  apply balanced_repeating
  intro left
  apply sees_current.turns
  intro token
  split
  next op h =>
    apply Turns.takeSeen rfl (hoperator _ op h)
    intro _
    apply BalancedAt.then hoperand
    intro right
    exact balanced_map (balanced_binary op left right)
  next => exact balanced_pure _

theorem balanced_power : Balanced (power g) := by
  apply BalancedAt.then (balanced_suffixed hg)
  intro base
  apply Turns.eatPlain
  · trivial
  · exact (hg .factor).then fun exponent => balanced_binary _ base exponent
  · exact balanced_pure _

omit hg in
theorem plain_of_signOp? {kind : TokenKind} {op : UnaryOp} (h : signOp? kind = some op) :
    kind.Plain := by
  unfold signOp? at h
  split at h <;> trivial

theorem balanced_factor : Balanced (factor g) := by
  apply sees_current.turns
  intro token
  split
  next op h =>
    apply Turns.takeSeen rfl (plain_of_signOp? h)
    intro _
    apply BalancedAt.then (hg .factor)
    intro operand
    exact balanced_nodeFrom _ _
  next => exact Balances.anywhere (balanced_power hg)

omit hg in
theorem plain_of_productOp? (kind : TokenKind) (op : BinaryOp) (h : productOp? kind = some op) :
    kind.Plain := by
  unfold productOp? at h
  split at h <;> trivial

omit hg in
theorem plain_of_sumOp? (kind : TokenKind) (op : BinaryOp) (h : sumOp? kind = some op) :
    kind.Plain := by
  unfold sumOp? at h
  split at h <;> trivial

omit hg in
theorem plain_of_comparisonOp? (kind : TokenKind) (op : BinaryOp)
    (h : comparisonOp? kind = some op) : kind.Plain := by
  unfold comparisonOp? at h
  split at h <;> trivial

omit hg in
theorem plain_of_logicalOp? (kind : TokenKind) (op : BinaryOp) (h : logicalOp? kind = some op) :
    kind.Plain := by
  unfold logicalOp? at h
  split at h <;> trivial

theorem balanced_sum : Balanced (sum g) :=
  balanced_chain (balanced_chain (balanced_factor hg) plain_of_productOp?) plain_of_sumOp?

theorem balanced_negation : Balanced (negation g) := by
  apply (stays_checkKeyword .not).turns
  intro found
  cases found with
  | false => exact Balances.anywhere (balanced_chain (balanced_sum hg) plain_of_comparisonOp?)
  | true =>
    apply Turns.take
    · exact fun ahead h => .of_isKeyword h.2.symm
    · intro _
      apply BalancedAt.then (hg .negation)
      intro operand
      exact balanced_nodeFrom _ _

theorem balanced_logical : Balanced (logical g) :=
  balanced_chain (balanced_negation hg) plain_of_logicalOp?

theorem balanced_positiveBranch (condition : NodeId) : Balanced (positiveBranch g condition) := by
  apply BalancedAt.then (stays_check _).balanced
  intro _
  apply Turns.ite
  · apply BalancedAt.then (stays_isBoolCast _).balanced
    intro _
    exact .ite (balanced_pure _) (turns_failFound (by simp))
  · exact balanced_some (hg .ternary)

theorem balanced_negativeBranch (positive : Option NodeId) :
    Balanced (negativeBranch g positive) := by
  apply Turns.eatPlain
  · trivial
  · apply BalancedAt.then stays_atBoundary.balanced
    intro _
    exact .ite (balanced_pure _) (balanced_some (hg .ternary))
  · apply BalancedAt.then stays_atBoundary.balanced
    intro _
    exact .ite (balanced_pure _) (turns_failExpected _)

theorem balanced_ternary : Balanced (ternary g) := by
  apply BalancedAt.then (balanced_logical hg)
  intro condition
  apply Turns.eatPlain
  · trivial
  · apply BalancedAt.then (balanced_positiveBranch hg condition)
    intro positive
    apply BalancedAt.then (balanced_negativeBranch hg positive)
    intro negative
    exact balanced_nodeFromNode _ _
  · exact balanced_pure _

/-! ## Bindings -/

theorem balanced_initializer (type : DeclaredType) : Balanced (initializer g type) := by
  apply sees_current.turns
  intro token
  split
  next h =>
    apply Turns.takeSeen h trivial
    intro _
    exact (hg .expr).then fun _ => balanced_pure _
  next => exact turns_failFound (by simp)
  next => exact .ite (turns_failFound (by simp)) (balanced_pure _)

theorem balanced_declaration (type : DeclaredType) :
    BalancedAt (Ahead TokenKind.Plain) (declaration g type) := by
  apply BalancedAt.then balanced_advance
  intro _
  apply BalancedAt.then (balanced_identifier (by simp))
  intro name
  apply BalancedAt.then (balanced_initializer hg type)
  intro value
  exact balanced_nodeFrom _ _

theorem balanced_assignment (name : Name) (op : AssignOp) (yields : Bool) :
    BalancedAt (fun ahead => Ahead TokenKind.Plain ahead ∧ Ahead TokenKind.Plain ahead.tail)
      (assignment g name op yields) := by
  apply Turns.takeTwo
  intro first second
  apply BalancedAt.then (hg .expr)
  intro value
  exact balanced_nodeFrom _ _

theorem balanced_expr : Balanced (expr g) := by
  apply sees_current.turns
  intro token
  apply sees_peek.turns
  intro behind
  split
  next word h =>
    split
    · apply Balances.narrow (balanced_declaration hg _)
      exact fun ahead hs => .of_eq ((congrArg Token.kind hs.1.2).trans h) trivial
    · exact Balances.anywhere (balanced_ternary hg)
  next h =>
    apply Balances.narrow (balanced_assignment hg _ _ _)
    exact fun ahead hs =>
      ⟨.of_eq ((congrArg Token.kind hs.1.2).trans h) trivial, .of_eq hs.2 trivial⟩
  next => exact Balances.anywhere (balanced_ternary hg)

theorem balanced_production (place : Place) : Balanced (production g place) := by
  cases place with
  | expr => exact balanced_expr hg
  | ternary => exact balanced_ternary hg
  | logical => exact balanced_logical hg
  | negation => exact balanced_negation hg
  | sum => exact balanced_sum hg
  | factor => exact balanced_factor hg

end

/-! ## Programs -/

theorem grammar_balanced (level : Nat) : Grammar.Balanced (grammar level) := by
  induction level with
  | zero => exact fun place c s _ => ⟨[], .of_same rfl [], trivial⟩
  | succ level ih =>
    intro place c s hs
    simpa only [grammar, atLevel_eq] using balanced_production ih place c s hs

/-- A closer that has no opener is the next token if it is at fault, and without a fault the input
ends. -/
def Accounts (ahead : List Token) : Option Diagnostic → Prop
  | none => (ahead.headD eofToken).kind = .mark .eof
  | some d => d.code = .unmatchedBracket →
    ∃ bracket, (ahead.headD eofToken).kind = .mark (.closing bracket) ∧
      d = unmatchedBracket (ahead.headD eofToken).span bracket.closer bracket.opener

theorem sees_strayToken {stopped : Option Diagnostic}
    (hstopped : ∀ d, stopped = some d → d.code ≠ .unmatchedBracket) :
    Sees K (fun ahead d => Accounts ahead (some d)) (strayToken stopped) := by
  apply sees_current.bind
  intro token
  split
  · rename_i bracket hkind
    apply Sees.pure
    rintro ahead ⟨-, rfl⟩ _
    exact ⟨bracket, hkind, rfl⟩
  · exact .pure fun _ _ hcode => absurd hcode (hstopped _ rfl)
  · exact sees_describeCurrent.bind fun _ => .pure fun _ _ hcode => by cases hcode

/-- The statements of a program close what they open. A fault behind them is about the next
token. -/
theorem programBody_run (hg : Grammar.Balanced g) (c : ParseContext) (s : ParseState) :
    match programBody g c s with
    | .done taken (_, error) t => Passes [] s taken t [] ∧ Accounts t.ahead error
    | .failed taken e t => ∃ closed, Passes [] s taken t closed ∧ e.Blames t.ahead closed := by
  have hbody := balances_statements hg (K := fun _ => True) c s trivial
  unfold programBody
  cases hrun : statements g c s with
  | failed taken e t =>
    rw [hrun] at hbody
    rw [bind_of_failed hrun]
    exact hbody
  | done taken body t =>
    rw [hrun] at hbody
    obtain ⟨_, hpass, rfl, hstopped⟩ := hbody
    have hend : isAtEnd c t = .done false (t.kind.isMark .eof) t := rfl
    rw [bind_of_done hrun, bind_of_done hend, ParseReply.after_false]
    cases hkind : t.kind.isMark .eof with
    | true =>
      rw [if_pos rfl]
      exact ⟨by simpa using hpass, TokenKind.isMark_iff.mp hkind⟩
    | false =>
      obtain ⟨d, hstray, hd⟩ := sees_strayToken hstopped (K := fun _ => True) c t trivial
      rw [if_neg Bool.false_ne_true, bind_of_done hstray]
      exact ⟨by simpa using hpass, hd⟩

end Parser

/-! ## Token lists -/

/-- Whether only the last token is the end of the input. -/
def EndsOnce (tokens : List Token) : Prop :=
  ∃ inner last, tokens = inner ++ [last] ∧ last.kind = .mark .eof ∧
    ∀ token ∈ inner, token.kind ≠ .mark .eof

/-- A diagnostic names an opener that has no closer. -/
def Unclosed (tokens : List Token) (d : Diagnostic) : Prop :=
  ∃ opener outer bracket, openBrackets [] tokens = some (opener :: outer) ∧
    opener.kind = .mark (.opening bracket) ∧
    d = Parser.unmatchedBracket opener.span bracket.opener bracket.closer

/-- A diagnostic names a closer that has no opener. -/
def Stray (tokens : List Token) (d : Diagnostic) : Prop :=
  ∃ before closer after bracket, tokens = before ++ closer :: after ∧
    openBrackets [] before = some [] ∧ closer.kind = .mark (.closing bracket) ∧
    d = Parser.unmatchedBracket closer.span bracket.closer bracket.opener

variable {tokens gone ahead closed : List Token}

theorem Unclosed.depth {d : Diagnostic} (h : Unclosed tokens d) : 0 < bracketDepth tokens := by
  obtain ⟨opener, outer, bracket, hopen, -, -⟩ := h
  have hlength := length_openBrackets hopen
  rw [List.length_cons, List.length_nil] at hlength
  omega

/-- A diagnostic that names an opener is not one that names a closer. -/
theorem unmatched_opener_ne (span other : Span) (one two : Bracket) :
    Parser.unmatchedBracket span one.opener one.closer ≠
      Parser.unmatchedBracket other two.closer two.opener := by
  intro h
  have hargs : [s!"'{one.opener}'", s!"'{one.closer}'"] =
      [s!"'{two.closer}'", s!"'{two.opener}'"] :=
    congrArg Diagnostic.args h
  revert hargs
  cases one <;> cases two <;> decide

theorem openBrackets_atEnd (hends : EndsOnce tokens) (htokens : tokens = gone ++ ahead)
    (hend : (ahead.headD Parser.eofToken).kind = .mark .eof)
    (hclosed : openBrackets [] gone = some closed) : openBrackets [] tokens = some closed := by
  cases ahead with
  | nil => rw [htokens, List.append_nil, hclosed]
  | cons token rest =>
    replace hend : token.kind = .mark .eof := hend
    rcases List.eq_nil_or_concat rest with rfl | ⟨more, final, rfl⟩
    · rw [htokens, openBrackets_append, hclosed, Option.bind_some, openBrackets_singleton,
        openBehind_eof hend]
    · obtain ⟨inner, last, htoken, -, hinner⟩ := hends
      rw [htokens, List.concat_eq_append, ← List.cons_append, ← List.append_assoc] at htoken
      obtain ⟨rfl, -⟩ := List.append_inj' htoken rfl
      exact absurd hend (hinner token (by simp))

/-- What a parse says about the brackets of its tokens. -/
def Judges (tokens : List Token) : Option Diagnostic → Prop
  | none => WellNested tokens
  | some d => d.code = .unmatchedBracket → Unclosed tokens d ∨ Stray tokens d

theorem finishParse_error {context : ParseContext} {start : Span} {nodes : List NodeId}
    {error : Option Diagnostic} {s : ParseState} {result : ParseResult}
    (h : finishParse context start nodes error s = .ok result) : result.error = error := by
  rw [finishParse_eq] at h
  split at h
  · cases h
    rfl
  · cases h

theorem parse_judges (hends : EndsOnce tokens) {names : Interner} {result : ParseResult}
    (h : parse tokens names = .ok result) : Judges tokens result.error := by
  rw [parse_eq, measuredParse] at h
  generalize levelsFor (tokens.length + 1) = levels at h
  have hbody := Parser.programBody_run (Parser.grammar_balanced levels) ⟨names, [], tokens.length⟩
    ⟨tokens, none, Arena.empty, #[]⟩
  cases hrun : Parser.programBody (Parser.grammar levels) ⟨names, [], tokens.length⟩
      ⟨tokens, none, Arena.empty, #[]⟩ with
  | done taken body s =>
    rw [hrun] at hbody h
    obtain ⟨⟨gone, htokens, -, hclosed⟩, haccounts⟩ := hbody
    rw [finishParse_error h]
    cases herror : body.2 with
    | none =>
      rw [herror] at haccounts
      exact openBrackets_atEnd hends htokens haccounts hclosed
    | some d =>
      rw [herror] at haccounts
      intro hcode
      obtain ⟨bracket, hkind, hd⟩ := haccounts hcode
      cases hahead : s.ahead with
      | nil =>
        rw [hahead] at hkind
        cases hkind
      | cons closer after =>
        rw [hahead] at hkind hd htokens
        exact .inr ⟨gone, closer, after, bracket, htokens, hclosed, hkind, hd⟩
  | failed taken e s =>
    rw [hrun] at hbody h
    obtain ⟨closed, ⟨gone, htokens, -, hclosed⟩, hblames⟩ := hbody
    cases e with
    | tooLong count => cases h
    | exhausted => cases h
    | fault d =>
      rw [finishParse_error h]
      intro hcode
      obtain ⟨hend, opener, outer, bracket, rfl, hopener, hd⟩ := hblames hcode
      have hall := openBrackets_atEnd hends htokens (TokenKind.isMark_iff.mp hend) hclosed
      exact .inl ⟨opener, outer, bracket, hall, hopener, hd⟩

end ExprScript
