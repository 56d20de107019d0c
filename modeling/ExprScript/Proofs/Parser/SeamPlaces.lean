import ExprScript.Proofs.Parser.SeamBlocks

/-!
# Productions in front of a line break

Given parsers for nested expressions that go on alike, each production does so, too: where it
succeeds at the end of one token list it does the same where the list goes on behind a line break.
-/
namespace ExprScript

/-- A kind of token that ends what is in front of it, and begins no expression. -/
def TokenKind.Ends (kind : TokenKind) : Prop :=
  kind = .mark .eof ∨ kind = .keyword .elifWord ∨ kind = .keyword .elseWord

namespace Seam

open Renumbers ExprScript.Parser

section
variable {α : Type} [Renumbers α] {J : Seam} {w b : Bool} {K : ParseState → Prop}
  {g g' : Grammar} {p q : Parser α}

variable (hg : J.Grammars g g')
include hg

/-! ## Lists and branches -/

omit hg in
theorem follows_commaRound (closing : Bracket) (h : J.Follows true b (fun _ => True) p q)
    (before : List α) : J.Follows true b K (commaRound closing p before)
      (commaRound closing q (J.shift before)) := by
  refine .check (by simp) fun found => .atEnd ?_ fun ended => .ite (.pure ?_) ?_
  · intro c s taken r t hrun
    rw [Bool.or_true, if_pos rfl] at hrun
    cases hrun
    rfl
  · exact congrArg Sum.inr (shift_reverse before)
  · refine h.anywhere.bind fun next => follows_skipNewlines.bind fun _ => ?_
    refine .eat (by simp) (follows_skipNewlines.bind fun _ => .pure rfl) (.pure ?_)
    exact congrArg Sum.inr (shift_reverse (next :: before))

omit hg in
theorem follows_commaList (closing : Bracket) (h : J.Follows true b (fun _ => True) p q) :
    J.Follows true b K (commaList closing p) (commaList closing q) :=
  follows_skipNewlines.bind fun _ => .repeating (fun before => follows_commaRound closing h before) []

theorem follows_group (hK : ∀ s, K s → s.kind.Takable) :
    J.Follows w b K (group g) (group g') := by
  refine .advance hK fun opened => ?_
  refine follows_skipNewlines.closing (fun _ => ?_) fun _ => (hg.stuck .expr).bind
  exact (hg.at .expr).bind fun _ => (follows_expectCloser _ _).bind fun _ => .pure rfl

theorem follows_listLiteral (hK : ∀ s, K s → s.kind.Takable) :
    J.Follows w b K (listLiteral g) (listLiteral g') := by
  refine .advance hK fun opened => ?_
  refine (follows_commaList _ (hg.at .ternary)).closing (fun items => ?_) fun _ =>
    (stuck_expectCloser _ _ _).bind
  refine (follows_expectCloser _ _).bind fun closed => (follows_storeList items).bind fun _ => ?_
  exact follows_node rfl _

theorem follows_branch : J.Follows w b K (branch g) (branch g') :=
  (hg.at .logical).bind fun _ => (follows_block hg).bind fun _ => .pure rfl

theorem follows_nextBranch (before : List Branch) :
    J.Follows w b K (nextBranch g before) (nextBranch g' (J.shift before)) := by
  have hnone : J.shift (Sum.inr (before.reverse, none) : List Branch ⊕ (List Branch × Option NodeId))
      = .inr ((J.shift before).reverse, none) := by
    rw [shift_reverse]
    rfl
  refine .pastNewlines (fun kind => ?_) fun kind hkind => ?_
  · split
    · refine follows_skipNewlines.closing (fun _ => ?_) fun _ => .advance fun _ =>
        (hg.stuck .logical).bind.bind
      refine .taking (fun _ => ?_) fun _ => (hg.stuck .logical).bind.bind
      exact (follows_branch hg).bind fun _ => .pure rfl
    · refine follows_skipNewlines.closing (fun _ => ?_) fun _ => .advance fun _ => stuck_block.bind
      refine .taking (fun _ => ?_) fun _ => stuck_block.bind
      refine (follows_block hg).bind fun _ => .pure ?_
      rw [shift_reverse]
      rfl
    · exact .pure hnone.symm
  · dsimp only
    split
    · exact absurd rfl hkind.1
    · exact absurd rfl hkind.2
    · exact .pure hnone.symm

theorem follows_conditional (hK : ∀ s, K s → s.kind.Takable) :
    J.Follows w b K (conditional g) (conditional g') := by
  refine .advance hK fun start => (follows_branch hg).bind fun first => ?_
  refine (Follows.repeating (fun before => follows_nextBranch hg before) [first]).bind ?_
  rintro ⟨all, otherwise⟩
  refine (follows_storeBranches all).bind fun _ => (follows_spanFrom _).bind fun _ => ?_
  exact follows_node rfl _

theorem follows_nextArm (before : List CaseArm × Option NodeId) :
    J.Follows true b K (nextArm g before) (nextArm g' (J.shift before)) := by
  obtain ⟨arms, otherwise⟩ := before
  change J.Follows true b K (nextArm g (arms, otherwise))
    (nextArm g' (J.shift arms, J.shift otherwise))
  refine follows_skipNewlines.bind fun _ => .eatKeyword ?_ (.checkKeyword fun found => ?_)
  · exact (hg.at .factor).bind fun _ => (follows_block hg).bind fun _ => .pure rfl
  cases found with
  | false =>
    refine .pure ?_
    rw [shift_reverse]
    rfl
  | true =>
    rw [if_pos rfl, if_pos rfl, isSome_shift]
    refine .ite (.currentSpan (fun _ => .fault) fun _ => .fail) ?_
    refine .advance (fun s hs => .of_isKeyword hs.2) fun _ => ?_
    exact (follows_block hg).anywhere.bind fun _ => .pure rfl

theorem follows_caseOf (hK : ∀ s, K s → s.kind.Takable) :
    J.Follows w b K (caseOf g) (caseOf g') := by
  refine .advance hK fun start => (hg.at .logical).bind fun subject => ?_
  refine .currentSpan (fun opened => ?_) fun _ => .eat (by simp) (stuck_failExpected _)
  refine .eat (by simp) ?_ (follows_failExpected _)
  refine (Follows.repeating (fun before => follows_nextArm hg before) ([], none)).closing ?_ ?_
  · rintro ⟨arms, otherwise⟩
    refine (follows_expectCloser _ _).bind fun _ => (follows_storeArms arms).bind fun _ => ?_
    exact (follows_spanFrom _).bind fun _ => follows_node rfl _
  · exact fun _ => (stuck_expectCloser _ _ _).bind

/-! ## Loops -/

theorem follows_loopBody (label : Option Name) :
    J.Follows w b K (loopBody g label) (loopBody g' label) :=
  .withLoops (follows_block hg)

theorem follows_loopBounds : J.Follows w b K (loopBounds g) (loopBounds g') :=
  (hg.at .sum).bind fun _ =>
    .eatKeyword ((hg.at .sum).bind fun _ => .pure rfl) (.pure rfl)

theorem follows_loopStep : J.Follows w b K (loopStep g) (loopStep g') :=
  .eatKeyword (follows_some (hg.at .sum)) (.pure rfl)

omit hg in
theorem follows_loopCounter : J.Follows w b K loopCounter loopCounter :=
  .eat (by simp) ((follows_identifier _).bind fun _ => .pure rfl) (.pure rfl)

theorem follows_iterate (hK : ∀ s, K s → s.kind.Takable) (label : Option Name) (start : Span) :
    J.Follows w b K (iterate g label start) (iterate g' label start) := by
  refine .advance hK fun _ => (follows_loopBounds hg).bind ?_
  rintro ⟨first, last⟩
  refine (follows_loopStep hg).bind fun step => follows_loopCounter.bind fun counter => ?_
  refine (follows_loopBody hg label).bind fun body => (follows_spanFrom _).bind fun _ => ?_
  exact follows_node rfl _

theorem follows_whileLoop (hK : ∀ s, K s → s.kind.Takable) (label : Option Name) (start : Span) :
    J.Follows w b K (whileLoop g label start) (whileLoop g' label start) :=
  .advance hK fun _ => (hg.at .logical).bind fun _ => (follows_loopBody hg label).bind fun _ =>
    (follows_spanFrom _).bind fun _ => follows_node rfl _

omit hg in
theorem takable_of_seen {token : Token} (htoken : token.kind.Takable) (s : ParseState)
    (hs : K s ∧ s.kind = token.kind) : s.kind.Takable := by
  rw [hs.2]
  exact htoken

theorem follows_labelledLoop (hK : ∀ s, K s → s.kind.Takable) :
    J.Follows w b K (labelledLoop g) (labelledLoop g') := by
  refine .advance hK fun start => (follows_identifier _).anywhere.bind fun label => ?_
  refine .current (fun token htoken => ?_) fun token hbreaks => ?_
  · split
    · exact follows_iterate hg (takable_of_seen htoken) _ _
    · exact follows_whileLoop hg (takable_of_seen htoken) _ _
    · refine .never fun c s taken v t _ hrun => ?_
      obtain ⟨_, _, _, _, -, hrun⟩ := done_of_bind hrun
      obtain ⟨_, _, _, _, -, hrun⟩ := done_of_bind hrun
      cases hrun
  · rw [J.ends]
    refine .never fun c s taken v t _ hrun => ?_
    obtain ⟨_, _, _, _, -, hrun⟩ := done_of_bind hrun
    obtain ⟨_, _, _, _, -, hrun⟩ := done_of_bind hrun
    cases hrun

/-! ## Functions -/

theorem follows_parameterDefault (name : Name) :
    J.Follows w b K (parameterDefault g name) (parameterDefault g' name) := by
  refine .current (fun token htoken => ?_) fun token hbreaks => ?_
  · split
    · exact .advance (takable_of_seen htoken) fun _ => follows_some (hg.at .ternary)
    · refine .advance (takable_of_seen htoken) fun sign => (follows_textOf _).bind fun _ => ?_
      exact (follows_warn _ _ _).bind fun _ => follows_some (hg.at .ternary)
    · exact .pure rfl
  · rcases hbreaks with hkind | hkind <;> rw [hkind, J.ends] <;> exact .pure rfl

theorem follows_parameter : J.Follows w b K (parameter g) (parameter g') := by
  refine .current (fun token htoken => ?_) fun token hbreaks => ?_
  · split
    · exact follows_failFound _
    · refine .advance (takable_of_seen htoken) fun _ => (follows_identifier _).bind fun name => ?_
      refine (follows_parameterDefault hg name).bind fun default => ?_
      exact (follows_spanFrom _).bind fun _ => .pure rfl
  · rw [J.ends]
    exact follows_failFound _

omit hg in
theorem follows_functionName : J.Follows w b K functionName functionName := by
  refine .current (fun token htoken => ?_) fun token hbreaks => ?_
  · split
    · exact .advance (takable_of_seen htoken) fun _ => .pure rfl
    · exact .pure rfl
  · rcases hbreaks with hkind | hkind <;> rw [hkind, J.ends] <;> exact .pure rfl

theorem follows_function (hK : ∀ s, K s → s.kind.Takable) :
    J.Follows w b K (function g) (function g') := by
  refine .advance hK fun start => follows_functionName.bind fun name => ?_
  refine .currentSpan (fun opened => ?_) fun _ => .eat (by simp) (stuck_failExpected _)
  refine .eat (by simp) ?_ (follows_failExpected _)
  refine (follows_commaList _ (follows_parameter hg)).closing (fun params => ?_) fun _ =>
    (stuck_expectCloser _ _ _).bind
  refine (follows_expectCloser _ _).bind fun _ => (follows_block hg).withLoops.bind fun body => ?_
  refine (follows_storeParams params).bind fun _ => (follows_spanFrom _).bind fun _ => ?_
  exact follows_node rfl _

/-! ## Atoms -/

omit hg in
theorem follows_literal (hK : ∀ s, K s → s.kind.Takable) {expr : Expr}
    (hexpr : expr = J.shift expr) : J.Follows w b K (literal expr) (literal expr) :=
  .advance hK fun _ => follows_node hexpr _

theorem follows_atom : J.Follows w b K (atom g) (atom g') := by
  refine .current (fun token htoken => ?_) fun token _ => ?_
  · have hK := fun s => takable_of_seen (K := K) htoken s
    split
    · exact follows_literal hK rfl
    · exact follows_literal hK rfl
    · exact follows_literal hK rfl
    · exact follows_literal hK rfl
    · exact follows_group hg hK
    · exact follows_listLiteral hg hK
    · exact follows_labelledLoop hg hK
    · exact follows_conditional hg hK
    · exact follows_caseOf hg hK
    · exact follows_iterate hg hK _ _
    · exact follows_whileLoop hg hK _ _
    · exact follows_function hg hK
    · exact follows_failFound _
  · rw [J.ends]
    exact follows_failFound _

/-! ## Operators behind an expression -/

omit hg in
theorem follows_argumentName : J.Follows w b K argumentName argumentName := by
  refine .current (fun token htoken => ?_) fun token hbreaks => .peekAny fun kind kind' => ?_
  · refine .peek (takable_of_seen htoken) (fun kind => ?_) fun kind hbreaks => ?_
    · split
      · refine .advanceTwice (fun s hs => ⟨takable_of_seen htoken s hs.1, ?_⟩) fun _ _ => .pure rfl
        rw [hs.2]
        rfl
      · refine .advanceTwice (fun s hs => ⟨takable_of_seen htoken s hs.1, ?_⟩) fun _ sign => ?_
        · rw [hs.2]
          rfl
        · exact (follows_textOf _).bind fun _ => (follows_warn _ _ _).bind fun _ => .pure rfl
      · exact .pure rfl
    · rcases hbreaks with rfl | rfl <;> cases token.kind <;> exact .pure rfl
  · rcases hbreaks with hkind | hkind <;> rw [hkind, J.ends] <;> exact .pure rfl

theorem follows_argument : J.Follows w true K (argument g) (argument g') := by
  refine .currentSpan (fun start => ?_) fun start => ?_
  · refine follows_argumentName.bind fun name => (hg.at .ternary).bind fun value => ?_
    exact (follows_spanFrom _).bind fun _ => .pure rfl
  · exact .behind (follows_argumentName (w := false) (b := true)) fun _ => (hg.stuck .ternary).bind

theorem follows_call (hK : ∀ s, K s → s.kind.Takable) (callee : NodeId) :
    J.Follows w b K (call g callee) (call g' (J.shift callee)) := by
  refine .advance hK fun opened => ?_
  refine (follows_commaList _ (follows_argument hg)).closing (fun args => ?_) fun _ =>
    (stuck_expectCloser _ _ _).bind
  refine (follows_expectCloser _ _).bind fun closed => (follows_storeArgs args).bind fun _ => ?_
  exact (follows_spanOf callee).bind fun _ => follows_node rfl _

theorem follows_indexSpec : J.Follows w b K (indexSpec g) (indexSpec g') :=
  (hg.at .ternary).bind fun _ =>
    .eatKeyword ((hg.at .ternary).bind fun _ => .pure rfl) (.pure rfl)

theorem follows_nextSpec (before : List IndexSpec) :
    J.Follows true b K (nextSpec g before) (nextSpec g' (J.shift before)) := by
  refine (follows_indexSpec hg).bind fun spec => follows_skipNewlines.bind fun _ => ?_
  refine .eat (by simp) (follows_skipNewlines.bind fun _ => .pure rfl) (.pure ?_)
  exact congrArg Sum.inr (shift_reverse (spec :: before))

theorem follows_index (hK : ∀ s, K s → s.kind.Takable) (target : NodeId) :
    J.Follows w b K (index g target) (index g' (J.shift target)) := by
  refine .advance hK fun opened => ?_
  refine follows_skipNewlines.closing (fun _ => ?_) fun _ => .eat (by simp) ?_
  · refine .eat (by simp) (.pure rfl) ?_
    refine (Follows.repeating (fun before => follows_nextSpec hg before) []).closing (fun specs => ?_)
      fun _ => (stuck_expectCloser _ _ _).bind
    refine (follows_expectCloser _ _).bind fun closed => (follows_storeSpecs specs).bind fun _ => ?_
    exact (follows_spanOf target).bind fun _ => follows_node rfl _
  · exact (Stuck.repeating (fun _ => (hg.stuck .ternary).bind.bind) []).bind

omit hg in
theorem follows_member (hK : ∀ s, K s → s.kind.Takable) (target : NodeId) :
    J.Follows w b K (member target) (member (J.shift target)) :=
  .advance hK fun _ => (follows_identifier _).bind fun _ => (follows_spanOf target).bind fun _ =>
    (follows_spanFrom _).bind fun _ => follows_node rfl _

omit hg in
theorem follows_cast (hK : ∀ s, K s → s.kind.Takable) (operand : NodeId) :
    J.Follows w b K (cast operand) (cast (J.shift operand)) := by
  refine .advance hK fun _ => .current (fun token htoken => ?_) fun token _ => ?_
  · split
    · exact follows_failFound _
    · refine .advance (takable_of_seen htoken) fun _ => (follows_spanOf operand).bind fun _ => ?_
      exact (follows_spanFrom _).bind fun _ => follows_node rfl _
  · rw [J.ends]
    exact follows_failFound _

theorem follows_nextPostfix (target : NodeId) :
    J.Follows w b K (nextPostfix g target) (nextPostfix g' (J.shift target)) := by
  refine .current (fun token htoken => ?_) fun token hbreaks => ?_
  · have hK := fun s => takable_of_seen (K := K) htoken s
    split
    · exact (follows_call hg hK target).map fun _ => rfl
    · exact (follows_index hg hK target).map fun _ => rfl
    · exact (follows_member hK target).map fun _ => rfl
    · exact (follows_cast hK target).map fun _ => rfl
    · exact .pure rfl
  · rcases hbreaks with hkind | hkind <;> rw [hkind, J.ends] <;> exact .pure rfl

theorem follows_suffixed : J.Follows w b K (suffixed g) (suffixed g') :=
  (follows_atom hg).bind fun target => .repeating (fun left => follows_nextPostfix hg left) target

/-! ## Operators -/

omit hg in
theorem follows_binary (op : BinaryOp) (left right : NodeId) :
    J.Follows w b K (binary op left right) (binary op (J.shift left) (J.shift right)) :=
  (follows_spanOf left).bind fun _ => (follows_spanOf right).bind fun _ => follows_node rfl _

omit hg in
theorem follows_chain {operand operand' : Parser NodeId}
    (h : ∀ w b, J.Follows w b (fun _ => True) operand operand')
    {operator? : TokenKind → Option BinaryOp}
    (hbreaks : ∀ kind, kind.Breaks → operator? kind = none) :
    J.Follows w b K (chain operand operator?) (chain operand' operator?) := by
  refine (h w b).anywhere.bind fun first => .repeating (fun left => ?_) first
  refine .current (fun token htoken => ?_) fun token hkind => ?_
  · split
    · refine .advance (takable_of_seen htoken) fun _ => (h w true).anywhere.bind fun right => ?_
      exact (follows_binary _ left right).map fun _ => rfl
    · exact .pure rfl
  · rw [hbreaks _ (.inr J.ends), hbreaks _ hkind]
    exact .pure rfl

theorem follows_power : J.Follows w b K (power g) (power g') := by
  refine (follows_suffixed hg).bind fun base => .eat (by simp) ?_ (.pure rfl)
  exact (hg.at .factor).bind fun exponent => follows_binary _ base exponent

theorem follows_factor : J.Follows w b K (factor g) (factor g') := by
  refine .current (fun token htoken => ?_) fun token hbreaks => ?_
  · split
    · refine .advance (takable_of_seen htoken) fun _ => (hg.at .factor).bind fun _ => ?_
      exact (follows_spanFrom _).bind fun _ => follows_node rfl _
    · exact follows_power hg
  · rcases hbreaks with hkind | hkind <;> rw [hkind, J.ends] <;> exact follows_power hg

theorem follows_sum : J.Follows w b K (sum g) (sum g') := by
  refine follows_chain (fun w b => follows_chain (fun w b => follows_factor hg) ?_) ?_ <;>
    rintro kind (rfl | rfl) <;> rfl

theorem follows_negation : J.Follows w b K (negation g) (negation g') := by
  refine .checkKeyword fun found => ?_
  cases found with
  | false =>
    refine follows_chain (fun w b => follows_sum hg) ?_
    rintro kind (rfl | rfl) <;> rfl
  | true =>
    refine .advance (fun s hs => .of_isKeyword hs.2) fun _ => (hg.at .negation).bind fun _ => ?_
    exact (follows_spanFrom _).bind fun _ => follows_node rfl _

theorem follows_logical : J.Follows w b K (logical g) (logical g') := by
  refine follows_chain (fun w b => follows_negation hg) ?_
  rintro kind (rfl | rfl) <;> rfl

theorem follows_positiveBranch (condition : NodeId) :
    J.Follows w b K (positiveBranch g condition) (positiveBranch g' (J.shift condition)) := by
  refine .check (by simp) fun found => .ite ?_ (follows_some (hg.at .ternary))
  exact (follows_isBoolCast condition).bind fun _ => .ite (.pure rfl) (follows_failFound _)

theorem follows_negativeBranch (positive : Option NodeId) :
    J.Follows w b K (negativeBranch g positive) (negativeBranch g' (J.shift positive)) := by
  unfold negativeBranch
  rw [isSome_shift]
  refine .eat (by simp) ?_ ?_
  · exact follows_atBoundary.bind fun _ => .ite (.pure rfl) (follows_some (hg.at .ternary))
  · exact follows_atBoundary.bind fun _ => .ite (.pure rfl) (follows_failExpected _)

theorem follows_ternary : J.Follows w b K (ternary g) (ternary g') := by
  refine (follows_logical hg).bind fun condition => .eat (by simp) ?_ (.pure rfl)
  refine (follows_positiveBranch hg condition).bind fun positive => ?_
  refine (follows_negativeBranch hg positive).bind fun negative => ?_
  exact (follows_spanOf condition).bind fun _ => (follows_spanFrom _).bind fun _ =>
    follows_node rfl _

/-! ## Bindings -/

theorem follows_initializer (type : DeclaredType) :
    J.Follows w b K (initializer g type) (initializer g' type) := by
  refine .current (fun token htoken => ?_) fun token hbreaks => ?_
  · split
    · exact .advance (takable_of_seen htoken) fun _ => (hg.at .expr).bind fun _ => .pure rfl
    · exact follows_failFound _
    · exact .ite (follows_failFound _) (.pure rfl)
  · rcases hbreaks with hkind | hkind <;> rw [hkind, J.ends] <;>
      exact .ite (follows_failFound _) (.pure rfl)

theorem follows_declaration (hK : ∀ s, K s → s.kind.Takable) (type : DeclaredType) :
    J.Follows w b K (declaration g type) (declaration g' type) := by
  refine .advance hK fun start => (follows_identifier _).anywhere.bind fun name => ?_
  refine (follows_initializer hg type).bind ?_
  rintro ⟨value, yields⟩
  exact (follows_spanFrom _).bind fun _ => follows_node rfl _

theorem follows_assignment
    (hK : ∀ s, K s → s.kind.Takable ∧ (firstKind s.ahead.tail).Takable) (name : Name)
    (op : AssignOp) (yields : Bool) :
    J.Follows w b K (assignment g name op yields) (assignment g' name op yields) :=
  .advanceTwice hK fun _ _ => (hg.at .expr).bind fun _ => (follows_spanFrom _).bind fun _ =>
    follows_node rfl _

/-! ## Places -/

section
variable {kind : TokenKind} (hkind : kind.Ends)
omit hg
include hkind

theorem refuses_suffixed : Refuses kind (suffixed g) := by
  refine Refuses.bind (.current fun token htoken => ?_)
  rw [htoken]
  rcases hkind with rfl | rfl | rfl <;> exact refuses_failFound _

theorem refuses_factor : Refuses kind (factor g) := by
  refine .current fun token htoken => ?_
  rw [htoken]
  rcases hkind with rfl | rfl | rfl <;> exact (refuses_suffixed (by simp [TokenKind.Ends])).bind

theorem refuses_sum : Refuses kind (sum g) := (refuses_factor hkind).bind.bind

theorem refuses_negation : Refuses kind (negation g) := by
  refine .checkKeyword ?_ (refuses_sum hkind).bind
  rcases hkind with rfl | rfl | rfl <;> rfl

theorem refuses_logical : Refuses kind (logical g) := (refuses_negation hkind).bind

theorem refuses_ternary : Refuses kind (ternary g) := (refuses_logical hkind).bind

theorem refuses_expr : Refuses kind (expr g) := by
  refine .current fun token htoken => .peek fun behind => ?_
  have hternary : Refuses kind (ternary g) := refuses_ternary hkind
  rw [htoken]
  rcases hkind with rfl | rfl | rfl <;> exact hternary

theorem refuses_production (place : Place) : Refuses kind (production g place) := by
  cases place with
  | expr => exact refuses_expr hkind
  | ternary => exact refuses_ternary hkind
  | logical => exact refuses_logical hkind
  | negation => exact refuses_negation hkind
  | sum => exact refuses_sum hkind
  | factor => exact refuses_factor hkind

end

theorem follows_expr : J.Follows w b K (expr g) (expr g') := by
  refine .current (fun token htoken => ?_) fun token hbreaks => .lastly ?_
  · refine .peek (takable_of_seen htoken) (fun kind => ?_) fun kind hbreaks => ?_
    · split
      · split
        · exact follows_declaration hg (fun s hs => takable_of_seen htoken s hs.1) _
        · exact follows_ternary hg
      · refine follows_assignment hg (fun s hs => ⟨takable_of_seen htoken s hs.1, ?_⟩) _ _ _
        rw [hs.2]
        rfl
      · exact follows_ternary hg
    · cases token.kind with
      | keyword word =>
        dsimp only
        split
        · refine follows_declaration hg (fun s hs => ?_) _
          rw [hs.2]
          rfl
        · exact follows_ternary hg
      | ident name => rcases hbreaks with rfl | rfl <;> exact follows_ternary hg
      | _ => exact follows_ternary hg
  · refine Refuses.stuck (.peek fun kind => ?_)
    rw [J.ends]
    exact refuses_ternary (.inl rfl)

/-- Each place goes on alike if all places do for what nests below. -/
theorem follows_production (place : Place) :
    J.Follows w b K (production g place) (production g' place) := by
  cases place with
  | expr => exact follows_expr hg
  | ternary => exact follows_ternary hg
  | logical => exact follows_logical hg
  | negation => exact follows_negation hg
  | sum => exact follows_sum hg
  | factor => exact follows_factor hg

end

theorem refuses_grammar {kind : TokenKind} (hkind : kind.Ends) (level : Nat) (place : Place) :
    Refuses kind (grammar level place) := by
  cases level with
  | zero => exact fun _ _ _ _ _ _ h => by cases h
  | succ level =>
    intro c s taken v t hs hrun
    simp only [grammar, atLevel_eq] at hrun
    exact refuses_production hkind place c s taken v t hs hrun

theorem grammars_of_le (J : Seam) {level level' : Nat} (h : level ≤ level') :
    J.Grammars (grammar level) (grammar level') := by
  induction level generalizing level' with
  | zero => exact {
      follows := fun _ _ => .never fun _ _ _ _ _ _ h => (by cases h)
      stuck := fun _ => (refuses_grammar (.inl rfl) 0 _).stuck
      balanced := grammar_balanced 0
      balanced' := grammar_balanced level' }
  | succ level ih =>
    obtain ⟨level', rfl⟩ : ∃ n, level' = n + 1 := ⟨level' - 1, by omega⟩
    have hg : J.Grammars (grammar level) (grammar level') := ih (Nat.le_of_succ_le_succ h)
    exact {
      follows := fun place b c c' s taken v t hc hs hrun => by
        simp only [grammar, atLevel_eq] at hrun ⊢
        exact follows_production hg (K := fun _ => True) place c c' s taken v t hc hs hrun
      stuck := fun _ => (refuses_grammar (.inl rfl) _ _).stuck
      balanced := grammar_balanced _
      balanced' := grammar_balanced _ }

end Seam
end ExprScript
