import ExprScript.Proofs.Parser.Postfix

/-!
# Operators, bindings and places
-/
namespace ExprScript.Parser

variable {loops : Loops} {a : Arena} {g : Grammar} (hg : Forms g)

include hg

omit hg in
theorem builds_binary (op : BinaryOp) {left right : NodeId} (hleft : Parsed loops a left)
    (hright : Parsed loops a right) : Builds loops a (Parsed loops) (binary op left right) := by
  refine (quiet_spanOf _).then fun _ => (quiet_spanOf _).then fun _ => ?_
  refine .node (parsed_beside rfl rfl fun id hid => ?_) _
  rcases List.mem_cons.mp hid with rfl | hid
  · exact hleft
  · rw [List.mem_singleton.mp hid]
    exact hright

omit hg in
theorem builds_chain {operand : Parser NodeId}
    (hoperand : ∀ b, Builds loops b (Parsed loops) operand)
    (operator? : TokenKind → Option BinaryOp) :
    Builds loops a (Parsed loops) (chain operand operator?) := by
  refine (hoperand a).bind fun b left _ hleft => ?_
  refine .repeating (Parsed loops) hleft fun c left _ hleft => quiet_current.then fun token => ?_
  split
  · refine quiet_advance.then fun _ => (hoperand c).bind fun d right hcd hright => ?_
    exact .map (builds_binary _ (hleft.mono hcd) hright)
  · exact .pure fun d hcd => hleft.mono hcd

theorem builds_power : Builds loops a (Parsed loops) (power g) := by
  refine (builds_suffixed hg).bind fun b base _ hbase => (quiet_eat _).then fun _ => ?_
  split
  · refine (hg .factor loops b).bind fun c exponent hbc hexponent => ?_
    exact builds_binary _ (hbase.mono hbc) hexponent
  · exact .pure fun c hbc => hbase.mono hbc

theorem builds_factor : Builds loops a (Parsed loops) (factor g) := by
  refine quiet_current.then fun token => ?_
  split
  · refine quiet_advance.then fun start => (hg .factor loops a).bind fun b operand _ hoperand => ?_
    exact (quiet_spanFrom _).then fun _ => .node (parsed_one rfl rfl hoperand) _
  · exact builds_power hg

theorem builds_sum : Builds loops a (Parsed loops) (sum g) :=
  builds_chain (fun _ => builds_chain (fun _ => builds_factor hg) productOp?) sumOp?

theorem builds_negation : Builds loops a (Parsed loops) (negation g) := by
  refine (quiet_checkKeyword .not).then fun _ => ?_
  split
  · refine quiet_advance.then fun start => ?_
    refine (hg .negation loops a).bind fun b operand _ hoperand => ?_
    exact (quiet_spanFrom _).then fun _ => .node (parsed_one rfl rfl hoperand) _
  · exact builds_chain (fun _ => builds_sum hg) comparisonOp?

theorem builds_logical : Builds loops a (Parsed loops) (logical g) :=
  builds_chain (fun _ => builds_negation hg) logicalOp?

theorem builds_positiveBranch (condition : NodeId) :
    Builds loops a (ParsedOption loops) (positiveBranch g condition) := by
  refine (quiet_check _).then fun _ => ?_
  split
  · refine (quiet_isBoolCast _).then fun _ => ?_
    split
    · exact builds_none
    · exact .failFound _
  · exact builds_some (hg .ternary loops a)

theorem builds_negativeBranch (positive : Option NodeId) :
    Builds loops a (ParsedOption loops) (negativeBranch g positive) := by
  refine (quiet_eat _).then fun _ => ?_
  split
  · refine quiet_atBoundary.then fun _ => ?_
    split
    · exact builds_none
    · exact builds_some (hg .ternary loops a)
  · refine quiet_atBoundary.then fun _ => ?_
    split
    · exact builds_none
    · exact .failExpected _

theorem builds_ternary : Builds loops a (Parsed loops) (ternary g) := by
  refine (builds_logical hg).bind fun b condition _ hcondition => (quiet_eat _).then fun _ => ?_
  split
  · refine (builds_positiveBranch hg condition).bind fun c positive hbc hpositive => ?_
    refine (builds_negativeBranch hg positive).bind fun d negative hcd hnegative => ?_
    refine (quiet_spanOf _).then fun _ => (quiet_spanFrom _).then fun _ => ?_
    refine .node (parsed_beside rfl rfl fun id hid => ?_) _
    rcases List.mem_append.mp hid with hid | hid
    · rcases List.mem_cons.mp hid with rfl | hid
      · exact hcondition.mono (hbc.trans hcd)
      · exact hpositive.mono hcd id (by simpa using hid)
    · exact hnegative id (by simpa using hid)
  · exact .pure fun c hbc => hcondition.mono hbc

theorem builds_initializer (type : DeclaredType) :
    Builds loops a (fun b value => ParsedOption loops b value.1) (initializer g type) := by
  refine quiet_current.then fun token => ?_
  split
  · refine quiet_advance.then fun _ => (hg .expr loops a).bind fun b value _ hvalue => ?_
    exact .pure fun c hbc => parsedOption_some (hvalue.mono hbc)
  · exact .failFound _
  · split
    · exact .failFound _
    · exact .pure fun b _ => parsedOption_none

theorem builds_declaration (type : DeclaredType) :
    Builds loops a (Parsed loops) (declaration g type) := by
  refine quiet_advance.then fun start => (quiet_identifier _).then fun name => ?_
  refine (builds_initializer hg type).bind fun b value _ hvalue => ?_
  refine (quiet_spanFrom _).then fun _ => ?_
  exact .node (parsed_beside rfl rfl fun id hid => hvalue id (by simpa using hid)) _

theorem builds_assignment (name : Name) (op : AssignOp) (yields : Bool) :
    Builds loops a (Parsed loops) (assignment g name op yields) := by
  refine quiet_advance.then fun start => quiet_advance.then fun _ => ?_
  refine (hg .expr loops a).bind fun b value _ hvalue => (quiet_spanFrom _).then fun _ => ?_
  exact .node (parsed_one rfl rfl hvalue) _

theorem builds_expr : Builds loops a (Parsed loops) (expr g) := by
  refine quiet_current.then fun token => quiet_peek.then fun behind => ?_
  split
  · split
    · exact builds_declaration hg _
    · exact builds_ternary hg
  · exact builds_assignment hg _ _ _
  · exact builds_ternary hg

/-- Every place of the grammar gives formed nodes, if the places nested in it do. -/
theorem builds_production (place : Place) : Builds loops a (Parsed loops) (production g place) := by
  cases place with
  | expr => exact builds_expr hg
  | ternary => exact builds_ternary hg
  | logical => exact builds_logical hg
  | negation => exact builds_negation hg
  | sum => exact builds_sum hg
  | factor => exact builds_factor hg

end ExprScript.Parser
