import ExprScript.Proofs.Tree.Growth

/-!
# Signals and the loops around them

A `break` or `continue` is a signal to a loop around it. A part of an expression runs next to the
expression, as the body of a loop or of a function, or as the default of a parameter, and where it
runs says which loops are around it. Nodes are formed if all their signals are to such loops.
-/
namespace ExprScript

/-- The labels of the loops around a place, innermost first. -/
abbrev Loops := List (Option Name)

/-- Whether one of the loops is meant by a signal. -/
def Loops.Has (loops : Loops) (signal : Option Name) : Prop :=
  loops ≠ [] ∧ ∀ name, signal = some name → some name ∈ loops

/-- Where a part of an expression runs. -/
inductive Standing where
  /-- Next to the expression. -/
  | beside
  /-- As the body of a loop. -/
  | inLoop (label : Option Name)
  /-- As the body of a function. -/
  | inFunction
  /-- As the default of a parameter. -/
  | asDefault

/-- The loops around a part of an expression. Functions are run elsewhere, so their bodies have
none; what defaults have is a parameter. -/
def Standing.loops (forDefaults : Loops → Loops) (loops : Loops) : Standing → Loops
  | .beside => loops
  | .inLoop label => label :: loops
  | .inFunction => []
  | .asDefault => forDefaults loops

abbrev Part := Standing × NodeId

def beside (ids : List NodeId) : List Part := ids.map fun id => (.beside, id)

def IndexSpec.nodes : IndexSpec → List NodeId
  | .single index => [index]
  | .range first last => [first, last]

def Expr.signal? : Expr → Option (Option Name)
  | .breakLoop label _ | .continueLoop label _ => some label
  | _ => none

def Expr.parts? (arena : Arena) : Expr → Option (List Part)
  | .int _ | .float _ | .str _ | .ident _ => some []
  | .list run | .block run => (run.entries? arena.lists).map beside
  | .index target specs =>
    (specs.entries? arena.specs).map fun specs =>
      beside (target :: specs.flatMap IndexSpec.nodes)
  | .member target _ => some (beside [target])
  | .cast operand _ | .unary _ operand => some (beside [operand])
  | .binary _ left right => some (beside [left, right])
  | .ternary condition positive negative =>
    some (beside (condition :: positive.toList ++ negative.toList))
  | .declare _ _ value _ => some (beside value.toList)
  | .assign _ _ value _ => some (beside [value])
  | .ifElse branches otherwise =>
    (branches.entries? arena.branches).map fun branches =>
      beside (branches.flatMap (fun b => [b.condition, b.body]) ++ otherwise.toList)
  | .caseOf subject arms otherwise =>
    (arms.entries? arena.arms).map fun arms =>
      beside (subject :: arms.flatMap (fun a => [a.pattern, a.body]) ++ otherwise.toList)
  | .iterate label first last step _ body =>
    some (beside (first.toList ++ last :: step.toList) ++ [(.inLoop label, body)])
  | .whileLoop label condition body => some (beside [condition] ++ [(.inLoop label, body)])
  | .define _ params body =>
    (params.entries? arena.params).map fun params =>
      (.inFunction, body) :: (params.flatMap (·.default.toList)).map (.asDefault, ·)
  | .call callee args =>
    (args.entries? arena.args).map fun args => beside (callee :: args.map (·.value))
  | .returnValue value guard => some (beside (value.toList ++ guard.toList))
  | .breakLoop _ guard | .continueLoop _ guard => some (beside guard.toList)

theorem Expr.parts?_mono {a b : Arena} (h : a ≤ b) {expr : Expr} {parts : List Part}
    (hparts : expr.parts? a = some parts) : expr.parts? b = some parts := by
  cases expr with
  | list run | block run =>
    obtain ⟨items, hitems, rfl⟩ := Option.map_eq_some_iff.mp hparts
    simp [parts?, Run.entries?_mono hitems h.lists]
  | index target run =>
    obtain ⟨items, hitems, rfl⟩ := Option.map_eq_some_iff.mp hparts
    simp [parts?, Run.entries?_mono hitems h.specs]
  | ifElse run otherwise =>
    obtain ⟨items, hitems, rfl⟩ := Option.map_eq_some_iff.mp hparts
    simp [parts?, Run.entries?_mono hitems h.branches]
  | caseOf subject run otherwise =>
    obtain ⟨items, hitems, rfl⟩ := Option.map_eq_some_iff.mp hparts
    simp [parts?, Run.entries?_mono hitems h.arms]
  | define name run body =>
    obtain ⟨items, hitems, rfl⟩ := Option.map_eq_some_iff.mp hparts
    simp [parts?, Run.entries?_mono hitems h.params]
  | call callee run =>
    obtain ⟨items, hitems, rfl⟩ := Option.map_eq_some_iff.mp hparts
    simp [parts?, Run.entries?_mono hitems h.args]
  | _ => exact hparts

theorem Expr.default_of_part {arena : Arena} {expr : Expr} {parts : List Part} {id : NodeId}
    (hparts : expr.parts? arena = some parts) (hid : (.asDefault, id) ∈ parts) :
    ∃ param ∈ arena.params, param.default = some id := by
  cases expr with
  | define name run body =>
    obtain ⟨items, hitems, rfl⟩ := Option.map_eq_some_iff.mp hparts
    obtain ⟨param, hparam, hdefault⟩ : ∃ param ∈ items, param.default = some id := by
      simpa using hid
    exact ⟨param, Run.mem_of_entries? hitems param hparam, hdefault⟩
  | list run | block run | index target run | ifElse run otherwise | caseOf subject run otherwise
  | call callee run =>
    obtain ⟨items, hitems, rfl⟩ := Option.map_eq_some_iff.mp hparts
    simp [beside] at hid
  | _ =>
    cases hparts
    simp [beside] at hid

/-! ## Formed nodes -/

/-- Whether a node and everything in it is in the arena and signals to loops around it only. -/
inductive Formed (arena : Arena) (forDefaults : Loops → Loops) : Loops → NodeId → Prop
  | intro {loops : Loops} {id : NodeId} {node : Node} {parts : List Part}
      (hnode : arena.node? id = some node) (hparts : node.expr.parts? arena = some parts)
      (hsignal : ∀ signal, node.expr.signal? = some signal → loops.Has signal)
      (hall : ∀ part ∈ parts, Formed arena forDefaults (part.1.loops forDefaults loops) part.2) :
      Formed arena forDefaults loops id

def Expr.Formed (arena : Arena) (forDefaults : Loops → Loops) (loops : Loops) (expr : Expr) :
    Prop :=
  (∀ signal, expr.signal? = some signal → loops.Has signal) ∧
    ∃ parts, expr.parts? arena = some parts ∧
      ∀ part ∈ parts, ExprScript.Formed arena forDefaults (part.1.loops forDefaults loops) part.2

variable {arena a b : Arena} {forDefaults : Loops → Loops} {loops : Loops}

theorem Formed.mono (h : a ≤ b) {id : NodeId} (hid : Formed a forDefaults loops id) :
    Formed b forDefaults loops id := by
  induction hid with
  | intro hnode hparts hsignal _ ih =>
    exact .intro (Arena.node?_mono h hnode) (Expr.parts?_mono h hparts) hsignal ih

theorem Formed.expr {id : NodeId} (h : Formed arena forDefaults loops id) {node : Node}
    (hnode : arena.node? id = some node) : node.expr.Formed arena forDefaults loops := by
  obtain ⟨hfound, hparts, hsignal, hall⟩ := h
  cases hnode.symm.trans hfound
  exact ⟨hsignal, _, hparts, hall⟩

theorem formed_push {expr : Expr} (h : expr.Formed arena forDefaults loops) (span : Span) :
    Formed (arena.push ⟨expr, span⟩).2 forDefaults loops (arena.push ⟨expr, span⟩).1 := by
  obtain ⟨hsignal, parts, hparts, hall⟩ := h
  have hgrows := arena.le_push ⟨expr, span⟩
  exact .intro (Arena.node?_push ..) (Expr.parts?_mono hgrows hparts) hsignal
    fun part hpart => (hall part hpart).mono hgrows

/-! ## Signals that leave -/

/-- Whether a node contains a `break` or `continue` of this label that no loop inside the node
stops. -/
inductive Sends (arena : Arena) : NodeId → Option Name → Prop
  | signal {id : NodeId} {node : Node} {label : Option Name} (hnode : arena.node? id = some node)
      (hsignal : node.expr.signal? = some label) : Sends arena id label
  | beside {id part : NodeId} {node : Node} {parts : List Part} {label : Option Name}
      (hnode : arena.node? id = some node) (hparts : node.expr.parts? arena = some parts)
      (hpart : (.beside, part) ∈ parts) (hsends : Sends arena part label) : Sends arena id label
  | inLoop {id part : NodeId} {node : Node} {parts : List Part} {name : Name}
      {loop : Option Name} (hnode : arena.node? id = some node)
      (hparts : node.expr.parts? arena = some parts) (hpart : (.inLoop loop, part) ∈ parts)
      (hsends : Sends arena part (some name)) (hother : loop ≠ some name) :
      Sends arena id (some name)

/-- Whether no default of a parameter contains a `break` or `continue` that leaves the default. -/
def Arena.DefaultsKeepSignals (arena : Arena) : Prop :=
  ∀ param ∈ arena.params, ∀ default ∈ param.default, ∀ label, ¬Sends arena default label

theorem Loops.has_cons_of_has {label signal : Option Name} (h : loops.Has signal) :
    Loops.Has (label :: loops) signal :=
  ⟨List.cons_ne_nil _ _, fun name hname => List.mem_cons_of_mem _ (h.2 name hname)⟩

theorem Loops.has_of_has_cons {label : Option Name} {name : Name}
    (h : Loops.Has (label :: loops) (some name)) (hother : label ≠ some name) :
    loops.Has (some name) := by
  have hmem : some name ∈ loops := by
    rcases List.mem_cons.mp (h.2 name rfl) with heq | hmem
    · exact absurd heq.symm hother
    · exact hmem
  refine ⟨List.ne_nil_of_mem hmem, fun other hsame => ?_⟩
  cases hsame
  exact hmem

/-- The signals that leave a formed node are to loops around it. -/
theorem Formed.has_of_sends {id : NodeId} {signal : Option Name} (hsends : Sends arena id signal)
    (hid : Formed arena forDefaults loops id) : loops.Has signal := by
  induction hsends generalizing loops with
  | signal hnode hsignal =>
    obtain ⟨hfound, -, hall, -⟩ := hid
    cases hnode.symm.trans hfound
    exact hall _ hsignal
  | beside hnode hparts hpart _ ih =>
    obtain ⟨hfound, hparts', -, hall⟩ := hid
    cases hnode.symm.trans hfound
    cases hparts.symm.trans hparts'
    exact ih (hall _ hpart)
  | inLoop hnode hparts hpart _ hother ih =>
    obtain ⟨hfound, hparts', -, hall⟩ := hid
    cases hnode.symm.trans hfound
    cases hparts.symm.trans hparts'
    exact Loops.has_of_has_cons (ih (hall _ hpart)) hother

/-- Where no default lets a signal out, defaults need no loops around them. -/
theorem Formed.keep (hkeep : arena.DefaultsKeepSignals) {id : NodeId}
    (hid : Formed arena forDefaults loops id) {around : Loops}
    (haround : ∀ signal, Sends arena id signal → around.Has signal) :
    Formed arena (fun _ => []) around id := by
  induction hid generalizing around with
  | @intro loops id node parts hnode hparts hsignal hall ih =>
    refine .intro hnode hparts (fun signal h => haround _ (.signal hnode h)) fun part hpart => ?_
    refine ih part hpart fun signal hsends => ?_
    obtain ⟨standing, id⟩ := part
    cases standing with
    | beside => exact haround _ (.beside hnode hparts hpart hsends)
    | inLoop label =>
      cases signal with
      | none => exact ⟨List.cons_ne_nil _ _, fun name h => by cases h⟩
      | some name =>
        by_cases hname : label = some name
        · refine ⟨List.cons_ne_nil _ _, fun other h => ?_⟩
          cases h
          exact hname ▸ List.mem_cons_self
        · exact Loops.has_cons_of_has (haround _ (.inLoop hnode hparts hpart hsends hname))
    | inFunction => exact (hall _ hpart).has_of_sends hsends
    | asDefault =>
      obtain ⟨param, hparam, hdefault⟩ := Expr.default_of_part hparts hpart
      exact absurd hsends (hkeep param hparam id hdefault signal)

end ExprScript
