import ExprScript.Proofs.Tree.Signals
import ExprScript.Token
import Mathlib.Data.List.Forall2

/-!
# The layout of trees

The children of a node stand in the text as they are listed, one behind the other and inside of the
node. Only the default of a case may stand between any two of its options. Arguments and parameters
have spans of their own around their nodes.
-/
namespace ExprScript

namespace Span

/-- One span ends where the other one starts, or before. -/
def Before (a b : Span) : Prop := a.stop.offset ≤ b.start.offset

def Contains (a b : Span) : Prop :=
  a.start.offset ≤ b.start.offset ∧ b.stop.offset ≤ a.stop.offset

/-- A span that starts where a token starts and ends behind where a token ends. -/
structure Along (tokens : List Token) (span : Span) : Prop where
  start : ∃ token ∈ tokens, span.start = token.span.start
  stop : ∃ token ∈ tokens, span.stop = token.span.stop
  pos : span.start.offset < span.stop.offset

variable {tokens : List Token} {a b : Span}

theorem merge_start (h : a.start.offset ≤ b.start.offset) : (a.merge b).start = a.start :=
  if_neg (Nat.not_lt_of_le h)

theorem merge_stop_offset (h : a.stop.offset ≤ b.stop.offset) :
    (a.merge b).stop.offset = b.stop.offset := by
  unfold merge
  dsimp only
  split <;> omega

theorem merge_start_self (h : a.start.offset ≤ a.stop.offset) : a.merge (.point a.start) = a := by
  unfold merge point
  dsimp only
  split <;> split <;> first | rfl | omega

theorem Along.merge (ha : a.Along tokens) (hb : b.Along tokens) : (a.merge b).Along tokens := by
  refine ⟨?_, ?_, ?_⟩
  · unfold Span.merge
    dsimp only
    split
    · exact hb.start
    · exact ha.start
  · unfold Span.merge
    dsimp only
    split
    · exact hb.stop
    · exact ha.stop
  · have hpos := ha.pos
    unfold Span.merge
    dsimp only
    split <;> split <;> omega

end Span

/-! ## Children -/

/-- A child in the text: a node, or an argument or a parameter, which has a span of its own. -/
inductive Child where
  | node (id : NodeId)
  | marked (span : Span) (inner : Option NodeId)

def Argument.child (arg : Argument) : Child := .marked arg.span (some arg.value)

def Parameter.child (param : Parameter) : Child := .marked param.span param.default

def Branch.layout (branch : Branch) : List Child := [.node branch.condition, .node branch.body]

def CaseArm.layout (arm : CaseArm) : List Child := [.node arm.pattern, .node arm.body]

def armsLayout (early : Nat) (arms : List CaseArm) (otherwise : Option NodeId) : List Child :=
  (arms.take early).flatMap CaseArm.layout ++ otherwise.toList.map .node ++
    (arms.drop early).flatMap CaseArm.layout

/-- The children of an expression in the order of the text, if the arena has them. The default of a
case comes behind so many of its arms. -/
def Expr.layout? (arena : Arena) (early : Nat) : Expr → Option (List Child)
  | .int _ | .float _ | .str _ | .ident _ => some []
  | .list run | .block run => (run.entries? arena.lists).map (·.map .node)
  | .index target specs =>
    (specs.entries? arena.specs).map fun specs =>
      .node target :: (specs.flatMap IndexSpec.nodes).map .node
  | .member target _ => some [.node target]
  | .cast operand _ | .unary _ operand => some [.node operand]
  | .binary _ left right => some [.node left, .node right]
  | .ternary condition positive negative =>
    some (.node condition :: (positive.toList ++ negative.toList).map .node)
  | .declare _ _ value _ => some (value.toList.map .node)
  | .assign _ _ value _ => some [.node value]
  | .ifElse branches otherwise =>
    (branches.entries? arena.branches).map fun branches =>
      branches.flatMap Branch.layout ++ otherwise.toList.map .node
  | .caseOf subject arms otherwise =>
    (arms.entries? arena.arms).map fun arms => .node subject :: armsLayout early arms otherwise
  | .iterate _ first last step _ body =>
    some ((first.toList ++ last :: step.toList ++ [body]).map .node)
  | .whileLoop _ condition body => some [.node condition, .node body]
  | .define _ params body =>
    (params.entries? arena.params).map fun params =>
      params.map Parameter.child ++ [.node body]
  | .call callee args =>
    (args.entries? arena.args).map fun args => .node callee :: args.map Argument.child
  | .returnValue value guard => some ((value.toList ++ guard.toList).map .node)
  | .breakLoop _ guard | .continueLoop _ guard => some (guard.toList.map .node)

theorem Expr.layout?_mono {a b : Arena} (h : a ≤ b) {early : Nat} {expr : Expr}
    {children : List Child} (hchildren : expr.layout? a early = some children) :
    expr.layout? b early = some children := by
  cases expr with
  | list run | block run =>
    obtain ⟨items, hitems, rfl⟩ := Option.map_eq_some_iff.mp hchildren
    simp [layout?, Run.entries?_mono hitems h.lists]
  | index target run =>
    obtain ⟨items, hitems, rfl⟩ := Option.map_eq_some_iff.mp hchildren
    simp [layout?, Run.entries?_mono hitems h.specs]
  | ifElse run otherwise =>
    obtain ⟨items, hitems, rfl⟩ := Option.map_eq_some_iff.mp hchildren
    simp [layout?, Run.entries?_mono hitems h.branches]
  | caseOf subject run otherwise =>
    obtain ⟨items, hitems, rfl⟩ := Option.map_eq_some_iff.mp hchildren
    simp [layout?, Run.entries?_mono hitems h.arms]
  | define name run body =>
    obtain ⟨items, hitems, rfl⟩ := Option.map_eq_some_iff.mp hchildren
    simp [layout?, Run.entries?_mono hitems h.params]
  | call callee run =>
    obtain ⟨items, hitems, rfl⟩ := Option.map_eq_some_iff.mp hchildren
    simp [layout?, Run.entries?_mono hitems h.args]
  | _ => exact hchildren

namespace Arena

variable {tokens : List Token} {a b : Arena} {id : NodeId} {span : Span} {lo hi : Nat}
  {children : List Child}

def HasSpan (arena : Arena) (id : NodeId) (span : Span) : Prop :=
  ∃ expr, arena.node? id = some ⟨expr, span⟩

/-- Where a child stands. An argument or a parameter has its node inside. -/
def At (arena : Arena) : Child → Span → Prop
  | .node id, span => arena.HasSpan id span
  | .marked own inner, span =>
    span = own ∧ ∀ id ∈ inner, ∃ part, arena.HasSpan id part ∧ own.Contains part

/-- Children stand one behind the other between two offsets. -/
def Spread (arena : Arena) (tokens : List Token) (lo hi : Nat) (children : List Child) : Prop :=
  ∃ spans, List.Forall₂ arena.At children spans ∧
    (∀ span ∈ spans, span.Along tokens ∧ lo ≤ span.start.offset ∧ span.stop.offset ≤ hi) ∧
    spans.Pairwise Span.Before

/-- A node takes characters, and its children stand inside. -/
def Stands (arena : Arena) (tokens : List Token) (node : Node) : Prop :=
  node.span.Along tokens ∧ ∃ early children, node.expr.layout? arena early = some children ∧
    arena.Spread tokens node.span.start.offset node.span.stop.offset children

/-! ## Growth -/

theorem HasSpan.mono (hab : a ≤ b) (h : a.HasSpan id span) : b.HasSpan id span :=
  h.imp fun _ => node?_mono hab

theorem HasSpan.spanOf (h : a.HasSpan id span) : a.spanOf id = span := by
  obtain ⟨expr, hnode⟩ := h
  unfold Arena.spanOf
  rw [hnode]

theorem At.mono (hab : a ≤ b) {child : Child} (h : a.At child span) : b.At child span := by
  cases child with
  | node id => exact HasSpan.mono hab h
  | marked own inner =>
    refine ⟨h.1, fun id hid => ?_⟩
    obtain ⟨part, hpart, hinside⟩ := h.2 id hid
    exact ⟨part, hpart.mono hab, hinside⟩

theorem Spread.mono (hab : a ≤ b) (h : a.Spread tokens lo hi children) :
    b.Spread tokens lo hi children := by
  obtain ⟨spans, hat, hbounds, hrow⟩ := h
  exact ⟨spans, hat.imp fun _ _ => At.mono hab, hbounds, hrow⟩

theorem Stands.mono (hab : a ≤ b) {node : Node} (h : a.Stands tokens node) :
    b.Stands tokens node := by
  obtain ⟨halong, early, children, hchildren, hspread⟩ := h
  exact ⟨halong, early, children, Expr.layout?_mono hab hchildren, hspread.mono hab⟩

/-! ## Children one after another -/

theorem Spread.nil : a.Spread tokens lo hi [] := ⟨[], .nil, by simp, .nil⟩

theorem Spread.widen (h : a.Spread tokens lo hi children) {lo' hi' : Nat} (hlo : lo' ≤ lo)
    (hhi : hi ≤ hi') : a.Spread tokens lo' hi' children := by
  obtain ⟨spans, hat, hbounds, hrow⟩ := h
  refine ⟨spans, hat, fun span hspan => ?_, hrow⟩
  obtain ⟨halong, hstart, hstop⟩ := hbounds span hspan
  exact ⟨halong, by omega, by omega⟩

theorem Spread.append {lo' hi' : Nat} {more : List Child} (h : a.Spread tokens lo hi children)
    (hmore : a.Spread tokens lo' hi' more) (hlo : lo ≤ lo') (hbetween : hi ≤ lo') (hhi : hi ≤ hi') :
    a.Spread tokens lo hi' (children ++ more) := by
  obtain ⟨spans, hat, hbounds, hrow⟩ := h
  obtain ⟨spans', hat', hbounds', hrow'⟩ := hmore
  refine ⟨spans ++ spans', List.rel_append hat hat', fun span hspan => ?_, ?_⟩
  · rcases List.mem_append.mp hspan with hmem | hmem
    · obtain ⟨halong, hstart, hstop⟩ := hbounds span hmem
      exact ⟨halong, hstart, by omega⟩
    · obtain ⟨halong, hstart, hstop⟩ := hbounds' span hmem
      exact ⟨halong, by omega, hstop⟩
  · refine List.pairwise_append.mpr ⟨hrow, hrow', fun span hspan span' hspan' => ?_⟩
    have hstop := (hbounds span hspan).2.2
    have hstart := (hbounds' span' hspan').2.1
    unfold Span.Before
    omega

theorem Spread.single {child : Child} (hat : a.At child span) (halong : span.Along tokens)
    (hlo : lo ≤ span.start.offset) (hhi : span.stop.offset ≤ hi) :
    a.Spread tokens lo hi [child] :=
  ⟨[span], .cons hat .nil, by simpa using ⟨halong, hlo, hhi⟩, List.pairwise_singleton ..⟩

theorem Spread.eq_nil (h : a.Spread tokens lo hi children) (hle : hi ≤ lo) : children = [] := by
  cases children with
  | nil => rfl
  | cons child children =>
    obtain ⟨spans, hat, hbounds, -⟩ := h
    cases hat with
    | @cons _ span _ spans hfirst hrest =>
      obtain ⟨halong, hstart, hstop⟩ := hbounds span List.mem_cons_self
      have hpos := halong.pos
      omega

theorem Spread.exists_first {child : Child} (h : a.Spread tokens lo hi (child :: children)) :
    ∃ span, a.At child span ∧ span.Along tokens ∧ lo ≤ span.start.offset ∧
      span.stop.offset ≤ hi ∧ a.Spread tokens span.start.offset hi (child :: children) := by
  obtain ⟨spans, hat, hbounds, hrow⟩ := h
  cases hat with
  | @cons _ span _ spans hfirst hrest =>
    obtain ⟨halong, hstart, hstop⟩ := hbounds span List.mem_cons_self
    refine ⟨span, hfirst, halong, hstart, hstop, span :: spans, .cons hfirst hrest, ?_, hrow⟩
    intro other hother
    obtain ⟨halong', hstart', hstop'⟩ := hbounds other hother
    refine ⟨halong', ?_, hstop'⟩
    rcases List.mem_cons.mp hother with rfl | hother
    · exact Nat.le_refl _
    · have hpos := halong.pos
      have hbefore := (List.pairwise_cons.mp hrow).1 other hother
      unfold Span.Before at hbefore
      omega

end Arena
end ExprScript
