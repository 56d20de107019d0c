import ExprScript.Proofs.Tree.Ownership
import ExprScript.Token

/-!
# Trees of expressions and their tokens

An expression as a tree, without the places of its nodes in an arena or a text. It is written with
parentheses only where an operand binds less tightly than its place asks for.
-/
namespace ExprScript

mutual

/-- Expressions without bindings, blocks and functions. -/
inductive SyntaxTree where
  | int (value : Int64)
  | str (text : Name)
  | ident (name : Name)
  | list (items : List SyntaxTree)
  | unary (op : UnaryOp) (operand : SyntaxTree)
  | binary (op : BinaryOp) (left right : SyntaxTree)
  | ternary (condition positive negative : SyntaxTree)
  | call (callee : SyntaxTree) (args : List ArgumentTree)
  | index (target : SyntaxTree) (spec : SpecTree) (specs : List SpecTree)
  | member (target : SyntaxTree) (name : Name)
  | cast (operand : SyntaxTree) (type : ValueType)

inductive ArgumentTree where
  | mk (name : Option Name) (value : SyntaxTree)

inductive SpecTree where
  | single (index : SyntaxTree)
  | range (first last : SyntaxTree)

end

namespace ArgumentTree

def name : ArgumentTree → Option Name
  | mk name _ => name

def value : ArgumentTree → SyntaxTree
  | mk _ value => value

end ArgumentTree

namespace SpecTree

def children : SpecTree → List SyntaxTree
  | single index => [index]
  | range first last => [first, last]

def isRange : SpecTree → Bool
  | single _ => false
  | range _ _ => true

end SpecTree

def IndexSpec.isRange : IndexSpec → Bool
  | single _ => false
  | range _ _ => true

namespace SyntaxTree

def children : SyntaxTree → List SyntaxTree
  | int _ | str _ | ident _ => []
  | list items => items
  | unary _ operand => [operand]
  | binary _ left right => [left, right]
  | ternary condition positive negative => [condition, positive, negative]
  | call callee args => callee :: args.map ArgumentTree.value
  | index target spec specs => target :: (spec :: specs).flatMap SpecTree.children
  | member target _ => [target]
  | cast operand _ => [operand]

def entries : SyntaxTree → Nat
  | list items => items.length
  | call _ args => args.length
  | index _ _ specs => specs.length + 1
  | _ => 0

/-- Whether all lists in an expression fit into side tables. -/
inductive Fits : SyntaxTree → Prop
  | intro {tree : SyntaxTree} (hentries : tree.entries ≤ maxRunLength)
      (hchildren : ∀ child ∈ tree.children, Fits child) : Fits tree

theorem sizeOf_of_mem_children {spec : SpecTree} {child : SyntaxTree} (h : child ∈ spec.children) :
    sizeOf child < sizeOf spec := by
  cases spec with
  | single index =>
    obtain rfl := List.mem_singleton.mp h
    simp only [SpecTree.single.sizeOf_spec]
    omega
  | range first last =>
    rcases List.mem_cons.mp h with rfl | h
    · simp only [SpecTree.range.sizeOf_spec]
      omega
    · obtain rfl := List.mem_singleton.mp h
      simp only [SpecTree.range.sizeOf_spec]
      omega

theorem sizeOf_child {tree child : SyntaxTree} (h : child ∈ tree.children) :
    sizeOf child < sizeOf tree := by
  cases tree with
  | int _ | str _ | ident _ => cases h
  | list items =>
    have hlt : sizeOf child < sizeOf items := List.sizeOf_lt_of_mem h
    simp only [list.sizeOf_spec]
    omega
  | call callee args =>
    simp only [call.sizeOf_spec]
    rcases List.mem_cons.mp h with rfl | h
    · omega
    · obtain ⟨arg, harg, rfl⟩ := List.mem_map.mp h
      have hlt := List.sizeOf_lt_of_mem harg
      cases arg
      simp only [ArgumentTree.mk.sizeOf_spec, ArgumentTree.value] at hlt ⊢
      omega
  | index target spec specs =>
    simp only [index.sizeOf_spec]
    rcases List.mem_cons.mp h with rfl | h
    · omega
    · obtain ⟨other, hother, hchild⟩ := List.mem_flatMap.mp h
      have hlt := sizeOf_of_mem_children hchild
      rcases List.mem_cons.mp hother with rfl | hother
      · omega
      · have hrest := List.sizeOf_lt_of_mem hother
        omega
  | unary op operand =>
    obtain rfl := List.mem_singleton.mp h
    simp only [unary.sizeOf_spec]
    omega
  | member operand name =>
    obtain rfl := List.mem_singleton.mp h
    simp only [member.sizeOf_spec]
    omega
  | cast operand type =>
    obtain rfl := List.mem_singleton.mp h
    simp only [cast.sizeOf_spec]
    omega
  | binary op left right =>
    simp only [children, List.mem_cons, List.not_mem_nil, or_false] at h
    simp only [binary.sizeOf_spec]
    rcases h with rfl | rfl <;> omega
  | ternary condition positive negative =>
    simp only [children, List.mem_cons, List.not_mem_nil, or_false] at h
    simp only [ternary.sizeOf_spec]
    rcases h with rfl | rfl | rfl <;> omega

/-- What holds of a tree whenever it holds of the trees right below it holds of all trees. -/
theorem induct {motive : SyntaxTree → Prop}
    (h : ∀ tree, (∀ child ∈ tree.children, motive child) → motive tree) (tree : SyntaxTree) :
    motive tree :=
  h tree fun child _ => induct h child
termination_by sizeOf tree
decreasing_by exact sizeOf_child ‹_›

end SyntaxTree

/-! ## Tokens -/

/-- How tightly an operator binds, from 0 for the conditional one to 7 for those behind an
expression: 1 for `and` and `or`, 2 for comparisons, 3 for sums, 4 for products, 5 for signs and 6
for powers. -/
def BinaryOp.level : BinaryOp → Nat
  | .and | .or => 1
  | .eq | .ne | .order _ => 2
  | .arith .add | .arith .sub => 3
  | .arith .mul | .arith .div | .arith .floorDiv | .arith .mod => 4
  | .arith .pow => 6

theorem BinaryOp.level_le (op : BinaryOp) : op.level ≤ 6 := by
  cases op with
  | arith op => cases op <;> simp [level]
  | _ => simp [level]

/-- Only powers lean right: their base is no power and has no sign. -/
def BinaryOp.leftLevel (op : BinaryOp) : Nat :=
  if op = .arith .pow then 7 else op.level

/-- An exponent may have a sign. -/
def BinaryOp.rightLevel (op : BinaryOp) : Nat :=
  if op = .arith .pow then 5 else op.level + 1

def BinaryOp.kind : BinaryOp → TokenKind
  | .arith op => .mark (.arith op)
  | .eq => .mark .equal
  | .ne => .mark .notEqual
  | .order op => .mark (.order op)
  | .and => .keyword .and
  | .or => .keyword .or

def UnaryOp.kind : UnaryOp → TokenKind
  | .neg => .mark (.arith .sub)
  | .plus => .mark (.arith .add)
  | .not => .mark .not

def ValueType.keyword : ValueType → Keyword
  | .int => .int
  | .float => .float
  | .bool => .bool
  | .str => .str
  | .list => .list

def Bracket.around (bracket : Bracket) (kinds : List TokenKind) : List TokenKind :=
  .mark (.opening bracket) :: (kinds ++ [.mark (.closing bracket)])

def commaSeparated (kinds : List (List TokenKind)) : List TokenKind :=
  List.intercalate [.mark .comma] kinds

theorem commaSeparated_cons (first second : List TokenKind) (others : List (List TokenKind)) :
    commaSeparated (first :: second :: others) =
      first ++ .mark .comma :: commaSeparated (second :: others) := by
  simp [commaSeparated, List.intercalate, List.intersperse]

@[simp] theorem commaSeparated_single (kinds : List TokenKind) :
    commaSeparated [kinds] = kinds := by
  simp [commaSeparated, List.intercalate, List.intersperse]

/-- Puts parentheses around an expression that binds less tightly than its place asks for. -/
def fenced (place own : Nat) (kinds : List TokenKind) : List TokenKind :=
  if place ≤ own then kinds else Bracket.paren.around kinds

/-- How tightly the outermost operator of an expression binds. -/
def SyntaxTree.level : SyntaxTree → Nat
  | .ternary .. => 0
  | .binary op .. => op.level
  | .unary .. => 5
  | _ => 7

theorem SyntaxTree.level_le (tree : SyntaxTree) : tree.level ≤ 7 := by
  cases tree with
  | binary op left right => exact Nat.le_succ_of_le op.level_le
  | _ => simp [level]

mutual

/-- The tokens of an expression, without parentheses around it. -/
def SyntaxTree.tokens : SyntaxTree → List TokenKind
  | .int value => [.int value]
  | .str text => [.str text]
  | .ident name => [.ident name]
  | .list items => Bracket.square.around (commaSeparated (SyntaxTree.tokensOfItems items))
  | .unary op operand => op.kind :: fenced 5 operand.level operand.tokens
  | .binary op left right =>
    fenced op.leftLevel left.level left.tokens ++
      op.kind :: fenced op.rightLevel right.level right.tokens
  | .ternary condition positive negative =>
    fenced 1 condition.level condition.tokens ++
      .mark .question :: (positive.tokens ++ .mark .colon :: negative.tokens)
  | .call callee args =>
    fenced 7 callee.level callee.tokens ++
      Bracket.paren.around (commaSeparated (SyntaxTree.tokensOfArgs args))
  | .index target spec specs =>
    fenced 7 target.level target.tokens ++
      Bracket.square.around (commaSeparated (spec.tokens :: SyntaxTree.tokensOfSpecs specs))
  | .member target name =>
    fenced 7 target.level target.tokens ++ [.mark .dot, .ident name]
  | .cast operand type =>
    fenced 7 operand.level operand.tokens ++ [.keyword .asWord, .keyword type.keyword]

def SyntaxTree.tokensOfItems : List SyntaxTree → List (List TokenKind)
  | [] => []
  | item :: items => item.tokens :: SyntaxTree.tokensOfItems items

def ArgumentTree.tokens : ArgumentTree → List TokenKind
  | .mk none value => value.tokens
  | .mk (some name) value => .ident name :: .mark (.assign none false) :: value.tokens

def SyntaxTree.tokensOfArgs : List ArgumentTree → List (List TokenKind)
  | [] => []
  | arg :: args => arg.tokens :: SyntaxTree.tokensOfArgs args

def SpecTree.tokens : SpecTree → List TokenKind
  | .single index => index.tokens
  | .range first last => first.tokens ++ .keyword .toWord :: last.tokens

def SyntaxTree.tokensOfSpecs : List SpecTree → List (List TokenKind)
  | [] => []
  | spec :: specs => spec.tokens :: SyntaxTree.tokensOfSpecs specs

end

namespace SyntaxTree

/-- The tokens of an expression in a place that asks for a level. -/
def tokensAt (tree : SyntaxTree) (place : Nat) : List TokenKind :=
  fenced place tree.level tree.tokens

theorem tokensOfItems_eq (items : List SyntaxTree) : tokensOfItems items = items.map tokens := by
  induction items with
  | nil => rfl
  | cons item items ih => simp [tokensOfItems, ih]

theorem tokensOfArgs_eq (args : List ArgumentTree) :
    tokensOfArgs args = args.map ArgumentTree.tokens := by
  induction args with
  | nil => rfl
  | cons arg args ih => simp [tokensOfArgs, ih]

theorem tokensOfSpecs_eq (specs : List SpecTree) :
    tokensOfSpecs specs = specs.map SpecTree.tokens := by
  induction specs with
  | nil => rfl
  | cons spec specs ih => simp [tokensOfSpecs, ih]

end SyntaxTree

example : (SyntaxTree.binary (.arith .mul) (.binary (.arith .add) (.int 1) (.int 2))
    (.unary .neg (.ident ⟨0⟩))).tokens =
      [.mark (.opening .paren), .int 1, .mark (.arith .add), .int 2, .mark (.closing .paren),
        .mark (.arith .mul), .mark (.arith .sub), .ident ⟨0⟩] := rfl

/-! ## Trees in an arena -/

/-- Whether an expression is of the same construct as a tree, its children left out. -/
def Expr.Matches (arena : Arena) : Expr → SyntaxTree → Prop
  | .int value, .int other => value = other
  | .str text, .str other => text = other
  | .ident name, .ident other => name = other
  | .list _, .list _ => True
  | .unary op _, .unary other _ => op = other
  | .binary op _ _, .binary other _ _ => op = other
  | .ternary _ positive negative, .ternary .. => positive.isSome ∧ negative.isSome
  | .call _ run, .call _ args =>
    ∃ found, run.entries? arena.args = some found ∧ found.map (·.name) = args.map (·.name)
  | .index _ run, .index _ spec specs =>
    ∃ found, run.entries? arena.specs = some found ∧
      found.map (·.isRange) = (spec :: specs).map (·.isRange)
  | .member _ name, .member _ other => name = other
  | .cast _ type, .cast _ other => type = other
  | _, _ => False

/-- Whether a node stands for a tree: it is of the same construct, and its children stand for the
trees below. -/
inductive Arena.Denotes (arena : Arena) : NodeId → SyntaxTree → Prop
  | intro {id : NodeId} {node : Node} {ids : List NodeId} {tree : SyntaxTree}
      (hnode : arena.node? id = some node) (hmatches : node.expr.Matches arena tree)
      (hids : node.expr.children? arena = some ids) (hlength : ids.length = tree.children.length)
      (hchildren : ∀ pair ∈ ids.zip tree.children, Denotes arena pair.1 pair.2) :
      Denotes arena id tree

theorem Expr.Matches.mono {a b : Arena} (hab : a ≤ b) {expr : Expr} {tree : SyntaxTree}
    (h : expr.Matches a tree) : expr.Matches b tree := by
  cases expr with
  | call callee run =>
    cases tree with
    | call other args =>
      obtain ⟨found, hfound, hnames⟩ := h
      exact ⟨found, Run.entries?_mono hfound hab.args, hnames⟩
    | _ => exact h
  | index target run =>
    cases tree with
    | index other spec specs =>
      obtain ⟨found, hfound, hranges⟩ := h
      exact ⟨found, Run.entries?_mono hfound hab.specs, hranges⟩
    | _ => exact h
  | _ => cases tree <;> exact h

theorem Arena.Denotes.mono {a b : Arena} (hab : a ≤ b) {id : NodeId} {tree : SyntaxTree}
    (h : a.Denotes id tree) : b.Denotes id tree := by
  induction h with
  | intro hnode hmatches hids hlength _ ih =>
    exact .intro (node?_mono hab hnode) (hmatches.mono hab) (Expr.children?_mono hab hids) hlength
      ih

/-! ## A node stands for one tree at most -/

theorem ArgumentTree.ext_lists {args others : List ArgumentTree}
    (hnames : args.map name = others.map name) (hvalues : args.map value = others.map value) :
    args = others := by
  induction args generalizing others with
  | nil =>
    cases others with
    | nil => rfl
    | cons other others => cases hnames
  | cons arg args ih =>
    cases others with
    | nil => cases hnames
    | cons other others =>
      simp only [List.map_cons, List.cons.injEq] at hnames hvalues
      obtain ⟨name, value⟩ := arg
      obtain ⟨otherName, otherValue⟩ := other
      obtain rfl : name = otherName := hnames.1
      obtain rfl : value = otherValue := hvalues.1
      rw [ih hnames.2 hvalues.2]

theorem SpecTree.ext_lists {specs others : List SpecTree}
    (hranges : specs.map isRange = others.map isRange)
    (hchildren : specs.flatMap children = others.flatMap children) : specs = others := by
  induction specs generalizing others with
  | nil =>
    cases others with
    | nil => rfl
    | cons other others => cases hranges
  | cons spec specs ih =>
    cases others with
    | nil => cases hranges
    | cons other others =>
      simp only [List.map_cons, List.cons.injEq, List.flatMap_cons] at hranges hchildren
      obtain ⟨hrange, hranges⟩ := hranges
      cases spec with
      | single index =>
        cases other with
        | single otherIndex =>
          obtain ⟨rfl, hrest⟩ : index = otherIndex ∧
              specs.flatMap children = others.flatMap children := by
            simpa [children] using hchildren
          rw [ih hranges hrest]
        | range first last => simp [isRange] at hrange
      | range first last =>
        cases other with
        | single otherIndex => simp [isRange] at hrange
        | range otherFirst otherLast =>
          obtain ⟨rfl, rfl, hrest⟩ : first = otherFirst ∧ last = otherLast ∧
              specs.flatMap children = others.flatMap children := by
            simpa [children] using hchildren
          rw [ih hranges hrest]

/-- The construct and the children say what a tree is. -/
theorem Expr.Matches.unique {arena : Arena} {expr : Expr} {tree other : SyntaxTree}
    (htree : expr.Matches arena tree) (hother : expr.Matches arena other)
    (hchildren : tree.children = other.children) : tree = other := by
  cases tree with
  | int value | str value | ident value =>
    cases expr <;> try exact htree.elim
    cases other <;> try exact hother.elim
    exact congrArg _ (htree.symm.trans hother)
  | list items =>
    cases expr <;> try exact htree.elim
    cases other <;> try exact hother.elim
    exact congrArg _ hchildren
  | unary op operand | binary op left right =>
    cases expr <;> try exact htree.elim
    cases other <;> try exact hother.elim
    obtain rfl := htree.symm.trans hother
    cases hchildren
    rfl
  | ternary condition positive negative =>
    cases expr <;> try exact htree.elim
    cases other <;> try exact hother.elim
    cases hchildren
    rfl
  | member target value | cast target value =>
    cases expr <;> try exact htree.elim
    cases other <;> try exact hother.elim
    obtain rfl := htree.symm.trans hother
    cases hchildren
    rfl
  | call callee args =>
    cases expr <;> try exact htree.elim
    cases other <;> try exact hother.elim
    obtain ⟨found, hfound, hnames⟩ := htree
    obtain ⟨again, hagain, hothers⟩ := hother
    cases hfound.symm.trans hagain
    obtain ⟨rfl, hvalues⟩ := List.cons.inj hchildren
    rw [ArgumentTree.ext_lists (hnames.symm.trans hothers) hvalues]
  | index target spec specs =>
    cases expr <;> try exact htree.elim
    cases other <;> try exact hother.elim
    obtain ⟨found, hfound, hranges⟩ := htree
    obtain ⟨again, hagain, hothers⟩ := hother
    cases hfound.symm.trans hagain
    obtain ⟨rfl, hnodes⟩ := List.cons.inj hchildren
    cases SpecTree.ext_lists (hranges.symm.trans hothers) hnodes
    rfl

theorem getElem_mem_zip {α β : Type} {as : List α} {bs : List β} {i : Nat} (ha : i < as.length)
    (hb : i < bs.length) : (as[i], bs[i]) ∈ as.zip bs := by
  have hzip : i < (as.zip bs).length := by
    rw [List.length_zip]
    omega
  rw [← List.getElem_zip (h := hzip)]
  exact List.getElem_mem hzip

/-- A node stands for one tree at most. -/
theorem Arena.Denotes.unique {arena : Arena} {id : NodeId} {tree other : SyntaxTree}
    (htree : arena.Denotes id tree) (hother : arena.Denotes id other) : tree = other := by
  induction htree generalizing other with
  | intro hnode hmatches hids hlength _ ih =>
    obtain ⟨hnode', hmatches', hids', hlength', hall⟩ := hother
    cases hnode.symm.trans hnode'
    cases hids.symm.trans hids'
    refine hmatches.unique hmatches' (List.ext_getElem (hlength.symm.trans hlength') ?_)
    intro i hi hi'
    have hid := hlength.symm ▸ hi
    exact ih _ (getElem_mem_zip hid hi) (hall _ (getElem_mem_zip hid hi'))

end ExprScript
