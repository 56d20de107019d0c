import ExprScript.Number.Int64
import ExprScript.Proofs.Names
import ExprScript.Proofs.Tree.Syntax
import ExprScript.Proofs.Value.Display

/-!
# Values as expressions

The display form of a value is an expression: a constant by name, a literal, a literal with a sign,
or a list of such expressions.
-/
namespace ExprScript

/-- The tokens of the items of a list behind one of them, with the end of the list. -/
def SyntaxTree.closing : List SyntaxTree → List TokenKind
  | [] => [.mark (.closing .square)]
  | tree :: trees => .mark .comma :: (tree.tokens ++ closing trees)

theorem SyntaxTree.tokens_cons (tree : SyntaxTree) (trees : List SyntaxTree) :
    (list (tree :: trees)).tokens =
      .mark (.opening .square) :: (tree.tokens ++ closing trees) := by
  have hinside : ∀ (trees : List SyntaxTree) (tree : SyntaxTree),
      commaSeparated ((tree :: trees).map tokens) ++ [.mark (.closing .square)] =
        tree.tokens ++ closing trees := by
    intro trees
    induction trees with
    | nil => simp [closing]
    | cons next trees ih =>
      intro tree
      rw [List.map_cons, List.map_cons, commaSeparated_cons, List.append_assoc, List.cons_append,
        ← List.map_cons, ih next]
      rfl
  rw [tokens, tokensOfItems_eq, Bracket.around, hinside]

/-- The constant that a value without parts is, if it is one. -/
def Value.constant? : Value → Option String
  | .null => some "null"
  | .bool b => some (if b then "true" else "false")
  | _ => none

/-- Whether an expression spells a value, where texts have the names of a table. -/
inductive Interner.Spells (names : Interner) : Value → SyntaxTree → Prop
  | constant {value : Value} {text : String} {name : Name} (hconstant : value.constant? = some text)
      (hname : names.Knows text name) : Spells names value (.ident name)
  | int (n : Int64) : Spells names (.int n) (.int n)
  | negative {n opposite : Int64} (h : Int64Ops.neg? opposite = some n) :
      Spells names (.int n) (.unary .neg (.int opposite))
  | str {text : String} {name : Name} (hname : names.Knows text name) :
      Spells names (.str text) (.str name)
  | list {items : List Value} {trees : List SyntaxTree} (hlength : trees.length = items.length)
      (hitems : ∀ pair ∈ items.zip trees, Spells names pair.1 pair.2) :
      Spells names (.list items) (.list trees)

namespace Interner.Spells

variable {names more : Interner} {value : Value} {tree : SyntaxTree}

theorem mono (h : names.Spells value tree) (hgrows : names.Grows more) :
    more.Spells value tree := by
  induction h with
  | constant hconstant hname => exact .constant hconstant (hgrows _ _ hname)
  | int n => exact .int n
  | negative hopposite => exact .negative hopposite
  | str hname => exact .str (hgrows _ _ hname)
  | list hlength _ ih => exact .list hlength ih

/-- What spells a value with lists short enough has lists short enough. -/
theorem fits (h : names.Spells value tree) (hplain : value.Plain) : tree.Fits := by
  have hleaf : ∀ operand : SyntaxTree, operand.entries = 0 → operand.children = [] →
      operand.Fits := by
    intro operand hentries hchildren
    constructor
    · rw [hentries]
      exact Nat.zero_le _
    · simp [hchildren]
  induction h with
  | constant | int | str => exact hleaf _ rfl rfl
  | @negative n opposite _ =>
    refine .intro (Nat.zero_le _) fun child hchild => ?_
    obtain rfl := List.mem_singleton.mp hchild
    exact hleaf _ rfl rfl
  | @list items trees hlength _ ih =>
    obtain ⟨hshort, hitems⟩ : items.length ≤ maxRunLength ∧ ∀ item ∈ items, item.Plain := by
      cases hplain
      exact ⟨‹_›, ‹_›⟩
    refine .intro (hlength.trans_le hshort) fun child hchild => ?_
    obtain ⟨i, hi, rfl⟩ := List.mem_iff_getElem.mp hchild
    have hitem : i < items.length := hlength ▸ hi
    exact ih _ (getElem_mem_zip hitem hi) (hitems _ (List.getElem_mem hitem))

end Interner.Spells

/-! ## Their nodes -/

namespace Arena.Denotes

variable {arena : Arena} {id : NodeId} {tree : SyntaxTree}

theorem node (h : arena.Denotes id tree) :
    ∃ expr span ids, arena.node? id = some ⟨expr, span⟩ ∧ expr.Matches arena tree ∧
      expr.children? arena = some ids ∧ ids.length = tree.children.length ∧
      ∀ pair ∈ ids.zip tree.children, arena.Denotes pair.1 pair.2 := by
  obtain ⟨hnode, hmatches, hids, hlength, hchildren⟩ := h
  exact ⟨_, _, _, hnode, hmatches, hids, hlength, hchildren⟩

theorem ident {name : Name} (h : arena.Denotes id (.ident name)) :
    ∃ span, arena.node? id = some ⟨.ident name, span⟩ := by
  obtain ⟨expr, span, -, hnode, hmatches, -⟩ := h.node
  cases expr <;> try exact hmatches.elim
  obtain rfl := hmatches
  exact ⟨span, hnode⟩

theorem int {n : Int64} (h : arena.Denotes id (.int n)) :
    ∃ span, arena.node? id = some ⟨.int n, span⟩ := by
  obtain ⟨expr, span, -, hnode, hmatches, -⟩ := h.node
  cases expr <;> try exact hmatches.elim
  obtain rfl := hmatches
  exact ⟨span, hnode⟩

theorem str {text : Name} (h : arena.Denotes id (.str text)) :
    ∃ span, arena.node? id = some ⟨.str text, span⟩ := by
  obtain ⟨expr, span, -, hnode, hmatches, -⟩ := h.node
  cases expr <;> try exact hmatches.elim
  obtain rfl := hmatches
  exact ⟨span, hnode⟩

theorem unary {op : UnaryOp} {operand : SyntaxTree} (h : arena.Denotes id (.unary op operand)) :
    ∃ inner span, arena.node? id = some ⟨.unary op inner, span⟩ ∧ arena.Denotes inner operand := by
  obtain ⟨expr, span, ids, hnode, hmatches, hids, -, hchildren⟩ := h.node
  cases expr <;> try exact hmatches.elim
  rename_i other inner
  obtain rfl := hmatches
  cases hids
  exact ⟨inner, span, hnode, hchildren (inner, operand) List.mem_cons_self⟩

theorem list {items : List SyntaxTree} (h : arena.Denotes id (.list items)) :
    ∃ run ids span, arena.node? id = some ⟨.list run, span⟩ ∧
      run.entries? arena.lists = some ids ∧ ids.length = items.length ∧
      ∀ pair ∈ ids.zip items, arena.Denotes pair.1 pair.2 := by
  obtain ⟨expr, span, ids, hnode, hmatches, hids, hlength, hchildren⟩ := h.node
  cases expr <;> try exact hmatches.elim
  rename_i run
  have hentries : run.entries? arena.lists = some ids := by
    unfold Expr.children? Expr.parts? at hids
    simpa [Function.comp_def] using hids
  exact ⟨run, ids, span, hnode, hentries, hlength, hchildren⟩

end Arena.Denotes
end ExprScript
