import ExprScript.Proofs.Tree.Ownership

/-!
# Trees apart from their indices

Nodes refer to each other by index, and to lists of children by runs of side tables. Where the nodes
of an arena are put behind those of another one, they have other indices and their lists start
elsewhere, but the trees are the same. A tree is therefore what is left when the indices are gone.
-/
namespace ExprScript

/-- New indices for nodes, and new starts for runs of the side tables. -/
structure Renumbering where
  nodes : Nat → Nat
  lists : Nat → Nat
  specs : Nat → Nat
  branches : Nat → Nat
  arms : Nat → Nat
  params : Nat → Nat
  args : Nat → Nat

/-- What refers to an arena can be given new numbers. -/
class Renumbers (α : Type) where
  renumber : Renumbering → α → α := fun _ value => value

open Renumbers

section
variable {α β : Type} [Renumbers α] [Renumbers β]

instance : Renumbers Unit := {}
instance : Renumbers Bool := {}
instance : Renumbers Name := {}
instance : Renumbers String := {}
instance : Renumbers Span := {}
instance : Renumbers NodeId := ⟨fun r id => ⟨r.nodes id.index⟩⟩
instance : Renumbers (Option α) := ⟨fun r => Option.map (renumber r)⟩
instance : Renumbers (Option Name) := {}
instance : Renumbers (List α) := ⟨fun r => List.map (renumber r)⟩
instance : Renumbers (α × β) := ⟨fun r => Prod.map (renumber r) (renumber r)⟩
instance : Renumbers (α ⊕ β) := ⟨fun r => Sum.map (renumber r) (renumber r)⟩

instance : Renumbers IndexSpec where
  renumber r
    | .single index => .single (renumber r index)
    | .range first last => .range (renumber r first) (renumber r last)
instance : Renumbers Branch := ⟨fun r b => ⟨renumber r b.condition, renumber r b.body⟩⟩
instance : Renumbers CaseArm := ⟨fun r arm => ⟨renumber r arm.pattern, renumber r arm.body⟩⟩
instance : Renumbers Argument := ⟨fun r arg => { arg with value := renumber r arg.value }⟩
instance : Renumbers Parameter := ⟨fun r param => { param with default := renumber r param.default }⟩

instance : Renumbers (Run NodeId) := ⟨fun r run => { run with start := r.lists run.start }⟩
instance : Renumbers (Run IndexSpec) := ⟨fun r run => { run with start := r.specs run.start }⟩
instance : Renumbers (Run Branch) := ⟨fun r run => { run with start := r.branches run.start }⟩
instance : Renumbers (Run CaseArm) := ⟨fun r run => { run with start := r.arms run.start }⟩
instance : Renumbers (Run Parameter) := ⟨fun r run => { run with start := r.params run.start }⟩
instance : Renumbers (Run Argument) := ⟨fun r run => { run with start := r.args run.start }⟩

end

instance : Renumbers Expr where
  renumber r
    | .int value => .int value
    | .float value => .float value
    | .str text => .str text
    | .ident name => .ident name
    | .list items => .list (renumber r items)
    | .block statements => .block (renumber r statements)
    | .index target specs => .index (renumber r target) (renumber r specs)
    | .member target name => .member (renumber r target) name
    | .cast operand type => .cast (renumber r operand) type
    | .binary op left right => .binary op (renumber r left) (renumber r right)
    | .unary op operand => .unary op (renumber r operand)
    | .ternary condition positive negative =>
      .ternary (renumber r condition) (renumber r positive) (renumber r negative)
    | .declare type name value yields => .declare type name (renumber r value) yields
    | .assign name op value yields => .assign name op (renumber r value) yields
    | .ifElse branches otherwise => .ifElse (renumber r branches) (renumber r otherwise)
    | .caseOf subject arms otherwise =>
      .caseOf (renumber r subject) (renumber r arms) (renumber r otherwise)
    | .iterate label first last step counter body =>
      .iterate label (renumber r first) (renumber r last) (renumber r step) counter
        (renumber r body)
    | .whileLoop label condition body =>
      .whileLoop label (renumber r condition) (renumber r body)
    | .define name params body => .define name (renumber r params) (renumber r body)
    | .call callee args => .call (renumber r callee) (renumber r args)
    | .returnValue value guard => .returnValue (renumber r value) (renumber r guard)
    | .breakLoop label guard => .breakLoop label (renumber r guard)
    | .continueLoop label guard => .continueLoop label (renumber r guard)

instance : Renumbers Node := ⟨fun r node => { node with expr := renumber r node.expr }⟩

namespace Renumbering

def forget : Renumbering :=
  ⟨fun _ => 0, fun _ => 0, fun _ => 0, fun _ => 0, fun _ => 0, fun _ => 0, fun _ => 0⟩

/-- The numbers behind the nodes and the side tables of an arena. -/
def behind (base : Arena) : Renumbering :=
  ⟨(base.nodes.size + ·), (base.lists.size + ·), (base.specs.size + ·), (base.branches.size + ·),
    (base.arms.size + ·), (base.params.size + ·), (base.args.size + ·)⟩

end Renumbering

/-! ## Trees -/

/-- What a node says on its own, without where its parts are. -/
structure Label where
  expr : Expr
  specs : List IndexSpec
  args : List Argument
  params : List Parameter

/-- What an expression says on its own, if the arena has its lists. -/
def Expr.label? (arena : Arena) (expr : Expr) : Option Label :=
  match expr with
  | .index _ specs =>
    (specs.entries? arena.specs).map fun specs =>
      ⟨renumber .forget expr, renumber .forget specs, [], []⟩
  | .call _ args =>
    (args.entries? arena.args).map fun args =>
      ⟨renumber .forget expr, [], renumber .forget args, []⟩
  | .define _ params _ =>
    (params.entries? arena.params).map fun params =>
      ⟨renumber .forget expr, [], [], renumber .forget params⟩
  | _ => some ⟨renumber .forget expr, [], [], []⟩

/-- A tree without any indices. -/
inductive Tree where
  | node (label : Label) (span : Span) (children : List Tree)

namespace Arena

/-- The tree below a node, if it has so many levels. -/
def treeWithin (arena : Arena) : Nat → NodeId → Option Tree
  | 0, _ => none
  | level + 1, id => do
    let node ← arena.node? id
    let label ← node.expr.label? arena
    let ids ← node.expr.children? arena
    let children ← ids.mapM (arena.treeWithin level)
    return .node label node.span children

/-- The tree below a node. Children are stored before their parents, so the levels suffice. -/
def tree? (arena : Arena) (id : NodeId) : Option Tree := arena.treeWithin arena.size id

/-- The trees of the statements of a block. -/
def statements? (arena : Arena) (root : NodeId) : Option (List Tree) :=
  match arena.node? root with
  | some ⟨.block run, _⟩ => do (← run.entries? arena.lists).mapM arena.tree?
  | _ => none

def append (base arena : Arena) : Arena where
  nodes := base.nodes ++ arena.nodes.map (renumber (.behind base))
  lists := base.lists ++ arena.lists.map (renumber (.behind base))
  specs := base.specs ++ arena.specs.map (renumber (.behind base))
  branches := base.branches ++ arena.branches.map (renumber (.behind base))
  arms := base.arms ++ arena.arms.map (renumber (.behind base))
  params := base.params ++ arena.params.map (renumber (.behind base))
  args := base.args ++ arena.args.map (renumber (.behind base))

end Arena

/-! ## What stays the same -/

theorem mapM_option_mono {α β γ : Type} {φ : α → β} {f : α → Option γ} {g : β → Option γ}
    {items : List α} {results : List γ}
    (h : ∀ item result, f item = some result → g (φ item) = some result)
    (hresults : items.mapM f = some results) : (items.map φ).mapM g = some results := by
  induction items generalizing results with
  | nil => exact hresults
  | cons item items ih =>
    simp only [List.map_cons, List.mapM_cons, Option.bind_eq_bind, Option.bind_eq_some_iff,
      Option.pure_def, Option.some.injEq] at hresults ⊢
    obtain ⟨first, hfirst, rest, hrest, rfl⟩ := hresults
    exact ⟨first, h item first hfirst, rest, ih hrest, rfl⟩

theorem length_of_mapM_option {α β : Type} {f : α → Option β} {items : List α} {results : List β}
    (h : items.mapM f = some results) : results.length = items.length := by
  induction items generalizing results with
  | nil =>
    cases h
    rfl
  | cons item items ih =>
    simp only [List.mapM_cons, Option.bind_eq_bind, Option.bind_eq_some_iff, Option.pure_def,
      Option.some.injEq] at h
    obtain ⟨first, -, rest, hrest, rfl⟩ := h
    simp [ih hrest]

namespace Arena

variable {a b : Arena} {φ : NodeId → NodeId} {id : NodeId} {tree : Tree}

/-- Whether all nodes of an arena are in another one, under other numbers. -/
def Embeds (φ : NodeId → NodeId) (a b : Arena) : Prop :=
  a.size ≤ b.size ∧ ∀ id node, a.node? id = some node →
    ∃ expr, b.node? (φ id) = some ⟨expr, node.span⟩ ∧
      (∀ label, node.expr.label? a = some label → expr.label? b = some label) ∧
      ∀ ids, node.expr.children? a = some ids → expr.children? b = some (ids.map φ)

theorem Embeds.treeWithin (h : Embeds φ a b) {n m : Nat} (hnm : n ≤ m)
    (htree : a.treeWithin n id = some tree) : b.treeWithin m (φ id) = some tree := by
  induction n generalizing m id tree with
  | zero => cases htree
  | succ n ih =>
    obtain ⟨m, rfl⟩ : ∃ k, m = k + 1 := ⟨m - 1, by omega⟩
    simp only [Arena.treeWithin, Option.bind_eq_bind, Option.bind_eq_some_iff, Option.pure_def,
      Option.some.injEq] at htree ⊢
    obtain ⟨node, hnode, label, hlabel, ids, hids, trees, htrees, rfl⟩ := htree
    obtain ⟨expr, hexpr, hlabels, hchildren⟩ := h.2 id node hnode
    exact ⟨_, hexpr, label, hlabels label hlabel, _, hchildren ids hids, trees,
      mapM_option_mono (fun id tree => ih (by omega)) htrees, rfl⟩

theorem Embeds.tree? (h : Embeds φ a b) (htree : a.tree? id = some tree) :
    b.tree? (φ id) = some tree := h.treeWithin h.1 htree

theorem Embeds.trees (h : Embeds φ a b) {ids : List NodeId} {trees : List Tree}
    (htrees : ids.mapM a.tree? = some trees) : (ids.map φ).mapM b.tree? = some trees :=
  mapM_option_mono (fun _ _ => h.tree?) htrees

theorem size_le (h : a ≤ b) : a.size ≤ b.size := h.nodes.length_le

end Arena

/-! ### Trees that are there -/

theorem mapM_option_exists {α β : Type} {f : α → Option β} {items : List α}
    (h : ∀ item ∈ items, ∃ result, f item = some result) :
    ∃ results, items.mapM f = some results := by
  induction items with
  | nil => exact ⟨[], rfl⟩
  | cons item items ih =>
    obtain ⟨first, hfirst⟩ := h item (by simp)
    obtain ⟨rest, hrest⟩ := ih fun item hitem => h item (by simp [hitem])
    exact ⟨first :: rest, by simp [hfirst, hrest]⟩

/-- Where the children of an expression are found, so is what it says on its own. -/
theorem Expr.label?_of_children {a : Arena} {expr : Expr} {ids : List NodeId}
    (h : expr.children? a = some ids) : ∃ label, expr.label? a = some label := by
  obtain ⟨parts, hparts, -⟩ := Option.map_eq_some_iff.mp h
  cases expr with
  | index target run | define name run body | call callee run =>
    obtain ⟨items, hitems, -⟩ := Option.map_eq_some_iff.mp hparts
    simp only [label?, hitems, Option.map_some, Option.some.injEq, exists_eq']
  | _ => exact ⟨_, rfl⟩

theorem Arena.WellFormed.treeWithin {a : Arena} (h : a.WellFormed) {n : Nat} {id : NodeId}
    (hid : id.index < n) (hn : n ≤ a.size) : ∃ tree, a.treeWithin n id = some tree := by
  induction n generalizing id with
  | zero => omega
  | succ n ih =>
    have hsize : id.index < a.size := by omega
    obtain ⟨node, hnode⟩ := Arena.node?_of_lt_size hsize
    obtain ⟨ids, hids, hlt⟩ := h id node hnode
    obtain ⟨label, hlabel⟩ := Expr.label?_of_children hids
    have hchildren : ∀ child ∈ ids, ∃ tree, a.treeWithin n child = some tree := by
      intro child hchild
      have hchild := hlt child hchild
      exact ih (by omega) (by omega)
    obtain ⟨trees, htrees⟩ := mapM_option_exists hchildren
    exact ⟨.node label node.span trees, by simp [Arena.treeWithin, hnode, hlabel, hids, htrees]⟩

/-- Nodes that are held are the roots of trees. -/
theorem Arena.Holds.trees {a : Arena} {held : List NodeId} (h : a.Holds held) :
    ∃ trees, held.mapM a.tree? = some trees :=
  mapM_option_exists fun _ hid => h.wellFormed.treeWithin (h.lt_size hid) (Nat.le_refl _)

/-! ### Arenas that grow -/

section
variable {a b : Arena} {expr : Expr} {label : Label}

theorem Expr.label?_mono (h : a ≤ b) (hlabel : expr.label? a = some label) :
    expr.label? b = some label := by
  cases expr with
  | index target run =>
    obtain ⟨items, hitems, rfl⟩ := Option.map_eq_some_iff.mp hlabel
    simp [label?, Run.entries?_mono hitems h.specs]
  | define name run body =>
    obtain ⟨items, hitems, rfl⟩ := Option.map_eq_some_iff.mp hlabel
    simp [label?, Run.entries?_mono hitems h.params]
  | call callee run =>
    obtain ⟨items, hitems, rfl⟩ := Option.map_eq_some_iff.mp hlabel
    simp [label?, Run.entries?_mono hitems h.args]
  | _ => exact hlabel

theorem Arena.embeds_of_le (h : a ≤ b) : Arena.Embeds (fun id => id) a b := by
  refine ⟨Arena.size_le h, fun id node hnode => ⟨node.expr, Arena.node?_mono h hnode, ?_, ?_⟩⟩
  · exact fun label => Expr.label?_mono h
  · intro ids hids
    rw [List.map_id']
    exact Expr.children?_mono h hids

end

/-! ### Arenas behind others -/

section
variable {base a : Arena} {expr : Expr} {label : Label}

theorem Run.entries?_append {α : Type} {run : Run α} {table : Array α} {items : List α}
    (h : run.entries? table = some items) (first : Array α) (f : α → α) :
    (Run.mk (first.size + run.start) run.length).entries? (first ++ table.map f) =
      some (items.map f) := by
  obtain ⟨hfits, rfl⟩ := entries?_eq_some.mp h
  refine entries?_eq_some.mpr ⟨by simp; omega, ?_⟩
  dsimp only
  have hgone : first.toList.drop (first.size + run.start) = [] :=
    List.drop_eq_nil_of_le (by simp)
  rw [Array.toList_append, List.drop_append, hgone]
  simp [List.map_take, List.map_drop]

theorem forget_renumber (r : Renumbering) (expr : Expr) :
    renumber .forget (renumber r expr) = renumber .forget expr := by
  cases expr <;> simp [renumber, Renumbering.forget, Option.map_map, Function.comp_def]

theorem Expr.label?_append (h : expr.label? a = some label) :
    (renumber (.behind base) expr).label? (base.append a) = some label := by
  have hsame := forget_renumber (.behind base) expr
  cases expr with
  | index target run =>
    obtain ⟨items, hitems, rfl⟩ := Option.map_eq_some_iff.mp h
    rw [← hsame]
    simp [label?, renumber, Arena.append, Renumbering.behind, Run.entries?_append hitems]
    intro spec _
    cases spec <;> rfl
  | define name run body =>
    obtain ⟨items, hitems, rfl⟩ := Option.map_eq_some_iff.mp h
    rw [← hsame]
    simp [label?, renumber, Arena.append, Renumbering.behind, Run.entries?_append hitems]
    exact fun param _ => by cases param.default <;> rfl
  | call callee run =>
    obtain ⟨items, hitems, rfl⟩ := Option.map_eq_some_iff.mp h
    rw [← hsame]
    simp [label?, renumber, Arena.append, Renumbering.behind, Run.entries?_append hitems]
    exact fun arg _ => rfl
  | _ =>
    cases h
    rw [← hsame]
    rfl

theorem Expr.children?_append {ids : List NodeId} (h : expr.children? a = some ids) :
    (renumber (.behind base) expr).children? (base.append a) =
      some (ids.map (renumber (.behind base))) := by
  obtain ⟨parts, hparts, rfl⟩ := Option.map_eq_some_iff.mp h
  cases expr with
  | list run | block run | call callee run =>
    obtain ⟨items, hitems, rfl⟩ := Option.map_eq_some_iff.mp hparts
    simp [children?, parts?, renumber, Arena.append, Renumbering.behind,
      Run.entries?_append hitems]
  | index target run =>
    obtain ⟨items, hitems, rfl⟩ := Option.map_eq_some_iff.mp hparts
    simp [children?, parts?, renumber, Arena.append, Renumbering.behind,
      Run.entries?_append hitems, List.map_flatMap, List.flatMap_map]
    exact List.flatMap_congr fun spec _ => by cases spec <;> rfl
  | ifElse run otherwise | caseOf subject run otherwise =>
    obtain ⟨items, hitems, rfl⟩ := Option.map_eq_some_iff.mp hparts
    simp [children?, parts?, renumber, Arena.append, Renumbering.behind,
      Run.entries?_append hitems, Option.toList_map, List.map_flatMap, List.flatMap_map]
  | define name run body =>
    obtain ⟨items, hitems, rfl⟩ := Option.map_eq_some_iff.mp hparts
    simp [children?, parts?, renumber, Arena.append, Renumbering.behind,
      Run.entries?_append hitems, Option.toList_map, List.map_flatMap, List.flatMap_map,
      Function.comp_def]
  | _ =>
    cases hparts
    simp [children?, parts?, renumber, Option.toList_map]

theorem Arena.node?_append (base a : Arena) (id : NodeId) :
    (base.append a).node? (renumber (.behind base) id) =
      (a.node? id).map (renumber (.behind base)) := by
  have hindex : (renumber (.behind base) id).index = base.nodes.size + id.index := rfl
  unfold Arena.node? Arena.append
  rw [hindex, Array.getElem?_append_right (Nat.le_add_right ..), Nat.add_sub_cancel_left,
    Array.getElem?_map]

/-- A node that is stored behind other ones is stored under its new number. -/
theorem Arena.append_push (base a : Arena) (expr : Expr) (span : Span) :
    (base.append a).push ⟨renumber (.behind base) expr, span⟩ =
      (renumber (.behind base) (a.push ⟨expr, span⟩).1,
        base.append (a.push ⟨expr, span⟩).2) := by
  simp [Arena.push, Arena.append, renumber, Renumbering.behind]

theorem Arena.embeds_append (base a : Arena) :
    Arena.Embeds (renumber (.behind base)) a (base.append a) := by
  refine ⟨?_, fun id node hnode => ?_⟩
  · simp [Arena.size, Arena.append]
  · refine ⟨renumber (.behind base) node.expr, ?_, ?_, ?_⟩
    · rw [Arena.node?_append, hnode]
      rfl
    · exact fun label => Expr.label?_append
    · exact fun ids => Expr.children?_append

end

end ExprScript
