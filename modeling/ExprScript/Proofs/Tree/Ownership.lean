import ExprScript.Proofs.Tree.Signals
import Mathlib.Data.List.Perm.Basic
import Mathlib.Data.List.Nodup
import Mathlib.Data.List.Pairwise

/-!
# Who owns the nodes of an arena

While a tree is built, every node of its arena is either a child of exactly one later node or still
held by the builder. When the root is all that is held, the nodes make up one tree.
-/
namespace ExprScript

variable {a b : Arena} {expr : Expr} {id : NodeId} {node : Node}

/-- The children of an expression, if the arena has the lists of them. -/
def Expr.children? (arena : Arena) (expr : Expr) : Option (List NodeId) :=
  (expr.parts? arena).map (·.map (·.2))

theorem Expr.children?_mono (h : a ≤ b) {ids : List NodeId} (hids : expr.children? a = some ids) :
    expr.children? b = some ids := by
  obtain ⟨parts, hparts, rfl⟩ := Option.map_eq_some_iff.mp hids
  simp [children?, parts?_mono h hparts]

@[simp] theorem map_snd_beside (ids : List NodeId) : (beside ids).map (·.2) = ids :=
  (List.map_map ..).trans (List.map_id ids)

namespace Arena

def childrenOf (arena : Arena) (id : NodeId) : List NodeId :=
  match arena.node? id with
  | some node => (node.expr.children? arena).getD []
  | none => []

/-- All nodes, in the order in which they were stored. -/
def ids (arena : Arena) : List NodeId := (List.range arena.size).map NodeId.mk

def children (arena : Arena) : List NodeId := arena.ids.flatMap arena.childrenOf

/-- Every node finds its lists of children in the side tables, and was stored after its children. -/
def WellFormed (arena : Arena) : Prop :=
  ∀ id node, arena.node? id = some node →
    ∃ ids, node.expr.children? arena = some ids ∧ ∀ child ∈ ids, child.index < id.index

/-- Every node is either the child of one node or held, and that once. -/
structure Holds (arena : Arena) (held : List NodeId) : Prop where
  wellFormed : arena.WellFormed
  once : (arena.children ++ held).Perm arena.ids

theorem mem_ids : id ∈ a.ids ↔ id.index < a.size := by
  cases id
  simp [ids]

theorem lt_size_of_node? (h : a.node? id = some node) : id.index < a.size :=
  (Array.getElem?_eq_some_iff.mp h).1

theorem node?_of_lt_size (h : id.index < a.size) : ∃ node, a.node? id = some node :=
  ⟨_, Array.getElem?_eq_getElem h⟩

theorem childrenOf_eq {ids : List NodeId} (hnode : a.node? id = some node)
    (hids : node.expr.children? a = some ids) : a.childrenOf id = ids := by
  simp [childrenOf, hnode, hids]

theorem WellFormed.lt_of_mem (h : a.WellFormed) {child : NodeId}
    (hchild : child ∈ a.childrenOf id) :
    child.index < id.index := by
  cases hnode : a.node? id with
  | none => simp [childrenOf, hnode] at hchild
  | some node =>
    obtain ⟨ids, hids, hlt⟩ := h id node hnode
    rw [childrenOf_eq hnode hids] at hchild
    exact hlt child hchild

/-! ## Arenas that grow -/

theorem WellFormed.childrenOf_mono (h : a.WellFormed) (hab : a ≤ b) (hid : id.index < a.size) :
    b.childrenOf id = a.childrenOf id := by
  obtain ⟨node, hnode⟩ := node?_of_lt_size hid
  obtain ⟨ids, hids, -⟩ := h id node hnode
  rw [childrenOf_eq hnode hids, childrenOf_eq (node?_mono hab hnode) (Expr.children?_mono hab hids)]

/-- Only new nodes are to be looked at. -/
theorem WellFormed.grow (h : a.WellFormed) (hab : a ≤ b)
    (hnew : ∀ id node, b.node? id = some node → a.size ≤ id.index →
      ∃ ids, node.expr.children? b = some ids ∧ ∀ child ∈ ids, child.index < id.index) :
    b.WellFormed := by
  intro id node hnode
  rcases Nat.lt_or_ge id.index a.size with hid | hid
  · obtain ⟨old, hold⟩ := node?_of_lt_size hid
    cases hnode.symm.trans (node?_mono hab hold)
    obtain ⟨ids, hids, hlt⟩ := h id node hold
    exact ⟨ids, Expr.children?_mono hab hids, hlt⟩
  · exact hnew id node hnode hid

theorem holds_empty : empty.Holds [] where
  wellFormed id node hnode := by simp [node?, empty] at hnode
  once := .refl _

theorem Holds.perm {held held' : List NodeId} (h : a.Holds held) (hperm : held.Perm held') :
    a.Holds held' :=
  ⟨h.wellFormed, (hperm.symm.append_left _).trans h.once⟩

theorem Holds.lt_size {held : List NodeId} (h : a.Holds held) (hid : id ∈ held) :
    id.index < a.size :=
  mem_ids.mp (h.once.subset (List.mem_append_right _ hid))

theorem Holds.tables {held : List NodeId} (h : a.Holds held) (hab : a ≤ b)
    (hnodes : b.nodes = a.nodes) : b.Holds held := by
  have hsize : b.size = a.size := congrArg Array.size hnodes
  have hids : b.ids = a.ids := by rw [ids, hsize, ids]
  have hchildren : b.children = a.children := by
    unfold children
    rw [hids]
    exact List.flatMap_congr fun id hid => h.wellFormed.childrenOf_mono hab (mem_ids.mp hid)
  refine ⟨h.wellFormed.grow hab fun id node hnode hid => ?_, by rw [hchildren, hids]; exact h.once⟩
  have hlt := lt_size_of_node? hnode
  omega

theorem size_push (a : Arena) (node : Node) : (a.push node).2.size = a.size + 1 := by
  simp [push, size]

theorem ids_push (a : Arena) (node : Node) :
    (a.push node).2.ids = a.ids ++ [(a.push node).1] := by
  simp [ids, size_push, List.range_succ]
  rfl

theorem WellFormed.push (h : a.WellFormed) {ids : List NodeId} (hids : expr.children? a = some ids)
    (hlt : ∀ child ∈ ids, child.index < a.size) (span : Span) :
    (a.push ⟨expr, span⟩).2.WellFormed := by
  refine h.grow (a.le_push _) fun id node hnode hid => ?_
  have hlast : id = (a.push ⟨expr, span⟩).1 := by
    have := lt_size_of_node? hnode
    rw [size_push] at this
    cases id
    simp [Arena.push, size] at this hid ⊢
    omega
  rw [hlast, node?_push] at hnode
  cases hnode
  refine ⟨ids, Expr.children?_mono (a.le_push _) hids, fun child hchild => ?_⟩
  rw [hlast]
  exact hlt child hchild

theorem Holds.push {held frame ids : List NodeId} (h : a.Holds held)
    (hids : expr.children? a = some ids) (hperm : held.Perm (ids ++ frame)) (span : Span) :
    (a.push ⟨expr, span⟩).2.Holds ((a.push ⟨expr, span⟩).1 :: frame) := by
  have hlt : ∀ child ∈ ids, child.index < a.size := fun child hchild =>
    h.lt_size (hperm.mem_iff.mpr (List.mem_append_left _ hchild))
  refine ⟨h.wellFormed.push hids hlt span, ?_⟩
  have hgrows := a.le_push ⟨expr, span⟩
  have hold : a.ids.flatMap (a.push ⟨expr, span⟩).2.childrenOf = a.children :=
    List.flatMap_congr fun id hid => h.wellFormed.childrenOf_mono hgrows (mem_ids.mp hid)
  have hnew : (a.push ⟨expr, span⟩).2.childrenOf (a.push ⟨expr, span⟩).1 = ids :=
    childrenOf_eq (node?_push ..) (Expr.children?_mono hgrows hids)
  have hchildren : (a.push ⟨expr, span⟩).2.children = a.children ++ ids := by
    rw [children, ids_push, List.flatMap_append, hold, List.flatMap_singleton, hnew]
  have hmoved : (ids ++ (a.push ⟨expr, span⟩).1 :: frame).Perm
      ((ids ++ frame) ++ [(a.push ⟨expr, span⟩).1]) :=
    List.perm_middle.trans (List.perm_append_singleton _ _).symm
  rw [hchildren, ids_push, List.append_assoc]
  refine (hmoved.append_left _).trans ?_
  rw [← List.append_assoc]
  exact ((hperm.symm.append_left _).trans h.once).append_right _

/-! ## Trees -/

/-- A node and everything below it, each node in front of its children. -/
def nodesUnder (arena : Arena) (id : NodeId) : List NodeId :=
  id :: (arena.childrenOf id).flatMap fun child =>
    if child.index < id.index then arena.nodesUnder child else []
termination_by id.index

/-- Every node but the root is a child of exactly one node, and that once, so the nodes below the
root are as many as the arena has. -/
structure IsTree (arena : Arena) (root : NodeId) : Prop where
  root_free : ∀ parent, root ∉ arena.childrenOf parent
  owned : ∀ id, id.index < arena.size → id ≠ root →
    ∃ parent, (arena.childrenOf parent).count id = 1 ∧
      ∀ other, id ∈ arena.childrenOf other → other = parent
  size_eq : arena.size = (arena.nodesUnder root).length

theorem WellFormed.nodesUnder_eq (h : a.WellFormed) (id : NodeId) :
    a.nodesUnder id = id :: (a.childrenOf id).flatMap a.nodesUnder := by
  rw [nodesUnder]
  refine congrArg (id :: ·) (List.flatMap_congr fun child hchild => ?_)
  rw [if_pos (h.lt_of_mem hchild)]

/-- Where only the root is held, all nodes are below it. -/
theorem Holds.nodesUnder_perm {root : NodeId} (h : a.Holds [root]) :
    (a.nodesUnder root).Perm a.ids := by
  -- All that lies below some node is counted twice, by its nodes and by their children.
  have hsplit : (a.ids.flatMap a.nodesUnder).Perm (a.ids ++ a.children.flatMap a.nodesUnder) := by
    rw [children, List.flatMap_assoc,
      List.flatMap_congr fun id _ => h.wellFormed.nodesUnder_eq id]
    simpa using (List.map_append_flatMap_perm a.ids id
      fun id => (a.childrenOf id).flatMap a.nodesUnder).symm
  have hheld : (a.ids.flatMap a.nodesUnder).Perm
      (a.children.flatMap a.nodesUnder ++ a.nodesUnder root) := by
    simpa using h.once.symm.flatMap_right a.nodesUnder
  exact (List.perm_append_left_iff _).mp
    ((hheld.symm.trans hsplit).trans List.perm_append_comm)

theorem nodup_ids (a : Arena) : a.ids.Nodup :=
  List.Nodup.map (fun _ _ h => congrArg NodeId.index h) List.nodup_range

theorem mem_ids_of_mem_childrenOf {parent : NodeId} (h : id ∈ a.childrenOf parent) :
    parent ∈ a.ids := by
  cases hnode : a.node? parent with
  | none => simp [childrenOf, hnode] at h
  | some node => exact mem_ids.mpr (lt_size_of_node? hnode)

theorem Holds.not_mem_children {held : List NodeId} (h : a.Holds held) (hid : id ∈ held) :
    id ∉ a.children :=
  fun hchild => (List.nodup_append.mp (h.once.nodup_iff.mpr a.nodup_ids)).2.2 id hchild id hid rfl

theorem Holds.isTree {root : NodeId} (h : a.Holds [root]) : a.IsTree root where
  root_free parent hroot :=
    h.not_mem_children List.mem_cons_self
      (List.mem_flatMap.mpr ⟨parent, mem_ids_of_mem_childrenOf hroot, hroot⟩)
  owned id hid hroot := by
    have hnodup : a.children.Nodup :=
      (List.nodup_append.mp (h.once.nodup_iff.mpr a.nodup_ids)).1
    obtain ⟨heach, hapart⟩ := List.nodup_flatMap.mp hnodup
    have hsymm : Std.Symm (Function.onFun List.Disjoint a.childrenOf) :=
      ⟨fun _ _ h _ hx hy => h hy hx⟩
    have hchild : id ∈ a.children := by
      rcases List.mem_append.mp (h.once.mem_iff.mpr (mem_ids.mpr hid)) with hchild | hheld
      · exact hchild
      · exact absurd (List.mem_singleton.mp hheld) hroot
    obtain ⟨parent, hparent, hmem⟩ := List.mem_flatMap.mp hchild
    refine ⟨parent, List.count_eq_one_of_mem (heach parent hparent) hmem, fun other hother => ?_⟩
    by_contra hne
    exact hapart.forall (mem_ids_of_mem_childrenOf hother) hparent hne hother hmem
  size_eq := by simpa [ids] using h.nodesUnder_perm.length_eq.symm

end Arena
end ExprScript
