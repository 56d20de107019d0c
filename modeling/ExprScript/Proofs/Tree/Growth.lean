import ExprScript.Tree.Arena
import Mathlib.Order.Basic

/-!
# Arenas that grow

A parser only adds to its arena. What was found in an arena is found in every larger one.
-/
namespace ExprScript

variable {α : Type}

namespace Run

theorem entries?_eq_some {run : Run α} {table : Array α} {items : List α} :
    run.entries? table = some items ↔
      run.start + run.length ≤ table.size ∧
        (table.toList.drop run.start).take run.length = items := by
  unfold entries?
  split
  · rename_i h
    simp [h, List.extract_eq_take_drop]
  · rename_i h
    simp [h]

theorem entries?_mono {run : Run α} {table larger : Array α} {items : List α}
    (h : run.entries? table = some items) (hgrows : table.toList <+: larger.toList) :
    run.entries? larger = some items := by
  obtain ⟨more, hmore⟩ := hgrows
  obtain ⟨hfits, rfl⟩ := entries?_eq_some.mp h
  have hsize : larger.size = table.size + more.length := by
    rw [← Array.length_toList, ← hmore, List.length_append, Array.length_toList]
  refine entries?_eq_some.mpr ⟨by omega, ?_⟩
  rw [← hmore, List.drop_append_of_le_length (by simp; omega),
    List.take_append_of_le_length (by simp; omega)]

theorem mem_of_entries? {run : Run α} {table : Array α} {items : List α}
    (h : run.entries? table = some items) : ∀ item ∈ items, item ∈ table := by
  obtain ⟨-, rfl⟩ := entries?_eq_some.mp h
  intro item hitem
  exact Array.mem_toList_iff.mp (List.mem_of_mem_drop (List.mem_of_mem_take hitem))

end Run

namespace Arena

/-- Every table of the second arena begins with that of the first. -/
structure Grows (a b : Arena) : Prop where
  nodes : a.nodes.toList <+: b.nodes.toList
  lists : a.lists.toList <+: b.lists.toList
  specs : a.specs.toList <+: b.specs.toList
  branches : a.branches.toList <+: b.branches.toList
  arms : a.arms.toList <+: b.arms.toList
  params : a.params.toList <+: b.params.toList
  args : a.args.toList <+: b.args.toList

instance : Preorder Arena where
  le := Grows
  le_refl _ := by constructor <;> exact List.prefix_rfl
  le_trans _ _ _ h k :=
    ⟨h.nodes.trans k.nodes, h.lists.trans k.lists, h.specs.trans k.specs,
      h.branches.trans k.branches, h.arms.trans k.arms, h.params.trans k.params,
      h.args.trans k.args⟩

theorem node?_mono {a b : Arena} (h : a ≤ b) {id : NodeId} {node : Node}
    (hnode : a.node? id = some node) : b.node? id = some node := by
  obtain ⟨more, hmore⟩ := h.nodes
  unfold node? at hnode ⊢
  rw [← Array.getElem?_toList] at hnode ⊢
  obtain ⟨hlt, -⟩ := List.getElem?_eq_some_iff.mp hnode
  rw [← hmore, List.getElem?_append_left hlt]
  exact hnode

theorem le_push (a : Arena) (node : Node) : a ≤ (a.push node).2 := by
  constructor <;> simp [push]

end Arena
end ExprScript
