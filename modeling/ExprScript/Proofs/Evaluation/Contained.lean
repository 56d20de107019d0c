import ExprScript.Proofs.Evaluation.Endings
import ExprScript.Proofs.Evaluation.Parts
import ExprScript.Proofs.Token.Spans

/-!
# Code in its own script

The index of a node means another node in every other arena, and a span means another stretch of
every other text. A script contains its root and the parts of what it contains. Code stays in its
script if it is asked of every node that the script in which it runs contains it; a script that was
read has all that it contains, and all its spans lie in its text.
-/
namespace ExprScript

namespace Script

variable {script : Script} {id : NodeId}

/-- The nodes that a script is made of. -/
inductive Contains (script : Script) : NodeId → Prop
  | root : script.Contains script.root
  | part {id : NodeId} {node : Node} {parts : List Part} {part : Part} (hid : script.Contains id)
      (hnode : script.arena.node? id = some node)
      (hparts : node.expr.parts? script.arena = some parts) (hpart : part ∈ parts) :
      script.Contains part.2

/-- The arena of a script has a node, and all lists that the node refers to. -/
def Finds (script : Script) (id : NodeId) : Prop :=
  ∃ node parts, script.arena.node? id = some node ∧ node.expr.parts? script.arena = some parts

/-- Nothing that a script contains is missing. -/
def Whole (script : Script) : Prop := ∀ id, script.Contains id → script.Finds id

/-- The spans of a script lie in its text. -/
structure Placed (script : Script) : Prop where
  nodes : ∀ node ∈ script.arena.nodes, node.span.LiesIn script.source
  args : ∀ arg ∈ script.arena.args, arg.span.LiesIn script.source

theorem finds_of_lt (h : script.arena.WellFormed) (hid : id.index < script.arena.size) :
    script.Finds id := by
  obtain ⟨node, hnode⟩ := Arena.node?_of_lt_size hid
  obtain ⟨ids, hids, -⟩ := h id node hnode
  obtain ⟨parts, hparts, -⟩ := Option.map_eq_some_iff.mp hids
  exact ⟨node, parts, hnode, hparts⟩

/-- Parts are stored before what they are parts of, so they are there if the root is. -/
theorem whole_of_wellFormed (h : script.arena.WellFormed)
    (hroot : script.root.index < script.arena.size) : script.Whole := by
  intro id hid
  refine finds_of_lt h ?_
  induction hid with
  | root => exact hroot
  | @part id node parts part _ hnode hparts hpart ih =>
    obtain ⟨ids, hids, hlt⟩ := h id node hnode
    have hchildren : node.expr.children? script.arena = some (parts.map (·.2)) := by
      simp [Expr.children?, hparts]
    cases hids.symm.trans hchildren
    exact Nat.lt_trans (hlt part.2 (List.mem_map_of_mem hpart)) ih

end Script

/-! ## Scripts that are read -/

namespace Eval

variable {file : SourceFile} {tokens : List Token} {script : Script} {m n : Machine}

/-- A script that is read is what parsing its tokens leaves. -/
theorem readScript_keeps {P : Span → Prop} (hP : Span.Closed P)
    (htokens : ∀ token ∈ tokens, P token.span) (h : readScript file tokens m = .ok script n) :
    ∃ result : ParseResult, result.Keeps P ∧ script = ⟨file, result.arena, result.root⟩ := by
  unfold readScript at h
  rcases parse_keeps hP m.names htokens with ⟨count, -, hparse⟩ | ⟨result, hparse, hkeeps⟩
  · rw [hparse] at h
    cases h
  · rw [hparse] at h
    dsimp only at h
    split at h
    · cases h
    · cases h
      exact ⟨result, hkeeps, rfl⟩

theorem source_of_readScript (h : readScript file tokens m = .ok script n) :
    script.source = file := by
  obtain ⟨result, -, rfl⟩ := readScript_keeps Span.closed_true (fun _ _ => trivial) h
  rfl

theorem whole_of_readScript (h : readScript file tokens m = .ok script n) : script.Whole := by
  obtain ⟨result, hkeeps, rfl⟩ := readScript_keeps Span.closed_true (fun _ _ => trivial) h
  exact Script.whole_of_wellFormed hkeeps.wellFormed (Nat.lt_of_succ_le (Nat.le_of_eq hkeeps.last))

theorem placed_of_readScript (htokens : ∀ token ∈ tokens, token.span.LiesIn file)
    (h : readScript file tokens m = .ok script n) : script.Placed := by
  obtain ⟨result, hkeeps, rfl⟩ := readScript_keeps (Span.liesIn_closed file) htokens h
  exact ⟨hkeeps.nodes, hkeeps.args⟩

theorem placed_of_readTokens {start : Position} (hstart : file.positionAt start.offset = start)
    (h : readTokens file start m = .ok tokens n) : ∀ token ∈ tokens, token.span.LiesIn file := by
  have hplaced := lexFrom_placed m.names hstart
  unfold readTokens at h
  dsimp only at h
  split at h
  · cases h
  · rename_i lexed houtcome
    cases h
    exact hplaced.tokens lexed houtcome

end Eval

/-! ## The discipline -/

namespace Discipline

variable {P : Script → Prop} {strays : Prop}

/-- Scripts have a property, and code runs in scripts that contain it. -/
def contained (P : Script → Prop) (strays : Prop) : Discipline where
  Region := Script
  insideLoop _ script := script
  ofFunction f := f.script
  ofScript script := script
  scriptOf script := script
  node script id := P script ∧ script.Contains id
  signal _ _ := True
  misses := False
  strays := strays

instance : (contained P True).Lax := ⟨trivial⟩

instance : (contained P strays).Anywhere := ⟨fun _ _ => trivial⟩

theorem contained_lawful (hwhole : ∀ script, P script → script.Whole)
    (hplaced : ∀ script, P script → strays ∨ script.Placed) : (contained P strays).Lawful where
  ofFunction _ := rfl
  ofScript _ := rfl
  insideLoop _ _ := rfl
  found := by
    intro script id hid hmissing
    obtain ⟨node, parts, hnode, -⟩ := hwhole script hid.1 id hid.2
    cases hnode.symm.trans hmissing
  node := by
    intro script id node hid hnode
    obtain ⟨found, parts, hfound, hparts⟩ := hwhole script hid.1 id hid.2
    cases hfound.symm.trans hnode
    have hspans := hplaced script hid.1
    refine ⟨parts_of hparts (fun part hpart => ?_) (fun _ _ => trivial) fun arg harg => ?_, ?_⟩
    · have hcontained : P script ∧ script.Contains part.2 := ⟨hid.1, .part hid.2 hnode hparts hpart⟩
      obtain ⟨standing, inner⟩ := part
      cases standing with
      | beside => exact hcontained
      | inLoop label => exact hcontained
      | inFunction | asDefault =>
        intro f hscript
        obtain rfl : f.script = script := hscript
        exact hcontained
    · exact hspans.imp_right fun h => h.args arg harg
    · exact hspans.imp_right fun h => h.nodes node (Array.mem_of_getElem? hnode)
  passLoop _ _ := trivial
  passFunction _ := trivial

theorem contained_script {script : Script} (h : P script) : (contained P strays).script script :=
  ⟨h, .root⟩

end Discipline
end ExprScript
