import ExprScript.Proofs.Parser.Storing

/-!
# Statements and blocks

Signals are parsed only inside of loops, with a label that is known there.
-/
namespace ExprScript.Parser

variable {loops : Loops} {a : Arena}

def Forms (g : Grammar) : Prop :=
  ∀ place loops a, Builds loops a (Parsed loops) (g place)

variable {g : Grammar} (hg : Forms g)

include hg

theorem builds_guard : Builds loops a (ParsedOption loops) (guard g) := by
  refine (quiet_eatKeyword .ifWord).then fun _ => ?_
  split
  · exact builds_some (hg .ternary loops a)
  · exact builds_none

theorem builds_returnedValue : Builds loops a (ParsedOption loops) (returnedValue g) := by
  refine quiet_atBoundary.then fun _ => (quiet_checkKeyword .ifWord).then fun _ => ?_
  split
  · exact builds_none
  · exact builds_some (hg .expr loops a)

theorem builds_returnStatement : Builds loops a (Parsed loops) (returnStatement g) := by
  refine quiet_advance.then fun start => (builds_returnedValue hg).bind fun b value _ hvalue => ?_
  refine (builds_guard hg).bind fun c guard hbc hguard => (quiet_spanFrom _).then fun _ => ?_
  refine .node (parsed_beside rfl rfl fun id hid => ?_) _
  rcases List.mem_append.mp hid with hid | hid
  · exact hvalue.mono hbc id (by simpa using hid)
  · exact hguard id (by simpa using hid)

omit hg in
theorem builds_loopLabel :
    Builds loops a (fun _ label => loops ≠ [] → loops.Has label) loopLabel := by
  refine (quiet_eat .atSign).then fun _ => ?_
  split
  · refine quiet_currentSpan.then fun _ => (quiet_identifier _).then fun name => ?_
    refine .context fun c hc => ?_
    split
    · rename_i hcontains
      refine .pure fun _ _ hloops => ⟨hloops, fun other hother => ?_⟩
      cases hother
      rw [← hc]
      simpa using hcontains
    · exact (quiet_textOf name).then fun _ => .fail _
  · exact .pure fun _ _ hloops => ⟨hloops, fun _ h => by cases h⟩

theorem builds_loopControl (keyword : Keyword) {build : Option Name → Option NodeId → Expr}
    (hsignal : ∀ label condition, (build label condition).signal? = some label)
    (hparts : ∀ label condition b,
      (build label condition).parts? b = some (beside condition.toList)) :
    Builds loops a (Parsed loops) (loopControl g keyword build) := by
  refine quiet_advance.then fun start => .context fun c hc => ?_
  split
  · exact .fail _
  · rename_i hnone
    have hloops : loops ≠ [] := by
      rw [← hc]
      simpa using hnone
    refine builds_loopLabel.bind fun b label _ hlabel => ?_
    refine (builds_guard hg).bind fun b condition _ hcondition => ?_
    refine (quiet_spanFrom _).then fun _ => ?_
    refine .node ⟨fun signal hsome => ?_, _, hparts label condition b, fun part hpart => ?_⟩ _
    · rw [hsignal] at hsome
      cases hsome
      exact hlabel hloops
    · obtain ⟨id, hid, rfl⟩ := List.mem_map.mp hpart
      exact hcondition id (by simpa using hid)

theorem builds_statement : Builds loops a (Parsed loops) (statement g) := by
  refine quiet_current.then fun token => ?_
  split
  · exact builds_returnStatement hg
  · exact builds_loopControl hg .breakWord (fun _ _ => rfl) fun _ _ _ => rfl
  · exact builds_loopControl hg .continueWord (fun _ _ => rfl) fun _ _ _ => rfl
  · exact hg .expr loops a

theorem builds_nextStatement {before : List NodeId} (hbefore : ParsedList loops a before) :
    Builds loops a (Round (ParsedList loops) fun b body => ParsedList loops b body.nodes)
      (nextStatement g before) := by
  refine quiet_skipNewlines.then fun _ => (quiet_check .eof).then fun _ =>
    (quiet_check _).then fun _ => ?_
  split
  · exact .pure fun b hab id hid => hbefore.mono hab id (List.mem_reverse.mp hid)
  · refine (builds_statement hg).orStop.bind fun b read hab hread => ?_
    split
    · exact .pure fun c hbc id hid => hbefore.mono (hab.trans hbc) id (List.mem_reverse.mp hid)
    · rename_i last
      have hall : ParsedList loops b (last :: before) := by
        intro id hid
        rcases List.mem_cons.mp hid with rfl | hid
        · exact hread _ rfl
        · exact hbefore.mono hab id hid
      refine quiet_current.then fun token => ?_
      split
      · exact .pure fun c hbc => hall.mono hbc
      · exact .pure fun c hbc => hall.mono hbc
      · exact .pure fun c hbc => hall.mono hbc
      · exact .pure fun c hbc id hid => hall.mono hbc id (List.mem_reverse.mp hid)
      · exact .failFound _

theorem builds_statements :
    Builds loops a (fun b body => ParsedList loops b body.nodes) (statements g) :=
  .repeating (ParsedList loops) (fun _ h => by cases h)
    fun _ _ _ hbefore => builds_nextStatement hg hbefore

theorem builds_block : Builds loops a (Parsed loops) (block g) := by
  refine quiet_currentSpan.then fun opened => (quiet_eat _).then fun _ => ?_
  split
  · refine (builds_statements hg).bind fun b body _ hbody => ?_
    refine (quiet_expectCloser _ _ _).then fun closed => ?_
    refine (builds_storeList body.nodes).bind fun c list hbc hlist => ?_
    have hparts : (Expr.block list).parts? c = some (beside body.nodes) := by
      simp [Expr.parts?, hlist]
    exact .node (parsed_beside hparts rfl (hbody.mono hbc)) _
  · exact .failExpected _

end ExprScript.Parser
