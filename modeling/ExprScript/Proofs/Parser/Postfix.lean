import ExprScript.Proofs.Parser.Primary

/-!
# What stands behind an atom
-/
namespace ExprScript.Parser

variable {loops : Loops} {a : Arena} {g : Grammar} (hg : Forms g)

include hg

omit hg in
theorem quiet_argumentName : Quiet argumentName := by
  refine quiet_current.bind fun token => quiet_peek.bind fun behind => ?_
  split
  · exact quiet_advance.bind fun _ => quiet_advance.bind fun _ => .pure _
  · exact quiet_advance.bind fun _ => quiet_advance.bind fun _ => (quiet_textOf _).bind fun _ =>
      (quiet_warn _ _ _).bind fun _ => .pure _
  · exact .pure _

theorem builds_argument :
    Builds loops a (fun b arg => Parsed loops b arg.value) (argument g) := by
  refine quiet_currentSpan.then fun start => quiet_argumentName.then fun name => ?_
  refine (hg .ternary loops a).bind fun b value _ hvalue => (quiet_spanFrom _).then fun _ => ?_
  exact .pure fun c hbc => hvalue.mono hbc

theorem builds_call {callee : NodeId} (hcallee : Parsed loops a callee) :
    Builds loops a (Parsed loops) (call g callee) := by
  refine quiet_advance.then fun opened => ?_
  refine (builds_commaList (fun _ => builds_argument hg) (fun _ _ _ hbc h => Formed.mono hbc h)
    .paren).bind fun b args hab hargs => (quiet_expectCloser _ _ _).then fun closed => ?_
  refine (builds_storeArgs args).bind fun c run hbc hrun => (quiet_spanOf _).then fun _ => ?_
  have hparts : (Expr.call callee run).parts? c = some (beside (callee :: args.map (·.value))) := by
    simp [Expr.parts?, hrun]
  refine .node (parsed_beside hparts rfl fun id hid => ?_) _
  rcases List.mem_cons.mp hid with rfl | hid
  · exact hcallee.mono (hab.trans hbc)
  · obtain ⟨arg, harg, rfl⟩ := List.mem_map.mp hid
    exact (hargs arg harg).mono hbc

theorem builds_indexSpec :
    Builds loops a (fun b spec => ParsedList loops b spec.nodes) (indexSpec g) := by
  refine (hg .ternary loops a).bind fun b first _ hfirst => ?_
  refine (quiet_eatKeyword .toWord).then fun _ => ?_
  split
  · refine (hg .ternary loops b).bind fun c last hbc hlast => .pure fun d hcd id hid => ?_
    rcases List.mem_cons.mp hid with rfl | hid
    · exact hfirst.mono (hbc.trans hcd)
    · rw [List.mem_singleton.mp hid]
      exact hlast.mono hcd
  · refine .pure fun c hbc id hid => ?_
    rw [List.mem_singleton.mp hid]
    exact hfirst.mono hbc

theorem builds_nextSpec {before : List IndexSpec}
    (hbefore : ∀ spec ∈ before, ParsedList loops a spec.nodes) :
    Builds loops a
      (Round (fun b before => ∀ spec ∈ before, ParsedList loops b spec.nodes)
        fun b specs => ∀ spec ∈ specs, ParsedList loops b spec.nodes)
      (nextSpec g before) := by
  refine (builds_indexSpec hg).bind fun b spec hab hspec => quiet_skipNewlines.then fun _ => ?_
  have hall : ∀ c, b ≤ c → ∀ other ∈ spec :: before, ParsedList loops c other.nodes := by
    intro c hbc other hother
    rcases List.mem_cons.mp hother with rfl | hother
    · exact hspec.mono hbc
    · exact (hbefore other hother).mono (hab.trans hbc)
  refine (quiet_eat _).then fun _ => ?_
  split
  · exact quiet_skipNewlines.then fun _ => .pure fun c hbc => hall c hbc
  · exact .pure fun c hbc other hother => hall c hbc other (List.mem_reverse.mp hother)

theorem builds_index {target : NodeId} (htarget : Parsed loops a target) :
    Builds loops a (Parsed loops) (index g target) := by
  refine quiet_advance.then fun opened => quiet_skipNewlines.then fun _ => (quiet_eat _).then ?_
  intro closes
  split
  · exact .pure fun b hab => htarget.mono hab
  · refine (Builds.repeating (fun b before => ∀ spec ∈ before, ParsedList loops b spec.nodes)
      (fun _ h => by cases h) fun _ _ _ hbefore => builds_nextSpec hg hbefore).bind ?_
    intro b specs hab hspecs
    refine (quiet_expectCloser _ _ _).then fun closed => ?_
    refine (builds_storeSpecs specs).bind fun c run hbc hrun => (quiet_spanOf _).then fun _ => ?_
    have hparts : (Expr.index target run).parts? c =
        some (beside (target :: specs.flatMap IndexSpec.nodes)) := by
      simp [Expr.parts?, hrun]
    refine .node (parsed_beside hparts rfl fun id hid => ?_) _
    rcases List.mem_cons.mp hid with rfl | hid
    · exact htarget.mono (hab.trans hbc)
    · obtain ⟨spec, hspec, hid⟩ := List.mem_flatMap.mp hid
      exact (hspecs spec hspec).mono hbc id hid

omit hg in
theorem builds_member {target : NodeId} (htarget : Parsed loops a target) :
    Builds loops a (Parsed loops) (member target) :=
  quiet_advance.then fun _ => (quiet_identifier _).then fun _ => (quiet_spanOf _).then fun _ =>
    (quiet_spanFrom _).then fun _ => .node (parsed_one rfl rfl htarget) _

omit hg in
theorem builds_cast {operand : NodeId} (hoperand : Parsed loops a operand) :
    Builds loops a (Parsed loops) (cast operand) := by
  refine quiet_advance.then fun _ => quiet_current.then fun token => ?_
  split
  · exact .failFound _
  · refine quiet_advance.then fun _ => (quiet_spanOf _).then fun _ => ?_
    exact (quiet_spanFrom _).then fun _ => .node (parsed_one rfl rfl hoperand) _

theorem builds_nextPostfix {target : NodeId} (htarget : Parsed loops a target) :
    Builds loops a (Round (Parsed loops) (Parsed loops)) (nextPostfix g target) := by
  refine quiet_current.then fun token => ?_
  split
  · exact .map (builds_call hg htarget)
  · exact .map (builds_index hg htarget)
  · exact .map (builds_member htarget)
  · exact .map (builds_cast htarget)
  · exact .pure fun b hab => htarget.mono hab

theorem builds_suffixed : Builds loops a (Parsed loops) (suffixed g) :=
  (builds_atom hg).bind fun _ _ _ htarget =>
    .repeating (Parsed loops) htarget fun _ _ _ htarget => builds_nextPostfix hg htarget

end ExprScript.Parser
