import ExprScript.Proofs.Evaluation.Steps

/-!
# Constructs without loops and calls
-/
namespace ExprScript.Simulation

variable {S : Simulation} {region : S.Region} {setting : S.Setting}
  {ev ev' : NodeId → Eval Value}

namespace LawfulConstructs

variable (law : S.LawfulConstructs)

include law

/-! ## Statements and branches -/

theorem runInPlace (hev : S.AlikeIn region ev ev') {body : NodeId} (hbody : S.node region body) :
    S.Rel region setting S.value (Eval.runInPlace ev body) (Eval.runInPlace ev' body) := by
  refine (law.node hbody).bind fun node hnode => ?_
  have hparts := hnode.1
  split
  · rename_i statements hexpr
    rw [hexpr] at hparts
    exact (law.entries hparts).bind fun ids hids => hev.runStatements hids
  · exact hev setting body hbody

theorem runInPlaceOr (hev : S.AlikeIn region ev ev') {id : Option NodeId}
    (hid : S.optional region id) :
    S.Rel region setting S.value (Eval.evalOr (Eval.runInPlace ev) id .null)
      (Eval.evalOr (Eval.runInPlace ev') id .null) :=
  AlikeIn.evalOr (fun _ _ h => law.runInPlace hev h) hid Value.holds_null

theorem evalBranches (hev : S.AlikeIn region ev ev') {otherwise : Option NodeId}
    (hother : S.optional region otherwise) {branches : List Branch}
    (h : ∀ b ∈ branches, S.node region b.condition ∧ S.node region b.body) :
    S.Rel region setting S.value (Eval.evalBranches ev otherwise branches)
      (Eval.evalBranches ev' otherwise branches) := by
  induction branches with
  | nil => exact law.runInPlaceOr hev hother
  | cons branch branches ih =>
    obtain ⟨hcondition, hbody⟩ := h branch (by simp)
    refine (hev setting _ hcondition).bind fun v _ => ?_
    split
    · exact law.runInPlace hev hbody
    · exact ih fun b hb => h b (by simp [hb])

theorem evalArms (hev : S.AlikeIn region ev ev') (subject : Value) {otherwise : Option NodeId}
    (hother : S.optional region otherwise) {arms : List CaseArm}
    (h : ∀ a ∈ arms, S.node region a.pattern ∧ S.node region a.body) :
    S.Rel region setting S.value (Eval.evalArms ev subject otherwise arms)
      (Eval.evalArms ev' subject otherwise arms) := by
  induction arms with
  | nil => exact law.runInPlaceOr hev hother
  | cons arm arms ih =>
    obtain ⟨hpattern, hbody⟩ := h arm (by simp)
    refine (hev setting _ hpattern).bind fun v _ => ?_
    split
    · exact law.runInPlace hev hbody
    · exact ih fun a ha => h a (by simp [ha])

theorem evalReturn (hev : S.AlikeIn region ev ev') {value guard : Option NodeId}
    (hvalue : S.optional region value) (hguard : S.optional region guard) {span : Span}
    (hspan : S.points region span) :
    S.Rel region setting S.value (Eval.evalReturn ev value guard span)
      (Eval.evalReturn ev' value guard span) := by
  refine (hev.guardHolds hguard).bind fun holds _ => ?_
  split
  · refine law.outsideFunctions.bind fun outside hinside => ?_
    split
    · exact law.fault ⟨⟨hspan, rfl⟩, rfl⟩
    · rename_i hfalse
      refine (hev.evalOr hvalue Value.holds_null).bind fun v hv => ?_
      exact law.throws ⟨hv, hinside (by simpa using hfalse)⟩
  · exact .pure Value.holds_null

/-- A signal to a loop that the region may send, if the guard holds. -/
theorem sendSignal (hev : S.AlikeIn region ev ev') {guard : Option NodeId} {e : Interrupt}
    (hguard : S.optional region guard) (he : S.raises region setting e) :
    S.Rel region setting S.value
      (do if ← Eval.guardHolds ev guard then throw e else return .null)
      (do if ← Eval.guardHolds ev' guard then throw e else return .null) := by
  refine (hev.guardHolds hguard).bind fun holds _ => ?_
  split
  · exact law.throws he
  · exact .pure Value.holds_null

/-! ## Operators, declarations and selections -/

theorem evalBinary (hev : S.AlikeIn region ev ev') (op : BinaryOp) {left right : NodeId}
    (hleft : S.node region left) (hright : S.node region right) :
    S.Rel region setting S.value (Eval.evalBinary ev op left right)
      (Eval.evalBinary ev' op left right) := by
  refine (law.spanOf hleft).bind fun leftSpan hleftSpan => ?_
  refine (law.spanOf hright).bind fun rightSpan hrightSpan => ?_
  refine (hev setting left hleft).bind fun a ha => ?_
  split
  · exact .pure (Value.holds_bool _)
  · exact .pure (Value.holds_bool _)
  · exact (hev setting right hright).bind fun b _ => .pure (Value.holds_bool _)
  · exact (hev setting right hright).bind fun b _ => .pure (Value.holds_bool _)
  · refine (hev setting right hright).bind fun b hb => ?_
    exact law.checked (Operate.binary_holds _ ha hb)
      (Operate.binary_reports (S.placed_closed _) _ hleftSpan hrightSpan)

theorem evalDeclare (hev : S.AlikeIn region ev ev') (type : DeclaredType) (name : Name)
    {value : Option NodeId} (hvalue : S.optional region value) (yields : Bool) {span : Span}
    (hspan : S.points region span) :
    S.Rel region setting S.value (Eval.evalDeclare ev type name value yields span)
      (Eval.evalDeclare ev' type name value yields span) := by
  refine (hev.initialValue type hvalue).bind fun v hv => ?_
  refine (law.text name).bind fun text _ => ?_
  have hcoerced := (Value.coerce_fits v type text span).and (Value.coerce_holds hv type text span)
  refine (law.checked hcoerced (Value.coerce_reports v type text hspan)).bind ?_
  intro coerced hcoerced
  refine (law.declare (v := ⟨coerced, type⟩) name hcoerced.1 hcoerced.2).bind fun _ _ => .pure ?_
  split
  · exact hcoerced.2
  · exact Value.holds_null

theorem selectOne (hev : S.AlikeIn region ev ev') {s : Sequence} {v : Value} (hv : S.value v)
    (hs : Sequence.ofValue? v = some s) {spec : IndexSpec} (hspec : S.spec region spec) :
    S.Rel region setting S.value (Eval.selectOne ev s spec) (Eval.selectOne ev' s spec) := by
  cases spec with
  | single index =>
    refine (law.spanOf hspec).bind fun span hspan => ?_
    refine (hev setting index hspec).bind fun i _ => ?_
    refine (law.checked (G := fun _ => True) (fun _ _ _ _ => trivial)
      (Select.position_reports _ i hspan)).bind fun place _ => ?_
    exact .pure (Sequence.holds_item hv hs place)
  | range first last =>
    obtain ⟨hfirst, hlast⟩ := hspec
    refine (law.spanOf hfirst).bind fun firstSpan hfirstSpan => ?_
    refine (law.spanOf hlast).bind fun lastSpan hlastSpan => ?_
    refine (hev setting first hfirst).bind fun lo _ => ?_
    refine (hev setting last hlast).bind fun hi _ => ?_
    refine (law.checked (G := fun _ => True) (fun _ _ _ _ => trivial)
      (Select.bound_reports _ lo hfirstSpan)).bind fun lo _ => ?_
    refine (law.checked (G := fun _ => True) (fun _ _ _ _ => trivial)
      (Select.bound_reports _ hi hlastSpan)).bind fun hi _ => ?_
    exact .pure (Sequence.holds_slice hv hs _)

theorem evalIndex (hev : S.AlikeIn region ev ev') {target : NodeId} {specs : Run IndexSpec}
    (htarget : S.node region target)
    (hspecs : S.entries region specs Arena.specs (S.spec region)) :
    S.Rel region setting S.value (Eval.evalIndex ev target specs)
      (Eval.evalIndex ev' target specs) := by
  refine (law.spanOf htarget).bind fun span hspan => ?_
  refine (hev setting target htarget).bind fun v hv => ?_
  split
  · exact law.fault ⟨⟨hspan, rfl⟩, rfl⟩
  · rename_i s hs
    refine (law.entries hspecs).bind fun items hitems => ?_
    refine (Rel.mapM_all fun spec hspec => law.selectOne hev hv hs (hitems spec hspec)).bind ?_
    intro selected hselected
    split
    · exact .pure (hselected _ (by simp))
    · exact .pure (Value.holds_list.mpr hselected)

theorem evalMember (hev : S.AlikeIn region ev ev') {target : NodeId}
    (htarget : S.node region target) (name : Name) {span : Span} (hspan : S.points region span) :
    S.Rel region setting S.value (Eval.evalMember ev target name span)
      (Eval.evalMember ev' target name span) := by
  refine (hev setting target htarget).bind fun v _ => ?_
  refine (law.text name).bind fun text _ => ?_
  split
  · exact .pure (Value.holds_str _)
  · split
    · exact .pure (Value.holds_int _)
    · exact law.fault ⟨⟨hspan, rfl⟩, rfl⟩
  · exact law.fault ⟨⟨hspan, rfl⟩, rfl⟩

end LawfulConstructs

end ExprScript.Simulation
