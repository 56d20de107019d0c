import ExprScript.Proofs.Evaluation.Steps

/-!
# Loops

A loop is an induction on its rounds: each runs the body, in the region inside of the loop.
-/
namespace ExprScript.Simulation

variable {S : Simulation} {region : S.Region} {setting : S.Setting}
  {ev ev' : NodeId → Eval Value}

namespace LawfulConstructs

variable (law : S.LawfulConstructs)

include law

theorem whileLoop {label : Option Name} {condition condition' body body' : Eval Value}
    (hcondition : S.Rel region setting S.value condition condition')
    (hbody : S.Rel (S.insideLoop label region) setting S.value body body') {rounds rounds' : Nat}
    (hrounds : S.levels rounds rounds') :
    S.Rel region setting S.value (Eval.whileLoop label condition body rounds)
      (Eval.whileLoop label condition' body' rounds') := by
  induction rounds, rounds', hrounds using byLevels with
  | zero => exact law.outOfLevels
  | fewer hforgiving => exact .lost_left hforgiving _
  | more rounds rounds' _ _ ih =>
    refine hcondition.bind fun v _ => ?_
    split
    · refine (law.runBody label hbody).bind fun flow _ => ?_
      cases flow with
      | next => exact ih
      | stop => exact .pure Value.holds_null
    · exact .pure Value.holds_null

theorem eachLoop {label : Option Name} (counter : Option Name) {body body' : Eval Value}
    (hbody : S.Rel (S.insideLoop label region) setting S.value body body') {items : List Value}
    (hitems : ∀ item ∈ items, S.value item) :
    S.Rel region setting S.value (Eval.eachLoop label counter body items)
      (Eval.eachLoop label counter body' items) := by
  induction items with
  | nil => exact .pure Value.holds_null
  | cons item items ih =>
    refine (law.setCounter counter (hitems item (by simp))).bind fun _ _ => ?_
    refine (law.runBody label hbody).bind fun flow _ => ?_
    cases flow with
    | next => exact ih fun i hi => hitems i (by simp [hi])
    | stop => exact .pure Value.holds_null

theorem countLoop {parts : IterateParts} {body body' : Eval Value}
    (hbody : S.Rel (S.insideLoop parts.label region) setting S.value body body')
    (last step : Number) (toward : Ordering) {span : Span} (hspan : S.points region span)
    {rounds rounds' : Nat} (hrounds : S.levels rounds rounds') (counter : Number) :
    S.Rel region setting S.value (Eval.countLoop parts body last step toward span rounds counter)
      (Eval.countLoop parts body' last step toward span rounds' counter) := by
  induction rounds, rounds', hrounds using byLevels generalizing counter with
  | zero => exact law.outOfLevels
  | fewer hforgiving => exact .lost_left hforgiving _
  | more rounds rounds' _ _ ih =>
    unfold Eval.countLoop
    split
    · refine (law.setCounter parts.counter (Value.holds_number counter)).bind fun _ _ => ?_
      refine (law.runBody parts.label hbody).bind fun flow _ => ?_
      refine (law.readCounter parts.counter counter hspan).bind fun counter _ => ?_
      cases flow with
      | stop => exact .pure Value.holds_null
      | next =>
        dsimp only
        split
        · exact ih _
        · exact law.fault ⟨⟨hspan, rfl⟩, rfl⟩
    · exact .pure Value.holds_null

theorem loopNumber (hev : S.AlikeIn region ev ev') {id : Option NodeId}
    (hid : S.optional region id) (usage : String) (otherwise : Number) :
    S.Rel region setting (fun _ => True) (Eval.loopNumber ev id usage otherwise)
      (Eval.loopNumber ev' id usage otherwise) := by
  cases id with
  | none => exact .pure trivial
  | some id =>
    refine (law.spanOf (hid id rfl)).bind fun span hspan => ?_
    refine (hev setting id (hid id rfl)).bind fun v _ => ?_
    split
    · exact .pure trivial
    · exact law.fault ⟨⟨hspan, rfl⟩, rfl⟩

theorem countTo {parts : IterateParts} (hev : S.AlikeIn region ev ev')
    (hbody : S.Rel (S.insideLoop parts.label region) setting S.value (ev parts.body)
      (ev' parts.body))
    (hfirst : S.optional region parts.first) (hstep : S.optional region parts.step)
    {rounds rounds' : Nat} (hrounds : S.levels rounds rounds') (last : Number) {span : Span}
    (hspan : S.points region span) :
    S.Rel region setting S.value (Eval.countTo ev rounds parts last span)
      (Eval.countTo ev' rounds' parts last span) := by
  refine (law.loopNumber hev hfirst _ _).bind fun first _ => ?_
  refine (law.loopNumber hev hstep _ _).bind fun step _ => ?_
  split
  · exact (law.warn _ hspan _).bind fun _ _ => .pure Value.holds_null
  · split
    · exact (law.warn _ hspan _).bind fun _ _ => .pure Value.holds_null
    · exact law.countLoop hbody _ _ _ hspan hrounds _

theorem evalIterate {parts : IterateParts} (hev : S.AlikeIn region ev ev')
    (hbody : ∀ setting, S.Rel (S.insideLoop parts.label region) setting S.value (ev parts.body)
      (ev' parts.body))
    (hfirst : S.optional region parts.first) (hlast : S.node region parts.last)
    (hstep : S.optional region parts.step) {rounds rounds' : Nat}
    (hrounds : S.levels rounds rounds') {span : Span} (hspan : S.points region span) :
    S.Rel region setting S.value (Eval.evalIterate ev rounds parts span)
      (Eval.evalIterate ev' rounds' parts span) := by
  refine (law.spanOf hlast).bind fun lastSpan hlastSpan => ?_
  refine (hev setting parts.last hlast).bind fun last hvalue => ?_
  refine law.inNewScope fun scope => ?_
  split
  · split
    · exact law.fault ⟨⟨hspan, rfl⟩, rfl⟩
    · exact law.eachLoop _ (hbody _) (Value.holds_list.mp hvalue)
  · split
    · exact law.countTo hev (hbody _) hfirst hstep hrounds _ hspan
    · exact law.fault ⟨⟨hlastSpan, rfl⟩, rfl⟩

end LawfulConstructs

end ExprScript.Simulation
