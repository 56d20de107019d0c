import ExprScript.Evaluation.Selection
import ExprScript.Proofs.Evaluation.Arguments
import ExprScript.Proofs.Text.Spans

/-!
# Where computations point

A computation on values is told the spans of its operands. Whatever it warns of or fails with points
at one of them or at their cover.
-/
namespace ExprScript

variable {α β : Type} {P : Span → Prop} {span : Span}

/-- Whether a fault is one of code that points at a span of a set. -/
def FaultsAt (P : Span → Prop) (e : Except Diagnostic α) : Prop := ∀ d, e = .error d → d.RaisedAt P

theorem FaultsAt.ok (a : α) : FaultsAt P (.ok a) := fun _ h => by cases h

theorem FaultsAt.error {d : Diagnostic} (hd : d.RaisedAt P) :
    FaultsAt P (.error d : Except _ α) := by
  intro other h
  cases h
  exact hd

theorem FaultsAt.bind {e : Except Diagnostic α} {f : α → Except Diagnostic β} (he : FaultsAt P e)
    (hf : ∀ a, FaultsAt P (f a)) : FaultsAt P (e >>= f) := by
  cases e with
  | error d => exact .error (he d rfl)
  | ok a => exact hf a

theorem FaultsAt.map {e : Except Diagnostic α} {f : α → β} (he : FaultsAt P e) :
    FaultsAt P (e.map f) := by
  cases e with
  | error d => exact .error (he d rfl)
  | ok a => exact .ok (f a)

namespace Checked

/-- Whether all warnings and the fault of a computation point at spans of a set. -/
def Reports (P : Span → Prop) (p : Checked α) : Prop :=
  ∀ before, (∀ d ∈ before, d.PointsAt P) →
    match p before with
    | .ok _ after => ∀ d ∈ after, d.PointsAt P
    | .error d after => d.RaisedAt P ∧ ∀ d ∈ after, d.PointsAt P

theorem Reports.pure (a : α) : Reports P (Pure.pure a) := fun _ h => h

theorem Reports.throw {d : Diagnostic} (hd : d.RaisedAt P) : Reports P (throw d : Checked α) :=
  fun _ h => ⟨hd, h⟩

theorem Reports.bindOf {G : α → Prop} {p : Checked α} {f : α → Checked β} (hp : Reports P p)
    (hG : Gives G p) (hf : ∀ a, G a → Reports P (f a)) : Reports P (p >>= f) := by
  intro before hbefore
  have hrun := hp before hbefore
  change match EStateM.bind p f before with
    | .ok _ after => _
    | .error d after => _
  unfold EStateM.bind
  cases h : p before with
  | ok a after =>
    rw [h] at hrun
    exact hf a (hG before a after h) after hrun
  | error d after =>
    rw [h] at hrun
    exact hrun

theorem Reports.bind {p : Checked α} {f : α → Checked β} (hp : Reports P p)
    (hf : ∀ a, Reports P (f a)) : Reports P (p >>= f) :=
  hp.bindOf (G := fun _ => True) (fun _ _ _ _ => trivial) fun a _ => hf a

theorem reports_warn (code : Code) (args : List String) (hspan : P span) :
    Reports P (Checked.warn code span args) := by
  intro before hbefore d hd
  rcases Array.mem_push.mp hd with hd | rfl
  · exact hbefore d hd
  · exact ⟨hspan, rfl⟩

theorem Reports.warn {f : Unit → Checked β} {code : Code} {args : List String} (hspan : P span)
    (hf : Reports P (f ())) : Reports P (Checked.warn code span args >>= f) :=
  (reports_warn code args hspan).bind fun _ => hf

theorem Reports.ofExcept {e : Except Diagnostic α} (he : FaultsAt P e) :
    Reports P (MonadExcept.ofExcept e : Checked α) := by
  cases e with
  | error d => exact .throw (he d rfl)
  | ok a => exact .pure a

theorem Reports.mapM {f : α → Checked β} {as : List α} (h : ∀ a ∈ as, Reports P (f a)) :
    Reports P (as.mapM f) := by
  induction as with
  | nil => exact .pure []
  | cons a as ih =>
    rw [List.mapM_cons]
    refine (h a (by simp)).bind fun b => ?_
    exact (ih fun a ha => h a (by simp [ha])).bind fun bs => .pure _

end Checked

open Checked

/-! ## Conversions -/

namespace Value

theorem castInt_faults (n : Number) (hspan : P span) : FaultsAt P (castInt n span) := by
  unfold castInt
  split
  · exact .ok _
  · exact .error ⟨⟨hspan, rfl⟩, rfl⟩

theorem castScalar_faults (value : Value) (target : ValueType) (hspan : P span) :
    FaultsAt P (value.castScalar target span) := by
  unfold castScalar
  split <;> (try split) <;> first
    | exact .ok _
    | exact castInt_faults _ hspan
    | exact .error ⟨⟨hspan, rfl⟩, rfl⟩

theorem castTo_faults (value : Value) (target : ValueType) (hspan : P span) :
    FaultsAt P (value.castTo target span) := by
  unfold castTo
  split <;> (try split) <;> first
    | exact .ok _
    | exact castScalar_faults _ _ hspan
    | exact .error ⟨⟨hspan, rfl⟩, rfl⟩

theorem coerceScalar_reports (value : Value) (type : ValueType) (name : String) (hspan : P span) :
    Reports P (value.coerceScalar type name span) := by
  have hcast : FaultsAt P (value.castTo type span) := castTo_faults value type hspan
  unfold coerceScalar
  split <;> first
    | exact .pure _
    | exact .warn hspan (.pure _)
    | exact .throw ⟨⟨hspan, rfl⟩, rfl⟩
    | exact (Reports.ofExcept hcast).bind fun _ => .warn hspan (.pure _)
    | exact .ofExcept hcast

theorem coerce_reports (value : Value) (type : DeclaredType) (name : String) (hspan : P span) :
    Reports P (value.coerce type name span) := by
  unfold coerce
  split
  · exact .pure _
  · exact .pure _
  · split
    · exact .warn hspan (coerceScalar_reports _ _ _ hspan)
    · exact .throw ⟨⟨hspan, rfl⟩, rfl⟩
  · exact coerceScalar_reports _ _ _ hspan

end Value

/-! ## Operators -/

namespace Operate

variable {left right : Operand}

theorem repeatCount_reports (count : Number) (first : Bool) (hspan : P span) :
    Reports P (repeatCount count span first) := by
  have hwarned : ∀ rounded : Int64, Reports P (do
      if first then Checked.warn .valueMultString span [(Number.int rounded).display]
      return rounded.toInt.toNat) := by
    intro rounded
    split
    · exact .warn hspan (.pure _)
    · exact .bind (.pure ()) fun _ => .pure _
  unfold repeatCount
  cases count with
  | int n => exact .bind (.pure n) hwarned
  | float x =>
    dsimp only
    split
    · exact .bind (.throw ⟨⟨hspan, rfl⟩, rfl⟩) hwarned
    · split
      · exact .bind (.pure _) fun _ => .warn hspan (.pure _)
      · exact .warn hspan (.bind (.pure _) fun _ => .pure _)

theorem repeatText_reports (text : String) (count : Nat) (hspan : P span) :
    Reports P (repeatText text count span) := by
  unfold repeatText
  dsimp only
  split
  · exact .throw ⟨⟨hspan, rfl⟩, rfl⟩
  · exact .pure _

theorem infinityLeft_reports (hP : Span.Closed P) (op : ArithOp) (dividend : Dividend)
    (hleft : P left.span) (hright : P right.span) :
    Reports P (infinityLeft op dividend left right) := by
  have hspan := hP.merge _ _ hleft hright
  unfold infinityLeft
  dsimp only
  split
  · exact .warn hspan (.pure _)
  · exact .warn hspan (.pure _)
  · exact .warn hspan (.pure _)
  · exact .warn hspan (.pure _)
  · exact .pure _
  · exact .throw ⟨⟨hspan, rfl⟩, rfl⟩

theorem infinityRight_reports (hP : Span.Closed P) (op : ArithOp) (dividend : Dividend)
    (hleft : P left.span) (hright : P right.span) :
    Reports P (infinityRight op dividend left right) := by
  have hspan := hP.merge _ _ hleft hright
  unfold infinityRight
  dsimp only
  split
  · exact .warn hspan (.pure _)
  · exact .warn hspan (.pure _)
  · exact .pure _
  · exact .throw ⟨⟨hspan, rfl⟩, rfl⟩

theorem numbers_faults (op : ArithOp) (a b : Number) (hspan : P span) :
    FaultsAt P (numbers op a b span) := by
  unfold numbers
  split
  · split
    · exact .ok _
    · exact .error ⟨⟨hspan, rfl⟩, rfl⟩
  · exact .ok _

theorem numeric_reports (op : ArithOp) (dividend : Dividend) (b : Number) (hspan : P span) :
    Reports P (numeric op dividend b span) := by
  unfold numeric
  dsimp only
  split
  · exact .warn hspan (.pure _)
  · exact .warn hspan (.pure _)
  · exact .warn hspan (.pure _)
  · exact .ofExcept (numbers_faults _ _ _ hspan)

theorem single_reports (hP : Span.Closed P) (op : ArithOp) (hleft : P left.span)
    (hright : P right.span) : Reports P (single op left right) := by
  have hspan := hP.merge _ _ hleft hright
  unfold single
  dsimp only
  split
  · exact .pure _
  · exact .pure _
  · split
    · exact .pure _
    · exact .throw ⟨⟨hspan, rfl⟩, rfl⟩
  · split
    · exact (repeatCount_reports _ _ hright).bind fun _ => repeatText_reports _ _ hspan
    · exact .throw ⟨⟨hspan, rfl⟩, rfl⟩
  · split
    · exact (repeatCount_reports _ _ hleft).bind fun _ => repeatText_reports _ _ hspan
    · exact .throw ⟨⟨hspan, rfl⟩, rfl⟩
  · exact .pure _
  · exact infinityLeft_reports hP _ _ hleft hright
  · exact infinityRight_reports hP _ _ hleft hright
  · split
    · exact numeric_reports _ _ _ hspan
    · exact .throw ⟨⟨hspan, rfl⟩, rfl⟩

mutual

theorem arithmetic_reports (hP : Span.Closed P) (op : ArithOp) {leftSpan : Span}
    (hleft : P leftSpan) (hright : P right.span) (value : Value) :
    Reports P (arithmetic op leftSpan right value) := by
  cases value with
  | list items =>
    rw [arithmetic]
    split
    · exact (eachElement_reports hP op hleft hright items).bind fun _ => .pure _
    · exact single_reports hP op hleft hright
  | _ =>
    rw [arithmetic]
    · exact single_reports hP op hleft hright
    · intro items h
      cases h

theorem eachElement_reports (hP : Span.Closed P) (op : ArithOp) {leftSpan : Span}
    (hleft : P leftSpan) (hright : P right.span) (items : List Value) :
    Reports P (eachElement op leftSpan right items) := by
  cases items with
  | nil => exact .pure _
  | cons item items =>
    rw [eachElement]
    refine (arithmetic_reports hP op hleft hright item).bind fun first => ?_
    exact (eachElement_reports hP op hleft hright items).bind fun rest => .pure _

end

theorem ordered_faults (hP : Span.Closed P) (op : OrderOp) (hleft : P left.span)
    (hright : P right.span) : FaultsAt P (ordered op left right) := by
  unfold ordered
  split
  · exact .ok _
  · exact .error ⟨⟨hP.merge _ _ hleft hright, rfl⟩, rfl⟩

/-- An operator between two values points at them or at what covers them. -/
theorem binary_reports (hP : Span.Closed P) (op : BinaryOp) (hleft : P left.span)
    (hright : P right.span) : Reports P (binary op left right) := by
  cases op with
  | and => exact .pure _
  | or => exact .pure _
  | eq => exact .pure _
  | ne => exact .pure _
  | order op => exact .ofExcept (ordered_faults hP op hleft hright)
  | arith op => exact arithmetic_reports hP op hleft hright _

theorem negate_faults (n : Number) (hspan : P span) : FaultsAt P (negate n span) := by
  unfold negate
  split
  · exact .ok _
  · split
    · exact .ok _
    · exact .error ⟨⟨hspan, rfl⟩, rfl⟩

theorem signed_faults (negative : Bool) (value : Value) (hspan : P span) :
    FaultsAt P (signed negative span value) := by
  unfold signed
  dsimp only
  split
  · split
    · exact (negate_faults _ hspan).map
    · exact .ok _
  · split
    · exact (negate_faults _ hspan).map
    · exact .ok _
  · exact .error ⟨⟨hspan, rfl⟩, rfl⟩

mutual

theorem sign_faults (negative : Bool) (hspan : P span) (value : Value) :
    FaultsAt P (sign negative span value) := by
  cases value with
  | list items =>
    rw [sign]
    exact (signAll_faults negative hspan items).bind fun _ => .ok _
  | _ =>
    rw [sign]
    · exact signed_faults negative _ hspan
    · intro items h
      cases h

theorem signAll_faults (negative : Bool) (hspan : P span) (items : List Value) :
    FaultsAt P (signAll negative span items) := by
  cases items with
  | nil => exact .ok _
  | cons item items =>
    rw [signAll]
    refine (sign_faults negative hspan item).bind fun first => ?_
    exact (signAll_faults negative hspan items).bind fun rest => .ok _

end

theorem unary_faults (op : UnaryOp) (operand : Operand) (hspan : P operand.span) :
    FaultsAt P (unary op operand) := by
  cases op with
  | not => exact .ok _
  | neg => exact sign_faults true hspan _
  | plus => exact sign_faults false hspan _

end Operate

/-! ## Selections -/

namespace Select

theorem indexNumber_reports (index : Value) (hspan : P span) :
    Reports P (indexNumber index span) := by
  unfold indexNumber
  split
  · exact .pure _
  · exact .pure _
  · split
    · exact .throw ⟨⟨hspan, rfl⟩, rfl⟩
    · exact .warn hspan (.pure _)
  · exact .throw ⟨⟨hspan, rfl⟩, rfl⟩

theorem position_reports (size : Nat) (index : Value) (hspan : P span) :
    Reports P (position size index span) := by
  refine (indexNumber_reports index hspan).bind fun raw => ?_
  split
  · dsimp only
    split
    · exact .warn hspan (.pure _)
    · exact .bind (.pure ()) fun _ => .pure _
  · exact .throw ⟨⟨hspan, rfl⟩, rfl⟩

theorem bound_reports (size : Nat) (index : Value) (hspan : P span) :
    Reports P (bound size index span) :=
  (indexNumber_reports index hspan).bind fun _ => .pure _

end Select

/-! ## Arguments -/

namespace Arguments

theorem placeNamed_faults (function : String) (formals : List Formal) {given : List Given}
    (hgiven : ∀ arg ∈ given, P arg.span) (slots : List (Option Given)) :
    FaultsAt P (placeNamed function formals given slots) := by
  induction given generalizing slots with
  | nil => exact .ok _
  | cons arg given ih =>
    have harg : P arg.span := hgiven arg (by simp)
    have hrest : ∀ slots, FaultsAt P (placeNamed function formals given slots) :=
      ih fun a ha => hgiven a (by simp [ha])
    unfold placeNamed
    split
    · exact hrest _
    · split
      · exact .error ⟨⟨harg, rfl⟩, rfl⟩
      · split
        · exact .error ⟨⟨harg, rfl⟩, rfl⟩
        · exact hrest _

theorem bind_faults (function : String) (formals : List Formal) {given : List Given}
    (hgiven : ∀ arg ∈ given, P arg.span) (hspan : P span) :
    FaultsAt P (bind function formals given span) := by
  refine (placeNamed_faults function formals hgiven _).bind fun slots => ?_
  dsimp only
  split
  · exact .error ⟨⟨hspan, rfl⟩, rfl⟩
  · split
    · exact .error ⟨⟨hspan, rfl⟩, rfl⟩
    · exact .ok _

theorem cast_reports (function : String) (formal : Formal) {given : Given} (hgiven : P given.span) :
    Reports P (cast function formal given) := by
  unfold cast
  split
  · exact .pure _
  · split
    · exact .pure _
    · split
      · exact .warn hgiven (.pure _)
      · exact .throw ⟨⟨hgiven, rfl⟩, rfl⟩

/-- A call that does not match points at the call or at one of its arguments. -/
theorem values_reports (function : String) (formals : List Formal) {given : List Given}
    (hgiven : ∀ arg ∈ given, P arg.span) (hspan : P span) :
    Reports P (values function formals given span) := by
  refine (Reports.ofExcept (bind_faults function formals hgiven hspan)).bindOf
    (.ofExcept fun slots h => (bind_eq_ok h).1) fun slots hslots => ?_
  refine .mapM fun pair hpair => ?_
  obtain ⟨formal, slot⟩ := pair
  cases slot with
  | none => exact .pure _
  | some arg =>
    have harg : arg ∈ given := hslots _ (List.of_mem_zip hpair).2 arg rfl
    exact cast_reports function formal (hgiven arg harg)

end Arguments
end ExprScript
