import ExprScript.Proofs.Evaluation.Simulation

/-!
# Steps alike

Steps that do no task take like machines to like machines, in every lawful simulation. What only
evaluates nodes does so as well with two evaluators that evaluate these nodes alike.
-/
namespace ExprScript.Simulation

variable {S : Simulation} {region : S.Region} {setting : S.Setting} {α : Type}

def Alike (S : Simulation) (run run' : Task → Eval Value) : Prop :=
  ∀ region setting task, S.task region task →
    S.Rel region setting S.value (run task) (run' task)

def AlikeIn (S : Simulation) (region : S.Region) (ev ev' : NodeId → Eval Value) : Prop :=
  ∀ setting id, S.node region id → S.Rel region setting S.value (ev id) (ev' id)

theorem Alike.nodes {run run' : Task → Eval Value} (h : S.Alike run run') (region : S.Region) :
    S.AlikeIn region (fun id => run (.node id)) (fun id => run' (.node id)) :=
  fun setting id hid => h region setting (.node id) hid

/-! ## Steps without tasks -/

namespace LawfulReads

variable (law : S.LawfulReads)

include law

theorem throws {G : α → Prop} {e : Interrupt} (he : S.raises region setting e) :
    S.Rel region setting G (throw e) (throw e) :=
  fun _ _ hmn => .error (law.interrupt he) hmn

theorem fault {G : α → Prop} {d : Diagnostic} (hd : d.RaisedAt (S.points region)) :
    S.Rel region setting G (Eval.fault d) (Eval.fault d) :=
  law.throws hd

theorem outOfLevels {G : α → Prop} :
    S.Rel region setting G (Eval.giveUp .outOfLevels) (Eval.giveUp .outOfLevels) :=
  law.throws trivial

theorem ofExcept {G : α → Prop} {e : Except Diagnostic α} (he : ∀ a, e = .ok a → G a)
    (hfault : FaultsAt (S.points region) e) :
    S.Rel region setting G (Eval.ofExcept e) (Eval.ofExcept e) := by
  cases e with
  | error d => exact law.fault (hfault d rfl)
  | ok a => exact .pure (he a rfl)

theorem warn (code : Code) {span : Span} (hspan : S.points region span) (args : List String) :
    S.Rel region setting (fun _ => True) (Eval.warn code span args) (Eval.warn code span args) :=
  law.checked (p := Checked.warn code span args) (fun _ _ _ _ => trivial)
    (Checked.reports_warn code args hspan)

theorem node {id : NodeId} (hid : S.node region id) :
    S.Rel region setting (fun node => S.parts region node.expr ∧ S.points region node.span)
      (Eval.node id) (Eval.node id) := by
  intro m n hmn
  obtain ⟨hm, hn⟩ := law.script hmn
  unfold Eval.node
  rw [hm, hn]
  split
  · rename_i node hnode
    exact .ok (law.discipline.node hid hnode) hmn
  · rename_i hmissing
    have hmisses := law.discipline.found hid hmissing
    exact .error (law.interrupt (e := .givenUp .outsideArena) hmisses) hmn

theorem run {run : Run α} {table : Arena → Array α} {G : α → Prop}
    (h : S.entries region run table G) :
    S.Rel region setting (fun items => run.entries? (table (S.scriptOf region).arena) = some items)
      (Eval.entries run table) (Eval.entries run table) := by
  intro m n hmn
  obtain ⟨hm, hn⟩ := law.script hmn
  unfold Eval.entries
  unfold Discipline.entries at h
  rw [hm, hn]
  cases hitems : run.entries? (table (S.scriptOf region).arena) with
  | some items => exact .ok rfl hmn
  | none =>
    rw [hitems] at h
    exact .error (law.interrupt (e := .givenUp .outsideArena) h) hmn

theorem entries {run : Run α} {table : Arena → Array α} {G : α → Prop}
    (h : S.entries region run table G) :
    S.Rel region setting (fun items => ∀ item ∈ items, G item)
      (Eval.entries run table) (Eval.entries run table) := by
  refine (law.run h).mono fun items hitems => ?_
  unfold Discipline.entries at h
  rw [hitems] at h
  exact h

theorem spanOf {id : NodeId} (hid : S.node region id) :
    S.Rel region setting (S.points region) (Eval.spanOf id) (Eval.spanOf id) :=
  (law.node hid).bind fun _ hnode => .pure hnode.2

theorem evalIdent (name : Name) {span : Span} (hspan : S.points region span) :
    S.Rel region setting S.value (Eval.evalIdent name span) (Eval.evalIdent name span) := by
  refine (law.lookup name).bind fun entry hentry => ?_
  cases entry with
  | none => exact (law.text name).bind fun text _ => law.fault ⟨⟨hspan, rfl⟩, rfl⟩
  | some entry => exact .pure (hentry entry rfl)

/-! ### Assigning

Where any value may be stored in any variable, assigning is lawful if storing is. -/

section
variable
  (htype : ∀ name, S.Rel region setting (fun _ => True) (Eval.declaredType name)
    (Eval.declaredType name))
  (hstore : ∀ name value span, S.value value → S.points region span →
    S.Rel region setting S.value (Eval.store name value span) (Eval.store name value span))

include htype hstore

theorem storeConverted (name : Name) {value : Value} (hvalue : S.value value) {span : Span}
    (hspan : S.points region span) :
    S.Rel region setting S.value (Eval.storeConverted name value span)
      (Eval.storeConverted name value span) := by
  refine (htype name).bind fun type _ => (law.text name).bind fun text _ => ?_
  have hcoerced : (value.coerce type text span).Gives S.value :=
    Value.coerce_holds hvalue type text span
  exact (law.checked hcoerced (Value.coerce_reports value type text hspan)).bind
    fun coerced hholds => hstore name coerced span hholds hspan

theorem assign (name : Name) (op : AssignOp) {operand : Operand} {span : Span}
    (hoperand : S.value operand.value) (hright : S.points region operand.span)
    (hspan : S.points region span) :
    S.Rel region setting S.value (Eval.assign name op operand span)
      (Eval.assign name op operand span) := by
  refine (law.lookup name).bind fun entry hentry => ?_
  cases entry with
  | none => exact (law.text name).bind fun text _ => law.fault ⟨⟨hspan, rfl⟩, rfl⟩
  | some entry =>
    have hold := hentry entry rfl
    rcases entry with old | old
    · exact .pure hold
    · cases op with
      | none => exact law.storeConverted htype hstore name hoperand hspan
      | some op =>
        have hcombined : (Operate.binary (.arith op) ⟨old.value, span⟩ operand).Gives S.value :=
          Operate.binary_holds _ hold hoperand
        have hreports : (Operate.binary (.arith op) ⟨old.value, span⟩ operand).Reports
            (S.points region) := Operate.binary_reports (S.placed_closed _) _ hspan hright
        exact (law.checked hcombined hreports).bind fun updated hupdated =>
          law.storeConverted htype hstore name hupdated hspan

end

end LawfulReads

namespace LawfulConstructs

variable (law : S.LawfulConstructs)

include law

theorem setCounter (counter : Option Name) {v : Value} (hv : S.value v) :
    S.Rel region setting (fun _ => True) (Eval.setCounter counter v)
      (Eval.setCounter counter v) := by
  cases counter with
  | none => exact .pure trivial
  | some name => exact law.declare (v := ⟨v, .auto⟩) name (Value.fits_auto v) hv

theorem readCounter (counter : Option Name) (expected : Number) {span : Span}
    (hspan : S.points region span) :
    S.Rel region setting (fun _ => True) (Eval.readCounter counter expected span)
      (Eval.readCounter counter expected span) := by
  cases counter with
  | none => exact .pure trivial
  | some name =>
    refine (law.lookup name).bind fun entry _ => ?_
    dsimp only
    split
    · exact .pure trivial
    · exact law.fault ⟨⟨hspan, rfl⟩, rfl⟩

end LawfulConstructs

variable {ev ev' : NodeId → Eval Value}

/-! ## Values of parts -/

namespace AlikeIn

variable (hev : S.AlikeIn region ev ev')

include hev

theorem evalOr {id : Option NodeId} (hid : S.optional region id)
    {otherwise : Value} (hother : S.value otherwise) :
    S.Rel region setting S.value (Eval.evalOr ev id otherwise) (Eval.evalOr ev' id otherwise) := by
  cases id with
  | none => exact .pure hother
  | some id => exact hev setting id (hid id rfl)

theorem runStatements {statements : List NodeId}
    (h : ∀ id ∈ statements, S.node region id) :
    S.Rel region setting S.value (Eval.runStatements ev statements)
      (Eval.runStatements ev' statements) := by
  have hfrom : ∀ last, S.value last →
      S.Rel region setting S.value (statements.foldlM (fun _ id => ev id) last)
        (statements.foldlM (fun _ id => ev' id) last) := by
    induction statements with
    | nil => exact fun last hlast => .pure hlast
    | cons id statements ih =>
      intro last _
      rw [List.foldlM_cons, List.foldlM_cons]
      exact (hev setting id (h id (by simp))).bind fun v hv =>
        ih (fun i hi => h i (by simp [hi])) v hv
  exact hfrom .null Value.holds_null

theorem guardHolds {guard : Option NodeId}
    (hguard : S.optional region guard) :
    S.Rel region setting (fun _ => True) (Eval.guardHolds ev guard)
      (Eval.guardHolds ev' guard) := by
  cases guard with
  | none => exact .pure trivial
  | some guard => exact (hev setting guard (hguard guard rfl)).bind fun _ _ => .pure trivial

theorem initialValue (type : DeclaredType) {value : Option NodeId}
    (hvalue : S.optional region value) :
    S.Rel region setting S.value (Eval.initialValue ev type value)
      (Eval.initialValue ev' type value) := by
  cases value with
  | some value => exact hev setting value (hvalue value rfl)
  | none =>
    cases type with
    | typed type => exact .pure (Value.holds_zero type)
    | auto => exact .pure Value.holds_null

end AlikeIn

end ExprScript.Simulation

/-! ## Selections -/

theorem ExprScript.Stretch.mem_of_mem_read {α : Type} {items : List α}
    {stretch : Stretch items.length} {item : α} (h : item ∈ stretch.read items) : item ∈ items := by
  obtain ⟨i, rfl⟩ := List.mem_ofFn.mp h
  exact List.getElem_mem _

namespace ExprScript.Sequence

variable {P : Function → Prop} {s : Sequence} {v : Value}

theorem holds_item (hv : v.Holds P) (hs : ofValue? v = some s) (i : Fin s.size) :
    (s.item i).Holds P := by
  cases v <;> simp only [ofValue?, Option.some.injEq, reduceCtorEq] at hs
  · subst hs
    exact Value.holds_str _
  · subst hs
    exact Value.holds_list.mp hv _ (List.get_mem _ _)

theorem holds_slice (hv : v.Holds P) (hs : ofValue? v = some s) (stretch : Stretch s.size) :
    (s.slice stretch).Holds P := by
  cases v <;> simp only [ofValue?, Option.some.injEq, reduceCtorEq] at hs
  · subst hs
    exact Value.holds_str _
  · subst hs
    refine Value.holds_list.mpr fun item hitem => Value.holds_list.mp hv item ?_
    exact Stretch.mem_of_mem_read hitem

end ExprScript.Sequence
