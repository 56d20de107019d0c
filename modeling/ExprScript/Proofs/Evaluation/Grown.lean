import ExprScript.Proofs.Evaluation.Congruence
import ExprScript.Proofs.Evaluation.Growing
import ExprScript.Proofs.Evaluation.Visits

/-!
# What tasks grow

Every construct does its parts one after another, and a value that comes from an earlier part stays
one whose functions were made in scopes that are there. So every task that starts among rooted
scopes ends among them, and comes to other tasks among them only.
-/
namespace ExprScript

/-- Whether the functions that a task runs or is given were made in some of the first so many
scopes. -/
def Task.MadeBefore (size : Nat) : Task → Prop
  | .body f values =>
    f.closure.index < size ∧ ∀ value ∈ values, ∀ v ∈ value, v.MadeBefore size
  | .node _ | .native _ _ _ | .program _ => True

theorem Task.MadeBefore.mono {task : Task} {size more : Nat} (h : task.MadeBefore size)
    (hsize : size ≤ more) : task.MadeBefore more := by
  cases task with
  | body f values =>
    obtain ⟨hf, hvalues⟩ := h
    exact ⟨Nat.lt_of_lt_of_le hf hsize, fun value hvalue v hv =>
      (hvalues value hvalue v hv).mono hsize⟩
  | node | native | program => trivial

namespace Eval

def GrowNodes (ev ev' : NodeId → Eval Value) : Prop :=
  ∀ w id, Grows w Value.MadeBefore (ev id) (ev' id)

def GrowTasks (run run' : Task → Eval Value) : Prop :=
  ∀ w task, task.MadeBefore w → Grows w Value.MadeBefore (run task) (run' task)

theorem GrowTasks.nodes {run run' : Task → Eval Value} (h : GrowTasks run run') :
    GrowNodes (fun id => run (.node id)) (fun id => run' (.node id)) :=
  fun w id => h w (.node id) trivial

variable {w : Nat}

theorem grows_null : Grows w Value.MadeBefore (pure .null) (pure .null) :=
  .pure fun _ _ => Value.holds_null

theorem grows_str (text : String) :
    Grows w Value.MadeBefore (pure (.str text)) (pure (.str text)) :=
  .pure fun _ _ => Value.holds_str text

theorem grows_bool (b : Bool) : Grows w Value.MadeBefore (pure (.bool b)) (pure (.bool b)) :=
  .pure fun _ _ => Value.holds_bool b

theorem grows_value {v : Value} (hv : v.MadeBefore w) :
    Grows w Value.MadeBefore (pure v) (pure v) :=
  .pure fun _ hsize => hv.mono hsize

/-! ## Names -/

theorem grows_evalIdent (name : Name) (span : Span) :
    Grows w Value.MadeBefore (evalIdent name span) (evalIdent name span) := by
  refine (grows_lookup name).bind fun _ _ entry hentry => ?_
  cases entry with
  | none => exact (grows_text name).bind fun _ _ text _ => grows_fault _
  | some entry => exact grows_value (hentry entry rfl)

theorem grows_storeConverted (name : Name) {value : Value} (hvalue : value.MadeBefore w)
    (span : Span) :
    Grows w Value.MadeBefore (storeConverted name value span) (storeConverted name value span) := by
  refine (grows_declaredType name).bind fun _ _ type _ => ?_
  refine (grows_text name).bind fun later _ text _ => ?_
  have hcoerced : (value.coerce type text span).Gives (·.MadeBefore later) :=
    Value.coerce_holds (hvalue.mono (by omega)) type text span
  exact (grows_checkedValue hcoerced).bind fun _ _ coerced hholds => grows_store name hholds span

theorem grows_assign (name : Name) (op : AssignOp) {operand : Operand}
    (hoperand : operand.value.MadeBefore w) (span : Span) :
    Grows w Value.MadeBefore (assign name op operand span) (assign name op operand span) := by
  refine (grows_lookup name).bind fun later hw entry hentry => ?_
  have hright := hoperand.mono hw
  cases entry with
  | none => exact (grows_text name).bind fun _ _ text _ => grows_fault _
  | some entry =>
    have hold := hentry entry rfl
    rcases entry with old | old
    · exact grows_value hold
    · cases op with
      | none => exact grows_storeConverted name hright span
      | some op =>
        have hcombined : (Operate.binary (.arith op) ⟨old.value, span⟩ operand).Gives
            (·.MadeBefore later) := Operate.binary_holds _ hold hright
        exact (grows_checkedValue hcombined).bind fun _ _ updated hupdated =>
          grows_storeConverted name hupdated span

theorem grows_define (name : Option Name) (params : Run Parameter) (body : NodeId) :
    Grows w Value.MadeBefore (define name params body) (define name params body) := by
  refine (grows_entries params _).bind fun _ _ params _ => ?_
  refine (grows_optionalText name).bind fun _ _ display _ => grows_freshId.bind fun _ _ id _ => ?_
  refine grows_here.bind fun later _ here hhere => ?_
  have hf : ∀ f : Function, f.closure = here.scope → (Value.function f).MadeBefore later := by
    intro f hclosure
    exact Value.holds_function.mpr (hclosure ▸ hhere)
  cases name with
  | none => exact grows_value (hf _ rfl)
  | some name =>
    refine (grows_declare name (hf _ rfl)).bind fun _ hlater _ _ => ?_
    exact grows_value ((hf _ rfl).mono hlater)

/-! ## Statements and branches -/

section
variable {ev ev' : NodeId → Eval Value} (hev : GrowNodes ev ev')
include hev

theorem GrowNodes.evalOr (id : Option NodeId) {otherwise : Value}
    (hother : otherwise.MadeBefore w) :
    Grows w Value.MadeBefore (evalOr ev id otherwise) (evalOr ev' id otherwise) := by
  cases id with
  | none => exact grows_value hother
  | some id => exact hev w id

theorem GrowNodes.runStatements (statements : List NodeId) :
    Grows w Value.MadeBefore (runStatements ev statements) (runStatements ev' statements) := by
  have hfrom : ∀ w last, last.MadeBefore w →
      Grows w Value.MadeBefore (statements.foldlM (fun _ id => ev id) last)
        (statements.foldlM (fun _ id => ev' id) last) := by
    induction statements with
    | nil => exact fun w last hlast => grows_value hlast
    | cons id statements ih =>
      intro w last _
      rw [List.foldlM_cons, List.foldlM_cons]
      exact (hev w id).bind fun later _ v hv => ih later v hv
  exact hfrom w .null Value.holds_null

theorem GrowNodes.runInPlace (body : NodeId) :
    Grows w Value.MadeBefore (runInPlace ev body) (runInPlace ev' body) := by
  refine (grows_node body).bind fun later _ node _ => ?_
  split
  · exact (grows_entries _ _).bind fun _ _ ids _ => hev.runStatements ids
  · exact hev later body

theorem GrowNodes.runInPlaceOr (id : Option NodeId) :
    Grows w Value.MadeBefore (Eval.evalOr (Eval.runInPlace ev) id .null)
      (Eval.evalOr (Eval.runInPlace ev') id .null) :=
  GrowNodes.evalOr (fun _ _ => hev.runInPlace _) id Value.holds_null

theorem GrowNodes.evalBranches (otherwise : Option NodeId) (branches : List Branch) :
    Grows w Value.MadeBefore (evalBranches ev otherwise branches)
      (evalBranches ev' otherwise branches) := by
  induction branches generalizing w with
  | nil => exact hev.runInPlaceOr otherwise
  | cons branch branches ih =>
    refine (hev w branch.condition).bind fun _ _ v _ => ?_
    split
    · exact hev.runInPlace branch.body
    · exact ih

theorem GrowNodes.evalArms (subject : Value) (otherwise : Option NodeId) (arms : List CaseArm) :
    Grows w Value.MadeBefore (evalArms ev subject otherwise arms)
      (evalArms ev' subject otherwise arms) := by
  induction arms generalizing w with
  | nil => exact hev.runInPlaceOr otherwise
  | cons arm arms ih =>
    refine (hev w arm.pattern).bind fun _ _ v _ => ?_
    split
    · exact hev.runInPlace arm.body
    · exact ih

theorem GrowNodes.guardHolds (guard : Option NodeId) :
    Grows w (fun _ _ => True) (guardHolds ev guard) (guardHolds ev' guard) := by
  cases guard with
  | none => exact .pure fun _ _ => trivial
  | some guard => exact (hev w guard).bind fun _ _ v _ => .pure fun _ _ => trivial

theorem GrowNodes.evalReturn (value guard : Option NodeId) (span : Span) :
    Grows w Value.MadeBefore (evalReturn ev value guard span)
      (evalReturn ev' value guard span) := by
  refine (hev.guardHolds guard).bind fun _ _ holds _ => ?_
  split
  · refine grows_outsideFunctions.bind fun _ _ outside _ => ?_
    split
    · exact grows_fault _
    · exact (hev.evalOr value Value.holds_null).bind fun _ _ v hv => grows_return hv
  · exact grows_null

theorem GrowNodes.sendSignal (guard : Option NodeId) {e : Interrupt} (he : ∀ v, e ≠ .returned v) :
    Grows w Value.MadeBefore (do if ← Eval.guardHolds ev guard then throw e else return .null)
      (do if ← Eval.guardHolds ev' guard then throw e else return .null) := by
  refine (hev.guardHolds guard).bind fun _ _ holds _ => ?_
  split
  · exact grows_throw he
  · exact grows_null

/-! ## Operators, declarations and selections -/

theorem GrowNodes.evalBinary (op : BinaryOp) (left right : NodeId) :
    Grows w Value.MadeBefore (evalBinary ev op left right) (evalBinary ev' op left right) := by
  refine (grows_spanOf left).bind fun _ _ leftSpan _ => ?_
  refine (grows_spanOf right).bind fun later _ rightSpan _ => ?_
  refine (hev later left).bind fun first _ a ha => ?_
  split
  · exact grows_bool _
  · exact grows_bool _
  · exact (hev first right).bind fun _ _ b _ => grows_bool _
  · exact (hev first right).bind fun _ _ b _ => grows_bool _
  · refine (hev first right).bind fun _ hmore b hb => ?_
    exact grows_checkedValue (Operate.binary_holds _ (ha.mono hmore) hb)

theorem GrowNodes.initialValue (type : DeclaredType) (value : Option NodeId) :
    Grows w Value.MadeBefore (initialValue ev type value) (initialValue ev' type value) := by
  cases value with
  | some value => exact hev w value
  | none =>
    cases type with
    | typed type => exact grows_value (Value.holds_zero type)
    | auto => exact grows_null

theorem GrowNodes.evalDeclare (type : DeclaredType) (name : Name) (value : Option NodeId)
    (yields : Bool) (span : Span) :
    Grows w Value.MadeBefore (evalDeclare ev type name value yields span)
      (evalDeclare ev' type name value yields span) := by
  refine (hev.initialValue type value).bind fun _ _ v hv => ?_
  refine (grows_text name).bind fun later hlater text _ => ?_
  have hcoerced : (v.coerce type text span).Gives (·.MadeBefore later) :=
    Value.coerce_holds (hv.mono hlater) type text span
  refine (grows_checkedValue hcoerced).bind fun _ _ coerced hmade => ?_
  refine (grows_declare (v := ⟨coerced, type⟩) name hmade).bind fun _ hmore _ _ => ?_
  apply grows_value
  split
  · exact hmade.mono hmore
  · exact Value.holds_null

theorem GrowNodes.selectOne {s : Sequence} {v : Value} (hv : v.MadeBefore w)
    (hs : Sequence.ofValue? v = some s) (spec : IndexSpec) :
    Grows w Value.MadeBefore (selectOne ev s spec) (selectOne ev' s spec) := by
  cases spec with
  | single index =>
    refine (grows_spanOf index).bind fun later _ span _ => (hev later index).bind fun _ _ i _ => ?_
    refine (grows_checkedAny _).bind fun last _ place _ => ?_
    have hlate : v.MadeBefore last := hv.mono (by omega)
    exact grows_value (Sequence.holds_item hlate hs place)
  | range first last =>
    refine (grows_spanOf first).bind fun _ _ firstSpan _ => ?_
    refine (grows_spanOf last).bind fun later _ lastSpan _ => ?_
    refine (hev later first).bind fun later _ lo _ => (hev later last).bind fun _ _ hi _ => ?_
    refine (grows_checkedAny _).bind fun _ _ lo _ => (grows_checkedAny _).bind fun last _ hi _ => ?_
    have hlate : v.MadeBefore last := hv.mono (by omega)
    exact grows_value (Sequence.holds_slice hlate hs _)

theorem GrowNodes.evalIndex (target : NodeId) (specs : Run IndexSpec) :
    Grows w Value.MadeBefore (evalIndex ev target specs) (evalIndex ev' target specs) := by
  refine (grows_spanOf target).bind fun later _ span _ => (hev later target).bind fun _ _ v hv => ?_
  split
  · exact grows_fault _
  · rename_i s hs
    refine (grows_entries specs _).bind fun _ _ items _ => ?_
    refine (Grows.mapM (G := Value.MadeBefore) (fun h hsize => h.mono hsize) fun later _ spec _ =>
      hev.selectOne (hv.mono (by omega)) hs spec).bind fun _ _ selected hselected => ?_
    split
    · exact grows_value (hselected _ (by simp))
    · exact grows_value (Value.holds_list.mpr hselected)

theorem GrowNodes.evalMember (target : NodeId) (name : Name) (span : Span) :
    Grows w Value.MadeBefore (evalMember ev target name span)
      (evalMember ev' target name span) := by
  refine (hev w target).bind fun _ _ v _ => (grows_text name).bind fun _ _ text _ => ?_
  split
  · exact grows_str _
  · split
    · exact grows_value (Value.holds_int _)
    · exact grows_fault _
  · exact grows_fault _

end

/-! ## Loops -/

section
variable {body body' : Eval Value} (hbody : ∀ w, Grows w Value.MadeBefore body body')
include hbody

theorem grows_whileLoop {condition condition' : Eval Value}
    (hcondition : ∀ w, Grows w Value.MadeBefore condition condition') (label : Option Name)
    (rounds : Nat) :
    Grows w Value.MadeBefore (whileLoop label condition body rounds)
      (whileLoop label condition' body' rounds) := by
  induction rounds generalizing w with
  | zero => exact grows_giveUp _
  | succ rounds ih =>
    refine (hcondition w).bind fun later _ v _ => ?_
    split
    · refine ((hbody later).runBody label).bind fun _ _ flow _ => ?_
      cases flow with
      | next => exact ih
      | stop => exact grows_null
    · exact grows_null

omit hbody in
theorem grows_setCounter (counter : Option Name) {value : Value} (hvalue : value.MadeBefore w) :
    Grows w (fun _ _ => True) (setCounter counter value) (setCounter counter value) := by
  cases counter with
  | none => exact .pure fun _ _ => trivial
  | some name => exact grows_declare (v := ⟨value, .auto⟩) name hvalue

omit hbody in
theorem grows_readCounter (counter : Option Name) (expected : Number) (span : Span) :
    Grows w (fun _ _ => True) (readCounter counter expected span)
      (readCounter counter expected span) := by
  cases counter with
  | none => exact .pure fun _ _ => trivial
  | some name =>
    refine (grows_lookup name).bind fun _ _ entry _ => ?_
    dsimp only
    split
    · exact .pure fun _ _ => trivial
    · exact grows_fault _

theorem grows_eachLoop (label counter : Option Name) {items : List Value}
    (hitems : ∀ item ∈ items, item.MadeBefore w) :
    Grows w Value.MadeBefore (eachLoop label counter body items)
      (eachLoop label counter body' items) := by
  induction items generalizing w with
  | nil => exact grows_null
  | cons item items ih =>
    obtain ⟨hitem, hrest⟩ := List.forall_mem_cons.mp hitems
    refine (grows_setCounter counter hitem).bind fun later _ _ _ => ?_
    refine ((hbody later).runBody label).bind fun _ _ flow _ => ?_
    cases flow with
    | next => exact ih fun i hi => (hrest i hi).mono (by omega)
    | stop => exact grows_null

theorem grows_countLoop (parts : IterateParts) (last step : Number) (toward : Ordering)
    (span : Span) (rounds : Nat) (counter : Number) :
    Grows w Value.MadeBefore (countLoop parts body last step toward span rounds counter)
      (countLoop parts body' last step toward span rounds counter) := by
  induction rounds generalizing w counter with
  | zero => exact grows_giveUp _
  | succ rounds ih =>
    unfold countLoop
    split
    · refine (grows_setCounter _ (Value.holds_number counter)).bind fun later _ _ _ => ?_
      refine ((hbody later).runBody _).bind fun _ _ flow _ => ?_
      refine (grows_readCounter _ _ _).bind fun _ _ counter _ => ?_
      cases flow with
      | stop => exact grows_null
      | next =>
        dsimp only
        split
        · exact ih _
        · exact grows_fault _
    · exact grows_null

end

section
variable {ev ev' : NodeId → Eval Value} (hev : GrowNodes ev ev')
include hev

theorem GrowNodes.loopNumber (expr : Option NodeId) (usage : String) (otherwise : Number) :
    Grows w (fun _ _ => True) (loopNumber ev expr usage otherwise)
      (loopNumber ev' expr usage otherwise) := by
  cases expr with
  | none => exact .pure fun _ _ => trivial
  | some expr =>
    refine (grows_spanOf expr).bind fun later _ span _ => (hev later expr).bind fun _ _ v _ => ?_
    split
    · exact .pure fun _ _ => trivial
    · exact grows_fault _

theorem GrowNodes.countTo (rounds : Nat) (parts : IterateParts) (last : Number) (span : Span) :
    Grows w Value.MadeBefore (countTo ev rounds parts last span)
      (countTo ev' rounds parts last span) := by
  refine (hev.loopNumber _ _ _).bind fun _ _ first _ => ?_
  refine (hev.loopNumber _ _ _).bind fun _ _ step _ => ?_
  split
  · exact (grows_warn _ _ _).bind fun _ _ _ _ => grows_null
  · split
    · exact (grows_warn _ _ _).bind fun _ _ _ _ => grows_null
    · exact grows_countLoop (fun w => hev w parts.body) _ _ _ _ _ _ _

theorem GrowNodes.evalIterate (rounds : Nat) (parts : IterateParts) (span : Span) :
    Grows w Value.MadeBefore (evalIterate ev rounds parts span)
      (evalIterate ev' rounds parts span) := by
  refine (grows_spanOf _).bind fun later _ lastSpan _ => ?_
  refine (hev later parts.last).bind fun _ _ last hlast => Grows.inNewScope ?_
  split
  · split
    · exact grows_fault _
    · exact grows_eachLoop (fun w => hev w parts.body) _ _ (Value.holds_list.mp hlast)
  · split
    · exact hev.countTo rounds parts _ span
    · exact grows_fault _

/-! ## Functions and programs -/

theorem GrowNodes.evalArguments (args : List Argument) :
    Grows w (fun size given => ∀ arg ∈ given, arg.value.MadeBefore size) (evalArguments ev args)
      (evalArguments ev' args) := by
  refine Grows.mapM (G := fun size (arg : Given) => arg.value.MadeBefore size)
    (fun h => h.mono) fun later _ arg _ => ?_
  refine (grows_optionalText arg.name).bind fun later _ name _ => ?_
  exact (hev later arg.value).bind fun _ _ v hv => .pure fun _ hsize => hv.mono hsize

theorem GrowNodes.defaultValue (type : DeclaredType) (default : NodeId) :
    Grows w Value.MadeBefore (defaultValue ev type default) (defaultValue ev' type default) := by
  refine (hev w default).bind fun _ _ v hv => ?_
  split
  · exact grows_value hv
  · refine (grows_spanOf default).bind fun _ _ span _ => ?_
    refine grows_ofExcept fun result hresult size _ => ?_
    exact Value.holds_of_castTo (hv.mono (by omega)) hresult

theorem GrowNodes.parameterValue (param : Parameter) {given : Option Value}
    (hgiven : ∀ v ∈ given, v.MadeBefore w) :
    Grows w Value.MadeBefore (parameterValue ev param given) (parameterValue ev' param given) := by
  cases given with
  | some v => exact grows_value (hgiven v rfl)
  | none =>
    unfold Eval.parameterValue
    dsimp only
    split
    · exact hev.defaultValue param.type _
    · exact grows_null

theorem GrowNodes.bindParameters {pairs : List (Parameter × Option Value)}
    (hpairs : ∀ pair ∈ pairs, ∀ v ∈ pair.2, v.MadeBefore w) :
    Grows w (fun _ _ => True) (bindParameters ev pairs) (bindParameters ev' pairs) := by
  induction pairs generalizing w with
  | nil => exact .pure fun _ _ => trivial
  | cons pair pairs ih =>
    obtain ⟨hpair, hrest⟩ := List.forall_mem_cons.mp hpairs
    refine (hev.parameterValue pair.1 hpair).bind fun _ _ v hv => ?_
    refine (grows_declare (v := ⟨v, pair.1.type⟩) pair.1.name hv).bind fun _ _ _ _ => ih ?_
    exact fun other hother u hu => (hrest other hother u hu).mono (by omega)

theorem GrowNodes.runFunction {f : Function} (hf : f.closure.index < w)
    {values : List (Option Value)} (hvalues : ∀ value ∈ values, ∀ v ∈ value, v.MadeBefore w) :
    Grows w Value.MadeBefore (runFunction ev f values) (runFunction ev' f values) := by
  refine Grows.inFunction hf ((hev.bindParameters fun pair hpair => ?_).bind fun later _ _ _ => ?_)
  · exact hvalues pair.2 (List.of_mem_zip hpair).2
  · exact hev later f.body

theorem GrowNodes.runProgram (script : Script) :
    Grows w Value.MadeBefore (runProgram ev script) (runProgram ev' script) :=
  (hev.runInPlace script.root).inProgram script

end

/-! ## Calls -/

section
variable {run run' : Task → Eval Value} (hrun : GrowTasks run run')
include hrun

theorem GrowTasks.callFunction {f : Function} (hf : f.closure.index < w) {given : List Given}
    (hgiven : ∀ arg ∈ given, arg.value.MadeBefore w) (span : Span) :
    Grows w Value.MadeBefore (callFunction run f given span) (callFunction run' f given span) := by
  have hformals : ∀ later (param : Parameter), Grows later (fun _ (_ : Formal) => True)
      (do return ⟨← text param.name, param.type, param.default.isSome⟩)
      (do return ⟨← text param.name, param.type, param.default.isSome⟩) :=
    fun _ param => (grows_text param.name).bind fun _ _ _ _ => .pure fun _ _ => trivial
  refine (Grows.mapM (fun _ _ => trivial) fun later _ param _ => hformals later param).bind ?_
  intro later _ formals _
  have hvalues := Arguments.values_suit (P := fun f => f.closure.index < later) f.display formals
    (fun arg harg => (hgiven arg harg).mono (by omega)) span
  refine (grows_checked hvalues).bind fun last _ values hsuit => Grows.duringCall _ ?_
  refine hrun last (.body f values) ⟨by omega, fun value hvalue v hv => ?_⟩
  exact Value.MadeBefore.mono (hsuit.2 value hvalue v hv) (by omega)

theorem GrowTasks.callBuiltin (action : Action) (given : List Given) (span : Span) :
    Grows w Value.MadeBefore (callBuiltin run action given span)
      (callBuiltin run' action given span) := by
  refine (grows_checkedAny _).bind fun later _ values _ => Grows.duringCall _ ?_
  exact hrun later (.native action _ span) trivial

theorem GrowTasks.evalCall (callee : NodeId) (args : Run Argument) (span : Span) :
    Grows w Value.MadeBefore (evalCall run callee args span) (evalCall run' callee args span) := by
  refine (grows_spanOf callee).bind fun later _ calleeSpan _ => ?_
  refine (hrun.nodes later callee).bind fun _ _ v hv => ?_
  split
  · rename_i f
    have hf := Value.holds_function.mp hv
    refine (grows_entries args _).bind fun _ _ args _ => ?_
    refine (hrun.nodes.evalArguments args).bind fun _ _ given hgiven => ?_
    exact hrun.callFunction (by omega) hgiven span
  · refine (grows_entries args _).bind fun _ _ args _ => ?_
    refine (hrun.nodes.evalArguments args).bind fun _ _ given _ => ?_
    exact hrun.callBuiltin _ given span
  · exact grows_fault _

theorem GrowTasks.perform (value : Value) (span : Span) (action : Action) :
    Grows w Value.MadeBefore (perform run value span action) (perform run' value span action) := by
  cases action with
  | print | log | clear => exact (grows_onConsole _).bind fun _ _ _ _ => grows_null
  | input =>
    refine (grows_onConsole _).bind fun _ _ _ _ => ?_
    exact grows_readLine.bind fun _ _ line _ => grows_str line
  | type => exact grows_str _
  | idle name => exact grows_null
  | len =>
    unfold Eval.perform
    dsimp only
    split
    · exact grows_value (Value.holds_int _)
    · exact grows_fault _
  | run =>
    refine (grows_loadScript _ span).bind fun later _ script _ => ?_
    exact hrun later (.program script) trivial
  | quit =>
    unfold Eval.perform
    dsimp only
    split
    · split
      · exact grows_throw fun _ h => by cases h
      · exact grows_fault _
    · exact grows_throw fun _ h => by cases h

/-! ## Every task -/

theorem GrowTasks.evalExpr (rounds : Nat) (span : Span) (expr : Expr) :
    Grows w Value.MadeBefore (evalExpr run rounds span expr) (evalExpr run' rounds span expr) := by
  have hev := hrun.nodes
  cases expr with
  | int n => exact grows_value (Value.holds_int n)
  | float x => exact grows_value (Value.holds_float x)
  | str name => exact (grows_text name).bind fun _ _ text _ => grows_str text
  | ident name => exact grows_evalIdent name span
  | list items =>
    refine (grows_entries items _).bind fun _ _ ids _ => ?_
    refine (Grows.mapM (G := Value.MadeBefore) (fun h hsize => h.mono hsize) fun later _ id _ =>
      hev later id).bind fun _ _ values hvalues => ?_
    exact grows_value (Value.holds_list.mpr hvalues)
  | block statements =>
    refine Grows.inNewScope ((grows_entries statements _).bind fun _ _ ids _ => ?_)
    exact hev.runStatements ids
  | index target specs => exact hev.evalIndex target specs
  | member target name => exact hev.evalMember target name span
  | cast operand type =>
    refine (hev w operand).bind fun _ _ v hv => grows_ofExcept fun result hresult size _ => ?_
    exact Value.holds_of_castTo (hv.mono (by omega)) hresult
  | binary op left right => exact hev.evalBinary op left right
  | unary op operand =>
    refine (hev w operand).bind fun _ _ v hv => grows_ofExcept fun result hresult size _ => ?_
    exact Operate.holds_of_unary ⟨v, span⟩ (hv.mono (by omega)) hresult
  | ternary condition positive negative =>
    refine (hev w condition).bind fun _ _ v hv => ?_
    split
    · exact hev.evalOr positive hv
    · exact hev.evalOr negative Value.holds_null
  | declare type name value yields => exact hev.evalDeclare type name value yields span
  | assign name op value yields =>
    refine (hev w value).bind fun _ _ v hv => ?_
    refine (grows_spanOf value).bind fun later _ valueSpan _ => ?_
    have hoperand : (⟨v, valueSpan⟩ : Operand).value.MadeBefore later := hv.mono (by omega)
    refine (grows_assign name op hoperand span).bind ?_
    intro _ _ assigned hassigned
    apply grows_value
    split
    · exact hassigned
    · exact Value.holds_null
  | ifElse branches otherwise =>
    exact (grows_entries branches _).bind fun _ _ items _ => hev.evalBranches otherwise items
  | caseOf subject arms otherwise =>
    refine (hev w subject).bind fun _ _ v _ => (grows_entries arms _).bind fun _ _ items _ => ?_
    exact hev.evalArms v otherwise items
  | iterate label first last step counter body => exact hev.evalIterate rounds _ span
  | whileLoop label condition body =>
    exact grows_whileLoop (fun w => hev w body) (fun w => hev w condition) label rounds
  | define name params body => exact grows_define name params body
  | call callee args => exact hrun.evalCall callee args span
  | returnValue value guard => exact hev.evalReturn value guard span
  | breakLoop label guard => exact hev.sendSignal guard fun _ h => by cases h
  | continueLoop label guard => exact hev.sendSignal guard fun _ h => by cases h

/-- Evaluators that grow the scopes alike in every task do so in what is built from them. -/
theorem GrowTasks.runTask (rounds : Nat) :
    GrowTasks (Eval.runTask run rounds) (Eval.runTask run' rounds) := by
  intro w task htask
  cases task with
  | node id => exact (grows_node id).bind fun _ _ node _ => hrun.evalExpr rounds node.span node.expr
  | body f values => exact hrun.nodes.runFunction htask.1 htask.2
  | native action value span => exact hrun.perform value span action
  | program script => exact hrun.nodes.runProgram script

end

theorem grows_eval (level : Nat) : GrowTasks (eval level) (eval level) := by
  induction level with
  | zero => exact fun w task _ => grows_giveUp _
  | succ level ih =>
    intro w task htask m hm hw
    rw [Simulation.eval_succ]
    exact ih.runTask level w task htask m hm hw

/-! ## Every run -/

variable {level last : Nat} {task inner t : Task} {m n k : Machine}

/-- Whether a task may start from a machine: both know only scopes that are there. -/
def Starts (task : Task) (m : Machine) : Prop := m.Rooted ∧ task.MadeBefore m.scopes.cells.size

theorem Grows.after {α : Type} {w : Nat} {G : Nat → α → Prop} {p q : Eval α}
    (h : Grows w G p q) (hm : m.Rooted) (hw : w ≤ m.scopes.cells.size) :
    m.Grown (Eval.after p m) := by
  have hends := h m hm hw
  unfold Eval.after
  generalize p m = r at hends ⊢
  generalize q m = s at hends
  cases hends with
  | ok _ hgrown => exact hgrown
  | error _ hgrown => exact hgrown

theorem grown_after (h : Starts task m) (level : Nat) : m.Grown (after (eval level task) m) :=
  (grows_eval level _ task h.2).after h.1 (Nat.le_refl _)

/-- What is done on the way starts among rooted scopes. Otherwise it could be done in any other way,
and the run would be the same. -/
theorem starts_of_consults (h : Starts task m)
    (hinner : Consults (eval level) level task m inner n) : Starts inner n := by
  by_contra hout
  obtain ⟨other, hsame, hdiffers⟩ := hinner
  have halike : GrowTasks (eval level) other := by
    intro w t ht k hk hw
    have hagree : eval level t k = other t k := by
      refine hsame t k fun hpoint => hout ?_
      obtain ⟨rfl, rfl⟩ := hpoint
      exact ⟨hk, ht.mono hw⟩
    rw [← hagree]
    exact grows_eval level w t ht k hk hw
  exact hdiffers (halike.runTask level _ task h.2 m h.1 (Nat.le_refl _)).eq

theorem starts_of_visits (h : Starts task m) (hvisits : Visits level task m last t k) :
    Starts t k := by
  induction hvisits with
  | start => exact h
  | inside first _ ih => exact ih (starts_of_consults h first)

end Eval
end ExprScript
