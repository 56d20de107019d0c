import ExprScript.Proofs.Evaluation.Asking

/-!
# What tasks ask for

Every construct does its parts one after another. Only a call enters anything for what it asks: the
function that is called, by the name that it shows and at the place of the call.
-/
namespace ExprScript

/-- The call that is entered for a task by a call at a place. -/
def Task.calledAt (span : Span) : Task → List TraceFrame
  | .body f _ => [⟨f.display, span⟩]
  | .native action _ _ => [⟨action.name, span⟩]
  | .node _ | .program _ => []

/-- The call that one task enters for another one, if it is a call itself. -/
def Task.entered (outer : Task) (m : Machine) : Task → List TraceFrame :=
  match outer with
  | .node id =>
    match m.context.script.arena.node? id with
    | some ⟨.call _ _, span⟩ => Task.calledAt span
    | _ => fun _ => []
  | _ => fun _ => []

namespace Eval

variable {α β : Type} {entered : Task → List TraceFrame}

/-! ## Many parts -/

theorem Asks.mapM {f : (Task → Eval Value) → α → Eval β}
    (hf : ∀ a, Asks entered fun run => f run a) (items : List α) :
    Asks entered fun run => items.mapM (f run) := by
  induction items with
  | nil => exact asks_pure []
  | cons item items ih =>
    simp only [List.mapM_cons]
    exact (hf item).bind fun b => ih.bind fun bs => asks_pure (b :: bs)

theorem Asks.foldlM {f : (Task → Eval Value) → β → α → Eval β}
    (hf : ∀ b a, Asks entered fun run => f run b a) (items : List α) (start : β) :
    Asks entered fun run => items.foldlM (f run) start := by
  induction items generalizing start with
  | nil => exact asks_pure start
  | cons item items ih =>
    simp only [List.foldlM_cons]
    exact (hf start item).bind ih

theorem asks_optionalText (name : Option Name) : Asks entered fun _ => name.mapM text := by
  cases name with
  | none => exact asks_pure none
  | some name => exact (asks_text name).bind fun text => asks_pure (some text)

section
variable {ev : (Task → Eval Value) → NodeId → Eval Value}
  (hev : ∀ id, Asks entered fun run => ev run id)
include hev

/-! ## Statements and branches -/

theorem asks_evalOr (id : Option NodeId) (otherwise : Value) :
    Asks entered fun run => evalOr (ev run) id otherwise := by
  cases id with
  | none => exact asks_pure otherwise
  | some id => exact hev id

theorem asks_runStatements (statements : List NodeId) :
    Asks entered fun run => runStatements (ev run) statements :=
  .foldlM (fun _ statement => hev statement) statements .null

theorem asks_runInPlace (body : NodeId) : Asks entered fun run => runInPlace (ev run) body := by
  refine (asks_node body).bind fun node => ?_
  split
  · exact (asks_entries _ _).bind fun statements => asks_runStatements hev statements
  · exact hev body

theorem asks_evalBranches (otherwise : Option NodeId) (branches : List Branch) :
    Asks entered fun run => evalBranches (ev run) otherwise branches := by
  induction branches with
  | nil => exact asks_evalOr (fun id => asks_runInPlace hev id) otherwise .null
  | cons branch branches ih =>
    refine (hev branch.condition).bind fun condition => ?_
    split
    · exact asks_runInPlace hev branch.body
    · exact ih

theorem asks_evalArms (subject : Value) (otherwise : Option NodeId) (arms : List CaseArm) :
    Asks entered fun run => evalArms (ev run) subject otherwise arms := by
  induction arms with
  | nil => exact asks_evalOr (fun id => asks_runInPlace hev id) otherwise .null
  | cons arm arms ih =>
    refine (hev arm.pattern).bind fun pattern => ?_
    split
    · exact asks_runInPlace hev arm.body
    · exact ih

theorem asks_guardHolds (guard : Option NodeId) :
    Asks entered fun run => guardHolds (ev run) guard := by
  cases guard with
  | none => exact asks_pure true
  | some guard => exact (hev guard).bind fun v => asks_pure v.isTrue

theorem asks_evalReturn (value guard : Option NodeId) (span : Span) :
    Asks entered fun run => evalReturn (ev run) value guard span := by
  refine (asks_guardHolds hev guard).bind fun holds => ?_
  split
  · refine asks_outsideFunctions.bind fun outside => ?_
    split
    · exact asks_fault rfl
    · exact (asks_evalOr hev value .null).bind fun v => asks_throw fun _ h => by cases h
  · exact asks_pure _

theorem asks_sendSignal (guard : Option NodeId) {e : Interrupt} (he : ∀ d, e ≠ .fatal d) :
    Asks entered fun run => do
      if ← guardHolds (ev run) guard then throw e else return Value.null := by
  refine (asks_guardHolds hev guard).bind fun holds => ?_
  split
  · exact asks_throw fun d hd => absurd hd (he d)
  · exact asks_pure _

/-! ## Operators, declarations and selections -/

theorem asks_evalBinary (op : BinaryOp) (left right : NodeId) :
    Asks entered fun run => evalBinary (ev run) op left right := by
  refine (asks_spanOf left).bind fun leftSpan => (asks_spanOf right).bind fun rightSpan => ?_
  refine (hev left).bind fun a => ?_
  split
  · exact asks_pure _
  · exact asks_pure _
  · exact (hev right).bind fun b => asks_pure _
  · exact (hev right).bind fun b => asks_pure _
  · exact (hev right).bind fun b =>
      asks_checked (Operate.binary_reports Span.closed_true _ trivial trivial)

theorem asks_initialValue (type : DeclaredType) (value : Option NodeId) :
    Asks entered fun run => initialValue (ev run) type value := by
  cases value with
  | some value => exact hev value
  | none => cases type <;> exact asks_pure _

theorem asks_evalDeclare (type : DeclaredType) (name : Name) (value : Option NodeId)
    (yields : Bool) (span : Span) :
    Asks entered fun run => evalDeclare (ev run) type name value yields span := by
  refine (asks_initialValue hev type value).bind fun v => (asks_text name).bind fun text => ?_
  refine (asks_checked (Value.coerce_reports v type text trivial)).bind fun coerced => ?_
  exact (asks_declare name _).bind fun _ => asks_pure _

theorem asks_selectOne (s : Sequence) (spec : IndexSpec) :
    Asks entered fun run => selectOne (ev run) s spec := by
  cases spec with
  | single index =>
    refine (asks_spanOf index).bind fun span => (hev index).bind fun i => ?_
    exact (asks_checked (Select.position_reports _ i trivial)).bind fun place => asks_pure _
  | range first last =>
    refine (asks_spanOf first).bind fun firstSpan => (asks_spanOf last).bind fun lastSpan => ?_
    refine (hev first).bind fun lo => (hev last).bind fun hi => ?_
    refine (asks_checked (Select.bound_reports _ lo trivial)).bind fun lo => ?_
    exact (asks_checked (Select.bound_reports _ hi trivial)).bind fun hi => asks_pure _

theorem asks_evalIndex (target : NodeId) (specs : Run IndexSpec) :
    Asks entered fun run => evalIndex (ev run) target specs := by
  refine (asks_spanOf target).bind fun span => (hev target).bind fun v => ?_
  split
  · exact asks_fault rfl
  next s _ =>
    refine (asks_entries specs _).bind fun items => ?_
    refine (Asks.mapM (fun spec => asks_selectOne hev s spec) items).bind fun selected => ?_
    split <;> exact asks_pure _

theorem asks_evalMember (target : NodeId) (name : Name) (span : Span) :
    Asks entered fun run => evalMember (ev run) target name span := by
  refine (hev target).bind fun v => (asks_text name).bind fun text => ?_
  split
  · exact asks_pure _
  · split
    · exact asks_pure _
    · exact asks_fault rfl
  · exact asks_fault rfl

end

/-! ### Names -/

theorem asks_evalIdent (name : Name) (span : Span) : Asks entered fun _ => evalIdent name span := by
  refine (asks_lookup name).bind fun entry => ?_
  split
  · exact asks_pure _
  · exact (asks_text name).bind fun text => asks_fault rfl

theorem asks_storeConverted (name : Name) (value : Value) (span : Span) :
    Asks entered fun _ => storeConverted name value span := by
  refine (asks_declaredType name).bind fun type => (asks_text name).bind fun text => ?_
  exact (asks_checked (Value.coerce_reports value type text trivial)).bind fun coerced =>
    asks_store name coerced span

theorem asks_assign (name : Name) (op : AssignOp) (value : Operand) (span : Span) :
    Asks entered fun _ => assign name op value span := by
  refine (asks_lookup name).bind fun entry => ?_
  split
  · exact (asks_text name).bind fun text => asks_fault rfl
  · exact asks_pure _
  next old _ =>
    cases op with
    | none => exact asks_storeConverted name value.value span
    | some op =>
      exact (asks_checked (Operate.binary_reports Span.closed_true _ trivial trivial)).bind
        fun updated => asks_storeConverted name updated span

theorem asks_define (name : Option Name) (params : Run Parameter) (body : NodeId) :
    Asks entered fun _ => define name params body := by
  refine (asks_entries params _).bind fun params => (asks_optionalText name).bind fun display => ?_
  refine asks_freshId.bind fun id => asks_here.bind fun here => ?_
  cases name with
  | some name => exact (asks_declare name _).bind fun _ => asks_pure _
  | none => exact asks_pure _

/-! ## Loops -/

theorem asks_whileLoop {condition body : (Task → Eval Value) → Eval Value}
    (hcondition : Asks entered condition) (hbody : Asks entered body) (label : Option Name)
    (rounds : Nat) :
    Asks entered fun run => whileLoop label (condition run) (body run) rounds := by
  induction rounds with
  | zero => exact asks_giveUp _
  | succ rounds ih =>
    refine hcondition.bind fun holds => ?_
    split
    · refine (hbody.runBody label).bind fun flow => ?_
      cases flow with
      | next => exact ih
      | stop => exact asks_pure _
    · exact asks_pure _

theorem asks_setCounter (counter : Option Name) (value : Value) :
    Asks entered fun _ => setCounter counter value := by
  cases counter with
  | none => exact asks_pure ()
  | some name => exact asks_declare name _

theorem asks_readCounter (counter : Option Name) (expected : Number) (span : Span) :
    Asks entered fun _ => readCounter counter expected span := by
  cases counter with
  | none => exact asks_pure expected
  | some name =>
    refine (asks_lookup name).bind fun entry => ?_
    dsimp only
    split
    · exact asks_pure _
    · exact asks_fault rfl

section
variable {body : (Task → Eval Value) → Eval Value} (hbody : Asks entered body)
include hbody

theorem asks_eachLoop (label counter : Option Name) (items : List Value) :
    Asks entered fun run => eachLoop label counter (body run) items := by
  induction items with
  | nil => exact asks_pure _
  | cons item items ih =>
    refine (asks_setCounter counter item).bind fun _ => (hbody.runBody label).bind fun flow => ?_
    cases flow with
    | next => exact ih
    | stop => exact asks_pure _

theorem asks_countLoop (parts : IterateParts) (last step : Number) (toward : Ordering)
    (span : Span) (rounds : Nat) (counter : Number) :
    Asks entered fun run => countLoop parts (body run) last step toward span rounds counter := by
  induction rounds generalizing counter with
  | zero => exact asks_giveUp _
  | succ rounds ih =>
    unfold countLoop
    split
    · refine (asks_setCounter _ _).bind fun _ => (hbody.runBody _).bind fun flow => ?_
      refine (asks_readCounter _ _ _).bind fun counter => ?_
      cases flow with
      | stop => exact asks_pure _
      | next =>
        dsimp only
        split
        · exact ih _
        · exact asks_fault rfl
    · exact asks_pure _

end

section
variable {ev : (Task → Eval Value) → NodeId → Eval Value}
  (hev : ∀ id, Asks entered fun run => ev run id)
include hev

theorem asks_loopNumber (expr : Option NodeId) (usage : String) (otherwise : Number) :
    Asks entered fun run => loopNumber (ev run) expr usage otherwise := by
  cases expr with
  | none => exact asks_pure otherwise
  | some expr =>
    refine (asks_spanOf expr).bind fun span => (hev expr).bind fun v => ?_
    split
    · exact asks_pure _
    · exact asks_fault rfl

theorem asks_countTo (rounds : Nat) (parts : IterateParts) (last : Number) (span : Span) :
    Asks entered fun run => countTo (ev run) rounds parts last span := by
  refine (asks_loopNumber hev _ _ _).bind fun first => ?_
  refine (asks_loopNumber hev _ _ _).bind fun step => ?_
  split
  · exact (asks_warn _ _ _).bind fun _ => asks_pure _
  · split
    · exact (asks_warn _ _ _).bind fun _ => asks_pure _
    · exact asks_countLoop (hev parts.body) _ _ _ _ _ _ _

theorem asks_evalIterate (rounds : Nat) (parts : IterateParts) (span : Span) :
    Asks entered fun run => evalIterate (ev run) rounds parts span := by
  refine (asks_spanOf _).bind fun lastSpan => (hev parts.last).bind fun last => Asks.inNewScope ?_
  split
  · split
    · exact asks_fault rfl
    · exact asks_eachLoop (hev parts.body) _ _ _
  · split
    · exact asks_countTo hev rounds parts _ span
    · exact asks_fault rfl

/-! ## Functions and programs -/

theorem asks_evalArguments (args : List Argument) :
    Asks entered fun run => evalArguments (ev run) args := by
  refine Asks.mapM (fun arg => ?_) args
  refine (asks_optionalText arg.name).bind fun name => ?_
  exact (hev arg.value).bind fun v => asks_pure _

theorem asks_defaultValue (type : DeclaredType) (default : NodeId) :
    Asks entered fun run => defaultValue (ev run) type default := by
  refine (hev default).bind fun v => ?_
  split
  · exact asks_pure v
  · exact (asks_spanOf default).bind fun span =>
      asks_ofExcept (Value.castTo_faults v _ trivial)

theorem asks_parameterValue (param : Parameter) (given : Option Value) :
    Asks entered fun run => parameterValue (ev run) param given := by
  cases given with
  | some v => exact asks_pure v
  | none =>
    unfold parameterValue
    dsimp only
    split
    · exact asks_defaultValue hev param.type _
    · exact asks_pure _

theorem asks_bindParameters (pairs : List (Parameter × Option Value)) :
    Asks entered fun run => bindParameters (ev run) pairs := by
  induction pairs with
  | nil => exact asks_pure ()
  | cons pair pairs ih =>
    refine (asks_parameterValue hev pair.1 pair.2).bind fun v => ?_
    exact (asks_declare _ _).bind fun _ => ih

theorem asks_runFunction (f : Function) (values : List (Option Value)) :
    Asks entered fun run => runFunction (ev run) f values := by
  refine Asks.inFunction ?_ f
  exact (asks_bindParameters hev _).bind fun _ => hev f.body

theorem asks_runProgram (script : Script) :
    Asks entered fun run => runProgram (ev run) script :=
  (asks_runInPlace hev script.root).inProgram script

end

theorem asks_perform (hprogram : ∀ script, entered (.program script) = []) (value : Value)
    (span : Span) (action : Action) : Asks entered fun run => perform run value span action := by
  cases action with
  | print | log | clear => exact (asks_onConsole _).bind fun _ => asks_pure _
  | input => exact (asks_onConsole _).bind fun _ => asks_readLine.bind fun _ => asks_pure _
  | type | idle => exact asks_pure _
  | len =>
    unfold perform
    dsimp only
    split
    · exact asks_pure _
    · exact asks_fault rfl
  | run => exact (asks_loadScript _ span).bind fun script => asks_task (hprogram script)
  | quit =>
    unfold perform
    dsimp only
    split
    · split
      · exact asks_throw fun _ h => by cases h
      · exact asks_fault rfl
    · exact asks_throw fun _ h => by cases h

/-! ## Calls -/

section
variable {span : Span}

theorem asks_callFunction (f : Function) (given : List Given) :
    Asks (Task.calledAt span) fun run => callFunction run f given span := by
  refine (Asks.mapM (fun param => ?_) f.params).bind fun formals => ?_
  · exact (asks_text param.name).bind fun text => asks_pure _
  refine (asks_checked (Arguments.values_reports _ _ (fun _ _ => trivial) trivial)).bind ?_
  exact fun values => asks_duringCall rfl

theorem asks_callBuiltin (action : Action) (given : List Given) :
    Asks (Task.calledAt span) fun run => callBuiltin run action given span := by
  refine (asks_checked (Arguments.values_reports _ _ (fun _ _ => trivial) trivial)).bind ?_
  exact fun values => asks_duringCall rfl

theorem asks_evalCall (callee : NodeId) (args : Run Argument) :
    Asks (Task.calledAt span) fun run => evalCall run callee args span := by
  have hev (id : NodeId) : Asks (Task.calledAt span) fun run => run (.node id) := asks_task rfl
  refine (asks_spanOf callee).bind fun calleeSpan => (hev callee).bind fun v => ?_
  split
  · refine (asks_entries args _).bind fun args => (asks_evalArguments hev args).bind ?_
    exact fun given => asks_callFunction _ given
  · refine (asks_entries args _).bind fun args => (asks_evalArguments hev args).bind ?_
    exact fun given => asks_callBuiltin _ given
  · exact asks_fault rfl

end

/-! ## Every task -/

/-- A construct that is no call enters nothing for its parts. -/
theorem asks_evalExpr (hnodes : ∀ id, entered (.node id) = []) (rounds : Nat) (span : Span)
    {expr : Expr} (hcall : ∀ callee args, expr ≠ .call callee args) :
    Asks entered fun run => evalExpr run rounds span expr := by
  have hev (id : NodeId) : Asks entered fun run => run (.node id) := asks_task (hnodes id)
  cases expr with
  | int n | float x => exact asks_pure _
  | str name => exact (asks_text name).bind fun _ => asks_pure _
  | ident name => exact asks_evalIdent name span
  | list items =>
    refine (asks_entries items _).bind fun ids => ?_
    exact (Asks.mapM hev ids).bind fun values => asks_pure _
  | block statements =>
    refine Asks.inNewScope ((asks_entries statements _).bind fun ids => ?_)
    exact asks_runStatements hev ids
  | index target specs => exact asks_evalIndex hev target specs
  | member target name => exact asks_evalMember hev target name span
  | cast operand type =>
    exact (hev operand).bind fun v => asks_ofExcept (Value.castTo_faults v type trivial)
  | binary op left right => exact asks_evalBinary hev op left right
  | unary op operand =>
    exact (hev operand).bind fun v => asks_ofExcept (Operate.unary_faults op ⟨v, span⟩ trivial)
  | ternary condition positive negative =>
    refine (hev condition).bind fun v => ?_
    split
    · exact asks_evalOr hev positive v
    · exact asks_evalOr hev negative .null
  | declare type name value yields => exact asks_evalDeclare hev type name value yields span
  | assign name op value yields =>
    refine (hev value).bind fun v => (asks_spanOf value).bind fun valueSpan => ?_
    exact (asks_assign name op ⟨v, valueSpan⟩ span).bind fun _ => asks_pure _
  | ifElse branches otherwise =>
    exact (asks_entries branches _).bind fun items => asks_evalBranches hev otherwise items
  | caseOf subject arms otherwise =>
    refine (hev subject).bind fun v => (asks_entries arms _).bind fun items => ?_
    exact asks_evalArms hev v otherwise items
  | iterate label first last step counter body => exact asks_evalIterate hev rounds _ span
  | whileLoop label condition body => exact asks_whileLoop (hev condition) (hev body) label rounds
  | define name params body => exact asks_define name params body
  | call callee args => exact absurd rfl (hcall callee args)
  | returnValue value guard => exact asks_evalReturn hev value guard span
  | breakLoop label guard => exact asks_sendSignal hev guard fun _ h => by cases h
  | continueLoop label guard => exact asks_sendSignal hev guard fun _ h => by cases h

theorem runTask_node (run : Task → Eval Value) (rounds : Nat) (id : NodeId) (m : Machine) :
    runTask run rounds (.node id) m =
      match m.context.script.arena.node? id with
      | some node => evalExpr run rounds node.span node.expr m
      | none => .error (.givenUp .outsideArena) m := by
  unfold runTask
  dsimp only
  rw [bind_apply]
  unfold node
  cases m.context.script.arena.node? id <;> rfl

/-- A task asks for what is inside of it, and enters the calls that it makes. -/
theorem asking_runTask (rounds : Nat) (task : Task) (m : Machine) :
    Asking (task.entered m) m.context.calls fun run => runTask run rounds task m := by
  cases task with
  | node id =>
    simp only [runTask_node]
    unfold Task.entered
    dsimp only
    cases m.context.script.arena.node? id with
    | none => exact .own (.error rfl fun _ h => by cases h)
    | some node =>
      obtain ⟨expr, span⟩ := node
      by_cases hcall : ∃ callee args, expr = .call callee args
      · obtain ⟨callee, args, rfl⟩ := hcall
        exact asks_evalCall callee args m
      · have hother : ∀ callee args, expr ≠ .call callee args := by simpa using hcall
        split
        next heq =>
          cases heq
          exact absurd rfl (hother _ _)
        next => exact asks_evalExpr (fun _ => rfl) rounds span hother m
  | body f values => exact asks_runFunction (fun id => asks_task rfl) f values m
  | native action value span => exact asks_perform (fun _ => rfl) value span action m
  | program script => exact asks_runProgram (fun id => asks_task rfl) script m

end Eval
end ExprScript
