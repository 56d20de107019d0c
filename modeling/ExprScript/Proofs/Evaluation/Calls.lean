import ExprScript.Proofs.Evaluation.Steps

/-!
# Functions and calls

A call runs a function with values for its parameters that suit them. So what is declared for a
parameter fits it, whether it was given or comes from the default.
-/
namespace ExprScript.Simulation

variable {S : Simulation} {region : S.Region} {setting : S.Setting}
  {ev ev' : NodeId → Eval Value} {run run' : Task → Eval Value}

/-- A definition sees no more of the context than the place. -/
theorem define_eq (name : Option Name) (params : Run Parameter) (body : NodeId) :
    Eval.define name params body = (do
      let params ← Eval.entries params Arena.params
      let display ← name.mapM Eval.text
      let id ← Eval.freshId
      let (scope, script) ← Eval.place
      let f : Function :=
        ⟨id, name, display.getD "<anonymous>", params, body, script, scope⟩
      match name with
      | some name => Eval.declare name ⟨.function f, .auto⟩
      | none => pure ()
      return .function f) := by
  cases name <;> rfl

namespace LawfulConstructs

variable (law : S.LawfulConstructs)

include law

theorem define (name : Option Name) {params : Run Parameter} {body : NodeId}
    (h : S.definition region params body) :
    S.Rel region setting S.value (Eval.define name params body) (Eval.define name params body) := by
  rw [define_eq]
  refine (law.run h.1).bind fun params hparams => ?_
  refine (Rel.mapOption name fun name => law.text name).bind fun display _ => ?_
  refine law.freshId.bind fun id _ => law.place.bind fun (scope, script) hplace => ?_
  have hf := h.2 ⟨id, name, display.getD "<anonymous>", params, body, script, scope⟩ hplace.2
    hplace.1 rfl hparams
  cases name with
  | none => exact .pure (Value.holds_function.mpr hf)
  | some name =>
    refine (law.declare (v := ⟨.function _, .auto⟩) name (Value.fits_auto _)
      (Value.holds_function.mpr hf)).bind fun _ _ => ?_
    exact .pure (Value.holds_function.mpr hf)

theorem evalArguments (hev : S.AlikeIn region ev ev') {args : List Argument}
    (hargs : ∀ arg ∈ args, S.argument region arg) :
    S.Rel region setting (fun given => ∀ arg ∈ given, S.value arg.value ∧ S.points region arg.span)
      (Eval.evalArguments ev args) (Eval.evalArguments ev' args) := by
  refine Rel.mapM_all fun arg harg => ?_
  refine (Rel.mapOption arg.name fun name => law.text name).bind fun name _ => ?_
  obtain ⟨hvalue, hspan⟩ := hargs arg harg
  exact (hev setting arg.value hvalue).bind fun v hv => .pure ⟨hv, hspan⟩

theorem defaultValue (hev : S.AlikeIn region ev ev') (type : DeclaredType) {default : NodeId}
    (hdefault : S.node region default) :
    S.Rel region setting (fun v => S.value v ∧ v.fits type = true)
      (Eval.defaultValue ev type default) (Eval.defaultValue ev' type default) := by
  refine (hev setting default hdefault).bind fun v hv => ?_
  cases type with
  | auto => exact .pure ⟨hv, rfl⟩
  | typed type =>
    refine (law.spanOf hdefault).bind fun span hspan => ?_
    refine law.ofExcept (fun w hw => ?_) (Value.castTo_faults v type hspan)
    exact ⟨Value.holds_of_castTo hv hw, Value.fits_of_hasType (Value.hasType_of_castTo hw)⟩

theorem parameterValue (hev : S.AlikeIn region ev ev') {param : Parameter} {given : Option Value}
    (hready : Arguments.Accepts param.type param.default.isSome given)
    (hvalue : ∀ v ∈ given, S.value v) (hdefault : S.optional region param.default) :
    S.Rel region setting (fun v => S.value v ∧ v.fits param.type = true)
      (Eval.parameterValue ev param given) (Eval.parameterValue ev' param given) := by
  cases given with
  | some v => exact .pure ⟨hvalue v rfl, hready⟩
  | none =>
    unfold Eval.parameterValue
    cases hcode : param.default with
    | some default => exact law.defaultValue hev param.type (hdefault default hcode)
    | none =>
      rw [hcode] at hready
      cases hready

theorem bindParameters (hev : S.AlikeIn region ev ev') {pairs : List (Parameter × Option Value)}
    (hready : ∀ pair ∈ pairs, Arguments.Accepts pair.1.type pair.1.default.isSome pair.2)
    (hvalues : ∀ pair ∈ pairs, ∀ v ∈ pair.2, S.value v)
    (hdefaults : ∀ pair ∈ pairs, S.optional region pair.1.default) :
    S.Rel region setting (fun _ => True) (Eval.bindParameters ev pairs)
      (Eval.bindParameters ev' pairs) := by
  induction pairs with
  | nil => exact .pure trivial
  | cons pair pairs ih =>
    obtain ⟨param, given⟩ := pair
    refine (law.parameterValue hev (hready (param, given) (by simp))
      (hvalues (param, given) (by simp)) (hdefaults (param, given) (by simp))).bind fun v hv => ?_
    refine (law.declare (v := ⟨v, param.type⟩) param.name hv.2 hv.1).bind fun _ _ => ?_
    exact ih (fun p hp => hready p (by simp [hp])) (fun p hp => hvalues p (by simp [hp]))
      (fun p hp => hdefaults p (by simp [hp]))

theorem formals (params : List Parameter) :
    S.Rel region setting
      (List.Forall₂ (fun param (formal : Formal) =>
        formal.type = param.type ∧ formal.optional = param.default.isSome) params)
      (params.mapM fun param => do
        return (⟨← Eval.text param.name, param.type, param.default.isSome⟩ : Formal))
      (params.mapM fun param => do
        return (⟨← Eval.text param.name, param.type, param.default.isSome⟩ : Formal)) :=
  Rel.mapM fun param _ => (law.text param.name).bind fun _ _ => .pure ⟨rfl, rfl⟩

omit law in
theorem ready_of_suit {P : Function → Prop} {f : Function} {formals : List Formal}
    {values : List (Option Value)}
    (hformals : List.Forall₂ (fun param (formal : Formal) =>
      formal.type = param.type ∧ formal.optional = param.default.isSome) f.params formals)
    (hsuit : Arguments.Suit P formals values) : f.Ready values := by
  have h := hsuit.1
  unfold Function.Ready
  clear hsuit
  generalize f.params = params at hformals
  induction hformals generalizing values with
  | nil => simp
  | cons hfirst _ ih =>
    cases values with
    | nil => simp
    | cons value values =>
      intro pair hpair
      rcases List.mem_cons.mp hpair with rfl | hpair
      · have haccepts := h _ (List.mem_cons_self ..)
        rw [hfirst.1, hfirst.2] at haccepts
        exact haccepts
      · exact ih (fun p hp => h p (List.mem_cons_of_mem _ hp)) pair hpair

theorem callFunction (hrun : S.Alike run run') {f : Function} (hf : S.function f)
    {given : List Given} (hgiven : ∀ arg ∈ given, S.value arg.value ∧ S.points region arg.span)
    {span : Span} (hspan : S.points region span) :
    S.Rel region setting S.value (Eval.callFunction run f given span)
      (Eval.callFunction run' f given span) := by
  refine (law.formals f.params).bind fun formals hformals => ?_
  have hvalues := Arguments.values_suit f.display formals (fun arg harg => (hgiven arg harg).1) span
  have hreports := Arguments.values_reports f.display formals (fun arg harg => (hgiven arg harg).2)
    hspan
  refine (law.checked hvalues hreports).bind fun values hsuit => ?_
  exact law.duringCall hspan (hrun region _ (.body f values)
    ⟨hf, ready_of_suit hformals hsuit, hsuit.2⟩)

theorem callBuiltin (hrun : S.Alike run run') (action : Action) {given : List Given}
    (hgiven : ∀ arg ∈ given, S.value arg.value ∧ S.points region arg.span) {span : Span}
    (hspan : S.points region span) :
    S.Rel region setting S.value (Eval.callBuiltin run action given span)
      (Eval.callBuiltin run' action given span) := by
  have hvalues := Arguments.values_suit action.name (action.params.map (·.formal))
    (fun arg harg => (hgiven arg harg).1) span
  have hreports := Arguments.values_reports action.name (action.params.map (·.formal))
    (fun arg harg => (hgiven arg harg).2) hspan
  refine (law.checked hvalues hreports).bind fun values hsuit => ?_
  refine law.duringCall hspan (hrun region _ (.native action _ span) ⟨?_, hspan⟩)
  have hparams : ∀ param ∈ action.params, S.value param.fallback := by
    cases action <;> simp [Action.params, Discipline.value]
  cases hvalues : action.params.zip values with
  | nil => exact Value.holds_null
  | cons pair pairs =>
    have hpair : pair ∈ action.params.zip values := by simp [hvalues]
    obtain ⟨param, value⟩ := pair
    have hmem := List.of_mem_zip hpair
    cases value with
    | none => exact hparams param hmem.1
    | some v => exact hsuit.2 _ hmem.2 v rfl

theorem evalCall (hrun : S.Alike run run') {callee : NodeId} {args : Run Argument}
    (hcallee : S.node region callee)
    (hargs : S.entries region args Arena.args (S.argument region)) {span : Span}
    (hspan : S.points region span) :
    S.Rel region setting S.value (Eval.evalCall run callee args span)
      (Eval.evalCall run' callee args span) := by
  refine (law.spanOf hcallee).bind fun calleeSpan hcalleeSpan => ?_
  refine (hrun region setting (.node callee) hcallee).bind fun v hv => ?_
  split
  · refine (law.entries hargs).bind fun items hitems => ?_
    refine (law.evalArguments (hrun.nodes region) hitems).bind fun given hgiven => ?_
    exact law.callFunction hrun (Value.holds_function.mp hv) hgiven hspan
  · refine (law.entries hargs).bind fun items hitems => ?_
    refine (law.evalArguments (hrun.nodes region) hitems).bind fun given hgiven => ?_
    exact law.callBuiltin hrun _ hgiven hspan
  · exact law.fault ⟨⟨hcalleeSpan, rfl⟩, rfl⟩

theorem perform (hrun : S.Alike run run') {value : Value} (hvalue : S.value value) {span : Span}
    (hspan : S.points region span) (action : Action) :
    S.Rel region setting S.value (Eval.perform run value span action)
      (Eval.perform run' value span action) := by
  cases action with
  | print => exact (law.onConsole _).bind fun _ _ => .pure Value.holds_null
  | log => exact (law.onConsole _).bind fun _ _ => .pure Value.holds_null
  | input =>
    refine (law.onConsole _).bind fun _ _ => ?_
    exact law.readLine.bind fun line _ => .pure (Value.holds_str line)
  | clear => exact (law.onConsole _).bind fun _ _ => .pure Value.holds_null
  | type => exact .pure (Value.holds_str _)
  | len =>
    dsimp only [Eval.perform]
    split
    · exact .pure (Value.holds_int _)
    · exact law.fault ⟨⟨hspan, rfl⟩, rfl⟩
  | run =>
    refine (law.loadScript value.printed hspan).bind fun script hscript => ?_
    exact hrun region setting (.program script) hscript
  | quit =>
    dsimp only [Eval.perform]
    split
    · split
      · exact law.throws trivial
      · exact law.fault ⟨⟨hspan, rfl⟩, rfl⟩
    · exact law.throws trivial
  | idle name => exact .pure Value.holds_null

end LawfulConstructs

theorem LawfulSteps.runFunction (law : S.LawfulSteps) {f : Function} {values : List (Option Value)}
    (hev : S.AlikeIn (S.ofFunction f) ev ev') (hf : S.function f) (hready : f.Ready values)
    (hvalues : ∀ value ∈ values, ∀ v ∈ value, S.value v) :
    S.Rel region setting S.value (Eval.runFunction ev f values)
      (Eval.runFunction ev' f values) := by
  refine law.inFunction hf fun scope => ?_
  refine (law.bindParameters hev hready ?_ ?_).bind fun _ _ => hev _ f.body hf.1
  · exact fun pair hpair => hvalues pair.2 (List.of_mem_zip hpair).2
  · exact fun pair hpair => hf.2 pair.1 (List.of_mem_zip hpair).1

end ExprScript.Simulation
