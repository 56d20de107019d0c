import ExprScript.Proofs.Evaluation.Calls
import ExprScript.Proofs.Evaluation.Constructs
import ExprScript.Proofs.Evaluation.Loops

/-!
# Alike tasks make alike constructs

The main statement is `Simulation.rel_runTask`: if two evaluators do the tasks inside a task alike,
they do the task alike. From it `Simulation.rel_eval` follows by induction on the levels.
-/
namespace ExprScript.Simulation

variable {S : Simulation} {region : S.Region} {setting : S.Setting}
  {run run' : Task → Eval Value}

theorem LawfulConstructs.evalExpr (law : S.LawfulConstructs) (hrun : S.Alike run run')
    {rounds rounds' : Nat} (hrounds : S.levels rounds rounds') {span : Span}
    (hspan : S.points region span) {expr : Expr} (hparts : S.parts region expr) :
    S.Rel region setting S.value (Eval.evalExpr run rounds span expr)
      (Eval.evalExpr run' rounds' span expr) := by
  have hev := hrun.nodes region
  cases expr with
  | int n => exact .pure (Value.holds_int n)
  | float x => exact .pure (Value.holds_float x)
  | str name => exact (law.text name).bind fun text _ => .pure (Value.holds_str text)
  | ident name => exact law.evalIdent name hspan
  | list items =>
    refine (law.entries hparts).bind fun ids hids => ?_
    refine (Rel.mapM_all fun id hid => hev setting id (hids id hid)).bind fun values hvalues => ?_
    exact .pure (Value.holds_list.mpr hvalues)
  | block statements =>
    refine law.inNewScope fun scope => ?_
    exact (law.entries hparts).bind fun ids hids => hev.runStatements hids
  | index target specs => exact law.evalIndex hev hparts.1 hparts.2
  | member target name => exact law.evalMember hev hparts name hspan
  | cast operand type =>
    refine (hev setting operand hparts).bind fun v hv => ?_
    exact law.ofExcept (fun w hw => Value.holds_of_castTo hv hw) (Value.castTo_faults v type hspan)
  | binary op left right => exact law.evalBinary hev op hparts.1 hparts.2
  | unary op operand =>
    refine (hev setting operand hparts).bind fun v hv => ?_
    exact law.ofExcept (fun w hw => Operate.holds_of_unary ⟨v, span⟩ hv hw)
      (Operate.unary_faults op ⟨v, span⟩ hspan)
  | ternary condition positive negative =>
    obtain ⟨hcondition, hpositive, hnegative⟩ := hparts
    refine (hev setting condition hcondition).bind fun v hv => ?_
    split
    · exact hev.evalOr hpositive hv
    · exact hev.evalOr hnegative Value.holds_null
  | declare type name value yields => exact law.evalDeclare hev type name hparts yields hspan
  | assign name op value yields =>
    refine (hev setting value hparts).bind fun v hv => ?_
    refine (law.spanOf hparts).bind fun valueSpan hvalueSpan => ?_
    have hassigned : S.Rel region setting S.value (Eval.assign name op ⟨v, valueSpan⟩ span)
        (Eval.assign name op ⟨v, valueSpan⟩ span) := law.assign name op hv hvalueSpan hspan
    refine hassigned.bind fun w hw => .pure ?_
    split
    · exact hw
    · exact Value.holds_null
  | ifElse branches otherwise =>
    exact (law.entries hparts.1).bind fun items hitems => law.evalBranches hev hparts.2 hitems
  | caseOf subject arms otherwise =>
    obtain ⟨hsubject, harms, hother⟩ := hparts
    refine (hev setting subject hsubject).bind fun v _ => ?_
    exact (law.entries harms).bind fun items hitems => law.evalArms hev v hother hitems
  | iterate label first last step counter body =>
    obtain ⟨hfirst, hlast, hstep, hbody⟩ := hparts
    exact law.evalIterate hev (fun setting => hrun _ setting (.node body) hbody) hfirst hlast hstep
      hrounds hspan
  | whileLoop label condition body =>
    exact law.whileLoop (hev setting condition hparts.1) (hrun _ setting (.node body) hparts.2)
      hrounds
  | define name params body => exact law.define name hparts
  | call callee args => exact law.evalCall hrun hparts.1 hparts.2 hspan
  | returnValue value guard => exact law.evalReturn hev hparts.1 hparts.2 hspan
  | breakLoop label guard =>
    exact law.sendSignal (e := .broke label) hev hparts.2 hparts.1
  | continueLoop label guard =>
    exact law.sendSignal (e := .continued label) hev hparts.2 hparts.1

/-- A task that runs neither a function nor a script does alike with evaluators that do all tasks
alike. -/
theorem LawfulConstructs.runTask (law : S.LawfulConstructs) (hrun : S.Alike run run')
    {rounds rounds' : Nat} (hrounds : S.levels rounds rounds') {task : Task}
    (htask : S.task region task) (hfunction : ∀ f values, task ≠ .body f values)
    (hscript : ∀ script, task ≠ .program script) :
    S.Rel region setting S.value (Eval.runTask run rounds task)
      (Eval.runTask run' rounds' task) := by
  cases task with
  | node id =>
    exact (law.node htask).bind fun node hnode => law.evalExpr hrun hrounds hnode.2 hnode.1
  | body f values => exact absurd rfl (hfunction f values)
  | native action value span => exact law.perform hrun htask.1 htask.2 action
  | program script => exact absurd rfl (hscript script)

/-- A task that is not the run of a script does alike with evaluators that do all tasks alike. -/
theorem LawfulSteps.runTask (law : S.LawfulSteps) (hrun : S.Alike run run') {rounds rounds' : Nat}
    (hrounds : S.levels rounds rounds') {task : Task} (htask : S.task region task)
    (hscript : ∀ script, task ≠ .program script) :
    S.Rel region setting S.value (Eval.runTask run rounds task)
      (Eval.runTask run' rounds' task) := by
  by_cases hfunction : ∃ f values, task = .body f values
  · obtain ⟨f, values, rfl⟩ := hfunction
    obtain ⟨hf, hready, hvalues⟩ := htask
    exact law.runFunction (hrun.nodes _) hf hready hvalues
  · apply law.toLawfulConstructs.runTask hrun hrounds htask _ hscript
    intro f values heq
    exact hfunction ⟨f, values, heq⟩

/-- Evaluators that do all tasks alike do alike what is built from them. -/
theorem rel_runTask (law : S.Lawful) (hrun : S.Alike run run') {rounds rounds' : Nat}
    (hrounds : S.levels rounds rounds') :
    S.Alike (Eval.runTask run rounds) (Eval.runTask run' rounds') := by
  intro region setting task htask
  by_cases hscript : ∃ script, task = .program script
  · obtain ⟨script, rfl⟩ := hscript
    exact law.inProgram htask (law.runInPlace (hrun.nodes _) htask)
  · apply law.runTask hrun hrounds htask
    intro script heq
    exact hscript ⟨script, heq⟩

theorem eval_succ (level : Nat) (task : Task) (m : Machine) :
    Eval.eval (level + 1) task m = Eval.runTask (Eval.eval level) level task m := by
  simp only [Eval.eval, atLevel_eq]

/-- Like machines stay alike, whatever levels the two runs may have. -/
theorem rel_eval_levels (law : S.Lawful) {level level' : Nat} (h : S.levels level level') :
    S.Alike (Eval.eval level) (Eval.eval level') := by
  induction level, level', h using byLevels with
  | zero => exact fun _ _ _ _ => law.outOfLevels
  | fewer hforgiving => exact fun _ _ _ _ => .lost_left hforgiving _
  | more level level' hlevels _ ih =>
    intro region setting task htask m n hmn
    rw [eval_succ, eval_succ]
    exact rel_runTask law ih hlevels region setting task htask m n hmn

/-- Every evaluation is alike to itself: like machines stay alike. -/
theorem rel_eval (law : S.Lawful) (level : Nat) : S.Alike (Eval.eval level) (Eval.eval level) :=
  rel_eval_levels law (levels_self level)

end ExprScript.Simulation
