import ExprScript.Proofs.Evaluation.Signals
import ExprScript.Proofs.Evaluation.Surroundings

/-!
# Inside of functions

Code is inside of as many functions as when it began to run: what it does depends on nothing but
what is done at that depth, the code of a function being one deeper and that of a program outside
of all. If a `return` took the place of an exit somewhere in it, it would end in this `return`
instead of the exit, or with the value if it is the code of a function.
-/
namespace ExprScript

/-- The interruptions are the same, but that the one may be a certain return where the other one is
a certain exit. -/
inductive Interrupt.Crossed (crossing : Option (Value × Int)) : Interrupt → Interrupt → Prop
  | same (e : Interrupt) : Crossed crossing e e
  | crossed {v : Value} {status : Int} (h : crossing = some (v, status)) :
      Crossed crossing (.returned v) (.exited status)

theorem Interrupt.Crossed.completed {crossing : Option (Value × Int)} {e f : Interrupt}
    (h : Crossed crossing e f) (complete : Diagnostic → Diagnostic) :
    Crossed crossing (e.completed complete) (f.completed complete) := by
  cases h with
  | same e => exact .same _
  | crossed h => exact .crossed h

theorem Interrupt.Crossed.afterBody {crossing : Option (Value × Int)} {e f : Interrupt}
    (h : Crossed crossing e f) (label : Option Name) :
    Sum.LiftRel (Crossed crossing) (fun a b => a = b ∧ True) (e.afterBody label)
      (f.afterBody label) := by
  cases h with
  | same e =>
    cases e.afterBody label with
    | inl e => exact .inl (.same e)
    | inr flow => exact .inr ⟨rfl, trivial⟩
  | crossed h => exact .inl (.crossed h)

/-- Whether a run ends in an exit with a given status. -/
def Eval.Exits {α : Type} (p : Eval α) (status : Int) (m : Machine) : Prop :=
  ∃ n, p m = .error (.exited status) n

namespace Simulation

/-- Machines are alike if they are one machine that is inside of so many functions. -/
def inside (functions : Nat) (crossing : Option (Value × Int)) : Simulation where
  toDiscipline := .any
  Setting := Unit
  inScope _ _ := ()
  inCall _ _ := ()
  inFunction _ _ := ()
  inProgram _ _ := ()
  related script _ m n := n = m ∧ m.Runs script ⟨[], functions⟩
  interrupt _ _ e f := e.Crossed crossing f

variable {functions : Nat} {crossing : Option (Value × Int)} {script : Script} {α : Type}

instance : (inside functions crossing).Strict := ⟨id⟩

theorem inside_rel {G : α → Prop} {p q : Eval α} :
    (inside functions crossing).Rel script () G p q ↔
      ∀ m : Machine, m.Runs script ⟨[], functions⟩ →
        (inside functions crossing).Outcome script () G (p m) (q m) := by
  refine ⟨fun h m hm => h m m ⟨rfl, hm⟩, ?_⟩
  rintro h m _ ⟨rfl, hm⟩
  exact h _ hm

theorem inside_of_surrounded {G : α → Prop} {p : Eval α}
    (h : ∀ pair, (surrounded pair).Rel script (⟨[], functions⟩ : InProgress) G p p) :
    (inside functions crossing).Rel script () G p p := by
  refine inside_rel.mpr fun m hm => ?_
  have hends := surrounded_rel.mp (h (behind m #[])) m hm
  have hfirst : m.within (behind m #[]).first [] = m := within_nothing m
  have hsecond : m.within (behind m #[]).second [] = m := hfirst
  dsimp only at hends
  rw [hfirst, hsecond] at hends
  generalize p m = r at hends ⊢
  cases r with
  | ok a n =>
    cases hends with
    | ok ha hmachine =>
      obtain ⟨k, hk, rfl, -⟩ := hmachine
      exact .ok ha ⟨rfl, hk.script, hk.functions⟩
    | lost hforgiving _ => exact hforgiving.elim
  | error e n =>
    cases hends with
    | error _ hmachine =>
      obtain ⟨k, hk, rfl, -⟩ := hmachine
      exact .error (.same e) ⟨rfl, hk.script, hk.functions⟩
    | lost hforgiving _ => exact hforgiving.elim

/-! ## Entering and leaving -/

section
variable {p q : Eval Value}

theorem inside_inNewScope
    (h : (inside functions crossing).Rel script () (inside functions crossing).value p q) :
    (inside functions crossing).Rel script () (inside functions crossing).value (Eval.inNewScope p)
      (Eval.inNewScope q) := by
  refine inside_rel.mpr fun m hm => ?_
  unfold Eval.inNewScope Eval.inChildOf Eval.inScope
  refine Eval.InStep.elsewhere (K := (inside functions crossing).related script ())
    (inside_rel.mp h _ ⟨hm.script, hm.functions⟩) ?_
  rintro n _ ⟨rfl, hn⟩
  exact ⟨rfl, hn.script, hn.functions⟩

theorem inside_duringCall (frame : TraceFrame)
    (h : (inside functions crossing).Rel script () (inside functions crossing).value p q) :
    (inside functions crossing).Rel script () (inside functions crossing).value
      (Eval.duringCall frame p) (Eval.duringCall frame q) := by
  refine inside_rel.mpr fun m hm => ?_
  unfold Eval.duringCall
  cases m.context.calls.push frame with
  | error d => exact .error (.same _) ⟨rfl, hm⟩
  | ok calls =>
    have hcode := inside_rel.mp h { m with context := { m.context with calls } }
      ⟨hm.script, hm.functions⟩
    refine Eval.InStep.elsewhere (K := (inside functions crossing).related script ())
      (hcode.completeFault (fun here d => here.calls.attach d) ?_) ?_
    · rintro e f n _ hef ⟨rfl, -⟩
      exact hef.completed _
    · rintro n _ ⟨rfl, hn⟩
      exact ⟨rfl, hn.script, hn.functions⟩

theorem inside_runBody (label : Option Name)
    (h : (inside functions crossing).Rel script () (inside functions crossing).value p q) :
    (inside functions crossing).Rel script () (fun _ => True) (Eval.runBody label p)
      (Eval.runBody label q) := by
  refine inside_rel.mpr fun m hm => ?_
  rw [Eval.runBody_eq, Eval.runBody_eq]
  exact (inside_rel.mp h m hm).handled (fun _ _ => trivial)
    (fun _ _ _ _ hef _ => hef.afterBody label) fun _ => rfl

end

theorem inside_reads : (inside functions crossing).LawfulReads where
  discipline := Discipline.any_lawful
  interrupt _ := .same _
  script := by
    rintro script _ m _ ⟨rfl, hm⟩
    exact ⟨hm.script, hm.script⟩
  text name := inside_of_surrounded fun _ => surrounded_reads.text name
  lookup name := inside_of_surrounded fun _ => surrounded_reads.lookup name
  outsideFunctions := inside_of_surrounded fun _ =>
    surrounded_reads.outsideFunctions.mono fun _ _ _ => trivial
  checked hp hreports := inside_of_surrounded fun _ => surrounded_reads.checked hp hreports

theorem inside_constructs : (inside functions crossing).LawfulConstructs where
  toLawfulReads := inside_reads
  declare name _ _ := inside_of_surrounded fun _ => surrounded_declare name _
  assign name op hoperand hright hspan :=
    inside_of_surrounded fun _ => surrounded_lawful.assign name op hoperand hright hspan
  freshId := inside_of_surrounded fun _ => surrounded_lawful.freshId
  place := inside_of_surrounded fun _ => surrounded_lawful.place
  onConsole f := inside_of_surrounded fun _ => surrounded_lawful.onConsole f
  readLine := inside_of_surrounded fun _ => surrounded_lawful.readLine
  loadScript path hspan := inside_of_surrounded fun _ => surrounded_lawful.loadScript path hspan
  inNewScope h := inside_inNewScope (h .root)
  duringCall _ h := inside_duringCall _ h
  runBody := inside_runBody

theorem inside_eval (level : Nat) :
    (inside functions crossing).Alike (Eval.eval level) (Eval.eval level) :=
  fun region _ task htask => inside_of_surrounded fun _ =>
    rel_eval surrounded_lawful level region _ task htask

/-- What is alike to itself leaves the depth as it is, however it ends. -/
theorem inside_after {G : α → Prop} {p : Eval α} {m : Machine}
    (h : (inside functions none).Rel script () G p p) (hm : m.Runs script ⟨[], functions⟩) :
    (Eval.after p m).Runs script ⟨[], functions⟩ := by
  have hends := inside_rel.mp h m hm
  unfold Eval.after
  generalize p m = r at hends ⊢
  cases r with
  | ok a n =>
    cases hends with
    | ok _ hmachine => exact hmachine.2
    | lost hforgiving _ => exact hforgiving.elim
  | error e n =>
    cases hends with
    | error _ hmachine => exact hmachine.2
    | lost hforgiving _ => exact hforgiving.elim

theorem inside_isInvariant : (inside functions none).IsInvariant where
  machine hmn := hmn.1.symm
  interrupt hef := by
    cases hef with
    | same => rfl
    | crossed h => cases h

/-- Runs that are alike are one run where neither has to return for the other to exit. -/
theorem eq_of_inside {G : α → Prop} {p q : Eval α} {m : Machine}
    (h : (inside functions none).Rel script () G p q) (hm : m.Runs script ⟨[], functions⟩) :
    p m = q m :=
  inside_isInvariant.eq_of_outcome (inside_rel.mp h m hm)

/-- Evaluators that do the same at a depth are alike there. -/
theorem inside_of_agree {level : Nat} {run : Task → Eval Value}
    (h : ∀ t k, k.context.functions = functions → run t k = Eval.eval level t k) :
    (inside functions none).Alike run (Eval.eval level) := by
  intro region setting t ht
  refine inside_rel.mpr fun k hk => ?_
  rw [h t k hk.functions]
  exact inside_rel.mp (inside_eval level region () t ht) k hk

/-- What ends in an exit where it could return, whatever the exit may be, ends in the return. -/
theorem returned_of_crossed {v : Value} {p : Eval Value} {q : Int → Eval Value} {m : Machine}
    (hm : m.Runs script ⟨[], functions⟩)
    (h : ∀ status, (inside functions (some (v, status))).Rel script ()
      (inside functions (some (v, status))).value p (q status))
    (hexits : ∀ status, Eval.Exits (q status) status m) :
    ∃ n, p m = .error (.returned v) n := by
  -- Two exits are needed, since one might be that of the first run.
  obtain ⟨_, hzero⟩ := hexits 0
  obtain ⟨_, hone⟩ := hexits 1
  have hends := inside_rel.mp (h 0) m hm
  have hends' := inside_rel.mp (h 1) m hm
  rw [hzero] at hends
  rw [hone] at hends'
  generalize p m = r at hends hends'
  cases hends with
  | error hef _ =>
    cases hef with
    | same =>
      cases hends' with
      | error hef _ => cases hef
      | lost hforgiving _ => exact absurd hforgiving Strict.strict
    | crossed h =>
      cases h
      exact ⟨_, rfl⟩
  | lost hforgiving _ => exact absurd hforgiving Strict.strict

end Simulation

/-! ## The code of functions and programs -/

def Machine.inChildOf (m : Machine) (parent : ScopeId) : Machine :=
  { m with
    context := { m.context with scope := (m.scopes.child parent).1 }
    scopes := (m.scopes.child parent).2 }

def Machine.inCode (m : Machine) (f : Function) : Machine :=
  { m with
    context :=
      { m.context with script := f.script, functions := m.context.functions + 1 } }.inChildOf
    f.closure

namespace Eval

section
variable {f : Function} {script : Script} {p q : Eval Value} {m : Machine} {v : Value}

theorem inFunction_congr (h : p (m.inCode f) = q (m.inCode f)) :
    inFunction f p m = inFunction f q m := by
  unfold Machine.inCode Machine.inChildOf at h
  unfold inFunction elsewhere returning sourced completeFault inChildOf inScope elsewhere
  dsimp only
  rw [h]

theorem inProgram_congr (h : p (m.atTop script) = q (m.atTop script)) :
    inProgram script p m = inProgram script q m := by
  unfold Machine.atTop at h
  unfold inProgram elsewhere stoppedAtTop sourced completeFault
  dsimp only
  rw [h]

theorem inFunction_of_returned {n : Machine} (h : p (m.inCode f) = .error (.returned v) n) :
    ∃ k, inFunction f p m = .ok v k := by
  unfold Machine.inCode Machine.inChildOf at h
  unfold inFunction elsewhere returning sourced completeFault inChildOf inScope elsewhere
  dsimp only
  rw [h]
  exact ⟨_, rfl⟩

theorem exits_inFunction {status : Int} :
    Exits (inFunction f p) status m ↔ Exits p status (m.inCode f) := by
  unfold Exits inFunction elsewhere returning sourced completeFault inChildOf inScope elsewhere
    Machine.inCode Machine.inChildOf
  dsimp only
  generalize p _ = r
  constructor
  · rintro ⟨n, h⟩
    cases r with
    | ok v k => cases h
    | error e k =>
      cases e <;> cases h
      exact ⟨_, rfl⟩
  · rintro ⟨n, rfl⟩
    exact ⟨_, rfl⟩

theorem after_inFunction :
    (after (inFunction f p) m).context.functions =
      (after p (m.inCode f)).context.functions - 1 := by
  unfold after inFunction elsewhere returning sourced completeFault inChildOf inScope elsewhere
    Machine.inCode Machine.inChildOf
  dsimp only
  generalize p _ = r
  cases r with
  | ok v n => rfl
  | error e n => cases e <;> rfl

theorem after_inProgram :
    (after (inProgram script p) m).context.functions = m.context.functions := by
  unfold after inProgram elsewhere stoppedAtTop sourced completeFault
  dsimp only
  generalize p _ = r
  cases r with
  | ok v n => rfl
  | error e n => cases e <;> rfl

end

/-! ### Exits -/

section
variable {α β : Type} {p : Eval α} {q : Eval Value} {status : Int} {m : Machine}

theorem Exits.bind (h : Exits p status m) (f : α → Eval β) : Exits (p >>= f) status m := by
  obtain ⟨n, hn⟩ := h
  exact ⟨n, by rw [bind_apply, hn]⟩

theorem Exits.behind {f : α → Eval β} {a : α} {n : Machine} (hp : p m = .ok a n)
    (h : Exits (f a) status n) : Exits (p >>= f) status m := by
  obtain ⟨k, hk⟩ := h
  refine ⟨k, ?_⟩
  rw [bind_apply, hp]
  exact hk

theorem Exits.inNewScope (h : Exits q status (m.inChildOf m.context.scope)) :
    Exits (inNewScope q) status m := by
  obtain ⟨n, hn⟩ := h
  unfold Machine.inChildOf at hn
  unfold Exits Eval.inNewScope Eval.inChildOf inScope elsewhere
  dsimp only
  rw [hn]
  exact ⟨_, rfl⟩

theorem Exits.duringCall {frame : TraceFrame} {calls : CallStack}
    (hcalls : m.context.calls.push frame = .ok calls)
    (h : Exits q status { m with context := { m.context with calls } }) :
    Exits (duringCall frame q) status m := by
  obtain ⟨n, hn⟩ := h
  unfold Exits Eval.duringCall elsewhere completeFault
  rw [hcalls]
  dsimp only
  rw [hn]
  exact ⟨_, rfl⟩

theorem Exits.inProgram {script : Script} (h : Exits q status (m.atTop script)) :
    Exits (inProgram script q) status m := by
  obtain ⟨n, hn⟩ := h
  unfold Machine.atTop at hn
  unfold Exits Eval.inProgram elsewhere stoppedAtTop sourced completeFault
  dsimp only
  rw [hn]
  exact ⟨_, rfl⟩

end

end Eval

namespace Simulation

variable {functions : Nat} {crossing : Option (Value × Int)} {script : Script}
  {ev ev' : NodeId → Eval Value}

theorem inside_parameterValue (hev : (inside functions crossing).AlikeIn script ev ev')
    (param : Parameter) (given : Option Value) :
    (inside functions crossing).Rel script () (fun _ => True) (Eval.parameterValue ev param given)
      (Eval.parameterValue ev' param given) := by
  unfold Eval.parameterValue
  cases given with
  | some v => exact .pure trivial
  | none =>
    cases param.default with
    | some default =>
      exact (inside_constructs.defaultValue hev param.type trivial).mono fun _ _ => trivial
    | none => exact .pure trivial

theorem inside_bindParameters (hev : (inside functions crossing).AlikeIn script ev ev')
    (pairs : List (Parameter × Option Value)) :
    (inside functions crossing).Rel script () (fun _ => True) (Eval.bindParameters ev pairs)
      (Eval.bindParameters ev' pairs) := by
  induction pairs with
  | nil => exact .pure trivial
  | cons pair pairs ih =>
    refine (inside_parameterValue hev pair.1 pair.2).bind fun v _ => ?_
    exact (inside_of_surrounded fun _ => surrounded_declare _ _).bind fun _ _ => ih

/-- The code of a function, whatever the call has for its parameters. -/
theorem inside_code {f : Function} (hev : (inside functions crossing).AlikeIn f.script ev ev')
    (values : List (Option Value)) :
    (inside functions crossing).Rel f.script () (inside functions crossing).value
      (do Eval.bindParameters ev (f.params.zip values); ev f.body)
      (do Eval.bindParameters ev' (f.params.zip values); ev' f.body) :=
  (inside_bindParameters hev _).bind fun _ _ => hev () f.body trivial

theorem inside_runTask {run run' : Task → Eval Value}
    (halike : (inside functions crossing).Alike run run') (rounds : Nat) {task : Task}
    (hfunction : ∀ f values, task ≠ .body f values) (hprogram : ∀ script, task ≠ .program script) :
    (inside functions crossing).Rel script () (inside functions crossing).value
      (Eval.runTask run rounds task) (Eval.runTask run' rounds task) := by
  refine inside_constructs.runTask halike (levels_self rounds) ?_ hfunction hprogram
  cases task with
  | node id => exact trivial
  | body f values => exact absurd rfl (hfunction f values)
  | native action value span => exact ⟨Discipline.any_value value, Discipline.any_placed _ span⟩
  | program script => exact absurd rfl (hprogram script)

end Simulation

/-- Inside of how many functions the code of a task is, if so many are in progress already. -/
def Task.depth (task : Task) (functions : Nat) : Nat :=
  match task with
  | .node _ | .native _ _ _ => functions
  | .body _ _ => functions + 1
  | .program _ => 0

namespace Eval

variable {level rounds : Nat} {task : Task} {m : Machine} {run : Task → Eval Value}

theorem runTask_congr
    (h : ∀ t k, k.context.functions = task.depth m.context.functions → run t k = eval level t k) :
    runTask run rounds task m = runTask (eval level) rounds task m := by
  have halike := Simulation.inside_of_agree h
  cases task with
  | node | native =>
    exact Simulation.eq_of_inside (Simulation.inside_runTask halike rounds (by simp) (by simp))
      ⟨rfl, rfl⟩
  | body f values =>
    exact inFunction_congr (Simulation.eq_of_inside
      (Simulation.inside_code (halike.nodes f.script) values) ⟨rfl, rfl⟩)
  | program script =>
    exact inProgram_congr (Simulation.eq_of_inside
      (Simulation.inside_constructs.runInPlace (halike.nodes script) trivial) ⟨rfl, rfl⟩)

/-! ### Returns

Evaluators for several exits are alike to one that gives a return in place of these exits. A task
that ends in the exits with the former evaluators ends in the return, or because of it, with the
latter. -/

section
variable {v : Value} {exiting : Int → Task → Eval Value}
  (halike : ∀ status functions,
    (Simulation.inside functions (some (v, status))).Alike (eval level) (exiting status))
  (hexits : ∀ status, Exits (runTask (exiting status) rounds task) status m)

include halike hexits

theorem runTask_returned (hfunction : ∀ f values, task ≠ .body f values)
    (hprogram : ∀ script, task ≠ .program script) :
    ∃ n, runTask (eval level) rounds task m = .error (.returned v) n := by
  exact Simulation.returned_of_crossed ⟨rfl, rfl⟩
    (fun status => Simulation.inside_runTask (halike status m.context.functions) rounds hfunction
      hprogram) hexits

/-- A return from the code of a function gives the value of the function. -/
theorem runFunction_returned {f : Function} {values : List (Option Value)}
    (hbody : task = .body f values) :
    ∃ n, runTask (eval level) rounds task m = .ok v n := by
  subst hbody
  have hcode := Simulation.returned_of_crossed (m := m.inCode f) ⟨rfl, rfl⟩
    (fun status => Simulation.inside_code
      ((halike status (m.context.functions + 1)).nodes f.script) values)
    fun status => exits_inFunction.mp (hexits status)
  obtain ⟨n, hn⟩ := hcode
  exact inFunction_of_returned hn

end

end Eval
end ExprScript
