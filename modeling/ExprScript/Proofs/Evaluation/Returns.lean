import ExprScript.Proofs.Evaluation.Depth

/-!
# Where a return goes

A return ends the innermost call of a function that is in progress in the running program, with the
value that it returns, and everything that is in progress inside of that call. Outside of such calls
it is a fault. Whether there is such a call is told by counting: the count goes up by one with every
function that runs, is zero for every program that begins, and is afterwards what it was before.
-/
namespace ExprScript

namespace Task

def isProgram : Task → Bool
  | .program _ => true
  | _ => false

/-- Whether the task runs a function of the program: its defaults, and then its body. -/
def isCall : Task → Bool
  | .body _ _ => true
  | _ => false

end Task

namespace Eval

/-- Whether a task comes to doing another one from a given machine: it would exit if the other one
did, since no construct stops an exit. -/
def ComesTo (run : Task → Eval Value) (rounds : Nat) (task : Task) (m : Machine) (inner : Task)
    (n : Machine) : Prop :=
  ∀ other : Task → Eval Value, (∀ t k, ¬(t = inner ∧ k = n) → other t k = run t k) →
    ∀ status, Exits (other inner) status n → Exits (runTask other rounds task) status m

/-- Something that is done: a task, the levels that are left for it, and where it starts. -/
structure Activity where
  level : Nat
  task : Task
  start : Machine

namespace Activity

def result (a : Activity) : EStateM.Result Interrupt Machine Value := eval a.level a.task a.start

def stop (a : Activity) : Machine := after (eval a.level a.task) a.start

/-- Whether one activity is done in the course of another one, as part of nothing else that is done
in it. -/
def Inside (inner outer : Activity) : Prop :=
  outer.level = inner.level + 1 ∧
    ComesTo (eval inner.level) inner.level outer.task outer.start inner.task inner.start

end Activity

/-- How many calls of functions there are among what is in progress, innermost first, since the
innermost program began. -/
def callsSince (around : List Activity) : Nat :=
  (around.takeWhile (!·.task.isProgram)).countP (·.task.isCall)

/-- A value is returned by what is in progress, innermost first, up to a call, and is the value of
that call. -/
inductive EndsCall (v : Value) : List Activity → Prop
  | call {a : Activity} {around : List Activity} {n : Machine} (hcall : a.task.isCall = true)
      (hends : a.result = .ok v n) : EndsCall v (a :: around)
  | pass {a : Activity} {around : List Activity} {n : Machine} (hcall : a.task.isCall = false)
      (hprogram : a.task.isProgram = false) (hends : a.result = .error (.returned v) n)
      (h : EndsCall v around) : EndsCall v (a :: around)

/-! ## Counting -/

theorem callsSince_cons (a : Activity) (around : List Activity) :
    callsSince (a :: around) = a.task.depth (callsSince around) := by
  obtain ⟨level, task, start⟩ := a
  cases task <;> simp [callsSince, Task.isProgram, Task.isCall, Task.depth]

open Classical in
/-- The evaluator that exits instead of doing a task from a machine. -/
noncomputable def exitingAt (run : Task → Eval Value) (inner : Task) (n k : Machine)
    (status : Int) : Task → Eval Value :=
  fun t l => if t = inner ∧ l = n then .error (.exited status) k else run t l

section
variable {run : Task → Eval Value} {inner : Task} {n k : Machine} {status : Int}

theorem exitingAt_self : exitingAt run inner n k status inner n = .error (.exited status) k :=
  if_pos ⟨rfl, rfl⟩

theorem exitingAt_of_ne {t : Task} {l : Machine} (h : ¬(t = inner ∧ l = n)) :
    exitingAt run inner n k status t l = run t l :=
  if_neg h

variable {rounds : Nat} {task : Task} {m : Machine}

theorem ComesTo.exits (h : ComesTo run rounds task m inner n) (k : Machine) (status : Int) :
    Exits (runTask (exitingAt run inner n k status) rounds task) status m :=
  h _ (fun _ _ => exitingAt_of_ne) status ⟨k, exitingAt_self⟩

theorem ComesTo.consults (h : ComesTo run rounds task m inner n) :
    Consults run rounds task m inner n := by
  by_contra hsame
  have hexits : ∀ status, Exits (runTask run rounds task) status m := by
    intro status
    obtain ⟨l, hl⟩ := h.exits n status
    refine ⟨l, hl ▸ by_contra fun hdiffers => hsame ⟨_, fun t k hne => ?_, hdiffers⟩⟩
    exact (exitingAt_of_ne hne).symm
  obtain ⟨_, hzero⟩ := hexits 0
  obtain ⟨_, hone⟩ := hexits 1
  rw [hzero] at hone
  cases hone

end

theorem functions_of_consults {level rounds : Nat} {task inner : Task} {m n : Machine}
    (h : Consults (eval level) rounds task m inner n) :
    n.context.functions = task.depth m.context.functions := by
  by_contra hdepth
  obtain ⟨other, hsame, hdiffers⟩ := h
  refine hdiffers (runTask_congr fun t k hk => (hsame t k ?_).symm).symm
  rintro ⟨-, rfl⟩
  exact hdepth hk

/-- At the start of an activity there are as many functions in progress as calls around it. -/
theorem functions_of_chain {a : Activity} {around : List Activity}
    (hchain : (a :: around).IsChain Activity.Inside)
    (hprogram : ∃ p ∈ around, p.task.isProgram = true) :
    a.start.context.functions = callsSince around := by
  induction around generalizing a with
  | nil => simp at hprogram
  | cons outer around ih =>
    obtain ⟨hinside, hrest⟩ := List.isChain_cons_cons.mp hchain
    rw [functions_of_consults hinside.2.consults, callsSince_cons]
    cases htask : outer.task with
    | program script => rfl
    | _ =>
      rw [ih hrest]
      simpa [htask, Task.isProgram] using hprogram

/-! ## Leaving -/

/-- A program ends with a value or as a program may, and so in no return. -/
theorem program_ends (level : Nat) (script : Script) (m : Machine) :
    match eval level (.program script) m with
    | .ok _ _ => True
    | .error e _ => e.EndsProgram := by
  cases level with
  | zero => exact trivial
  | succ level =>
    have hcode : (Simulation.surrounded (Simulation.behind m #[])).Rel script (⟨[], 0⟩ : InProgress)
        (Simulation.surrounded (Simulation.behind m #[])).value
        (runInPlace (fun id => eval level (.node id)) script.root)
        (runInPlace (fun id => eval level (.node id)) script.root) :=
      Simulation.surrounded_lawful.runInPlace
        ((Simulation.rel_eval Simulation.surrounded_lawful level).nodes script) trivial
    have hcalls : m.context.calls = m.context.calls.under [] :=
      (CallStack.under_nil m.context.calls).symm
    have hends := Simulation.surrounded_program m m.context m.context hcalls hcalls hcode
    have hhere : m.placed m.context #[] = m := by simp [Machine.placed]
    have hboth : m.placed m.context (Simulation.behind m #[]).first.notices = m ∧
        m.placed m.context (Simulation.behind m #[]).second.notices = m := ⟨hhere, hhere⟩
    rw [hboth.1, hboth.2] at hends
    have heval : eval (level + 1) (.program script) m =
        inProgram script (runInPlace (fun id => eval level (.node id)) script.root) m :=
      Simulation.eval_succ level _ m
    rw [heval]
    generalize inProgram script _ m = r at hends ⊢
    cases r with
    | ok v n => trivial
    | error e n =>
      cases hends with
      | error hef _ => exact hef.2
      | lost hforgiving _ => exact hforgiving.elim

/-- Whatever is done leaves as many functions in progress as there were. -/
theorem functions_after (level : Nat) (task : Task) (m : Machine) :
    (after (eval level task) m).context.functions = m.context.functions := by
  cases level with
  | zero => rfl
  | succ level =>
    have heval : eval (level + 1) task = runTask (eval level) level task :=
      funext fun _ => Simulation.eval_succ level task _
    rw [heval]
    cases task with
    | node | native =>
      exact (Simulation.inside_after (Simulation.inside_runTask (Simulation.inside_eval level) level
        (by simp) (by simp)) ⟨rfl, rfl⟩).functions
    | body f values =>
      have hcode := Simulation.inside_after (Simulation.inside_code
        ((Simulation.inside_eval level).nodes f.script) values) (m := m.inCode f) ⟨rfl, rfl⟩
      exact after_inFunction.trans (by rw [hcode.functions]; rfl)
    | program script => exact after_inProgram

/-! ## Returning -/

theorem Activity.Inside.result {inner outer : Activity} (h : inner.Inside outer) :
    outer.result = runTask (eval inner.level) inner.level outer.task outer.start := by
  unfold Activity.result
  rw [h.1]
  exact Simulation.eval_succ inner.level _ _

/-- An evaluator that exits at one point is alike to one that returns there. -/
theorem exitingAt_alike {v : Value} {level : Nat} {inner : Task} {n k : Machine}
    (hreturned : eval level inner n = .error (.returned v) k) (status : Int) (functions : Nat) :
    (Simulation.inside functions (some (v, status))).Alike (eval level)
      (exitingAt (eval level) inner n k status) := by
  intro region setting task htask
  refine Simulation.inside_rel.mpr fun l hl => ?_
  have halike : (Simulation.inside functions (some (v, status))).Alike (eval level) (eval level) :=
    Simulation.inside_eval level
  have hself := Simulation.inside_rel.mp (halike region () task htask) l hl
  by_cases hpoint : task = inner ∧ l = n
  · obtain ⟨rfl, rfl⟩ := hpoint
    rw [exitingAt_self]
    rw [hreturned] at hself ⊢
    cases hself with
    | error _ hmachine => exact .error (.crossed rfl) hmachine
    | lost hforgiving _ => exact hforgiving.elim
  · rw [exitingAt_of_ne hpoint]
    exact hself

/-- A return passes what is in progress up to a call, and no further. -/
theorem endsCall_of_returned {a : Activity} {around : List Activity} {v : Value} {n : Machine}
    (hchain : (a :: around).IsChain Activity.Inside) (hcalls : callsSince around ≠ 0)
    (hreturned : a.result = .error (.returned v) n) : EndsCall v around := by
  induction around generalizing a n with
  | nil => exact absurd rfl hcalls
  | cons outer around ih =>
    obtain ⟨hinside, hrest⟩ := List.isChain_cons_cons.mp hchain
    have halike := exitingAt_alike hreturned
    have hexits := hinside.2.exits n
    rw [callsSince_cons] at hcalls
    cases htask : outer.task with
    | program script => exact absurd (by rw [htask]; rfl) hcalls
    | body f values =>
      obtain ⟨l, hl⟩ := runFunction_returned halike hexits htask
      exact .call (by rw [htask]; rfl) (hinside.result.trans hl)
    | node | native =>
      obtain ⟨l, hl⟩ := runTask_returned halike hexits (by simp [htask]) (by simp [htask])
      have hends := hinside.result.trans hl
      refine .pass (by rw [htask]; rfl) (by rw [htask]; rfl) hends (ih hrest ?_ hends)
      simpa [htask, Task.depth] using hcalls

/-- An activity is a `return`, for which so many levels are left, that has passed its guard or has
none: what it is to return, where it stands, and the machine by then. -/
structure Activity.Returns (a : Activity) (level : Nat) (value : Option NodeId) (span : Span)
    (m : Machine) : Prop where
  left : a.level = level + 1
  passed : ∃ id guard, a.task = .node id ∧
    a.start.context.script.arena.node? id = some ⟨.returnValue value guard, span⟩ ∧
    guardHolds (fun id => eval level (.node id)) guard a.start = .ok true m

namespace Activity.Returns

variable {a : Activity} {level : Nat} {value : Option NodeId} {span : Span} {m : Machine}

/-- Past its guard, a return looks first at whether it is inside of a function. -/
theorem result (h : a.Returns level value span m) :
    a.result =
      if m.context.functions = 0 then .error (.fatal (Fault.returnOutsideFunction span)) m
      else
        match evalOr (fun id => eval level (.node id)) value .null m with
        | .ok v n => .error (.returned v) n
        | .error e n => .error e n := by
  obtain ⟨hlevel, id, guard, htask, hnode, hguard⟩ := h
  have hresult : a.result = runTask (eval level) level (.node id) a.start := by
    unfold Activity.result
    rw [hlevel, htask]
    exact Simulation.eval_succ level _ _
  have hread : node id a.start = .ok ⟨.returnValue value guard, span⟩ a.start := by
    unfold node
    rw [hnode]
  rw [hresult]
  unfold runTask
  dsimp only
  rw [bind_apply, hread]
  unfold evalExpr evalReturn
  dsimp only
  rw [bind_apply, hguard]
  change (outsideFunctions >>= _) m = _
  rw [bind_apply]
  unfold outsideFunctions
  dsimp only
  by_cases houtside : m.context.functions = 0
  · rw [if_pos houtside, if_pos (decide_eq_true houtside)]
    rfl
  · rw [if_neg houtside, if_neg (by simpa using houtside), bind_apply]
    cases evalOr _ value .null m <;> rfl

theorem functions (h : a.Returns level value span m) :
    m.context.functions = a.start.context.functions := by
  obtain ⟨-, id, guard, -, -, hguard⟩ := h
  have halike : (Simulation.inside a.start.context.functions none).Alike (eval level)
      (eval level) := Simulation.inside_eval level
  have hrel : (Simulation.inside a.start.context.functions none).Rel a.start.context.script ()
      (fun _ => True) (guardHolds (fun id => eval level (.node id)) guard)
      (guardHolds (fun id => eval level (.node id)) guard) :=
    (halike.nodes _).guardHolds fun _ _ => trivial
  have hafter : after (guardHolds (fun id => eval level (.node id)) guard) a.start = m := by
    unfold after
    rw [hguard]
  exact hafter ▸ (Simulation.inside_after hrel ⟨rfl, rfl⟩).functions

end Activity.Returns

/-- A program ends with a value, a fault or an exit, or is given up, of which programs know nothing,
but never in a return. Inside of it, what is in progress starts and stops with the number of
functions in progress equal to the number of calls around it since the innermost program began. So
a return that has passed its guard is a fault where there is no such call. Otherwise its value, once
it has one, is that of the innermost call, and whatever is in progress inside of that call ends in
the return. -/
theorem return_ends_innermost_call :
    (∀ level script m,
      match eval level (.program script) m with
      | .ok _ _ => True
      | .error e _ => e.EndsProgram) ∧
    ∀ (a : Activity) (around : List Activity), (a :: around).IsChain Activity.Inside →
      (∃ p ∈ around, p.task.isProgram = true) →
      a.start.context.functions = callsSince around ∧
      a.stop.context.functions = callsSince around ∧
      ∀ level value span m, a.Returns level value span m →
        (callsSince around = 0 →
          a.result = .error (.fatal (Fault.returnOutsideFunction span)) m) ∧
        (callsSince around ≠ 0 →
          match evalOr (fun id => eval level (.node id)) value .null m with
          | .ok v n => a.result = .error (.returned v) n ∧ EndsCall v around
          | .error e n => a.result = .error e n) := by
  refine ⟨program_ends, fun a around hchain hprogram => ?_⟩
  have hstart := functions_of_chain hchain hprogram
  refine ⟨hstart, (functions_after a.level a.task a.start).trans hstart, ?_⟩
  intro level value span m hreturns
  have hdepth := hreturns.functions.trans hstart
  have hresult := hreturns.result
  refine ⟨fun houtside => hresult.trans (if_pos (hdepth.trans houtside)), fun hinside => ?_⟩
  rw [if_neg (hdepth ▸ hinside)] at hresult
  generalize evalOr _ value .null m = r at hresult ⊢
  cases r with
  | ok v n => exact ⟨hresult, endsCall_of_returned hchain hinside hresult⟩
  | error e n => exact hresult

/-! ### A function that is called where it is made -/

def fiveCalled : Script where
  source := ⟨"", "def() { return 5 }()"⟩
  arena :=
    { nodes := #[⟨.int 5, {}⟩, ⟨.returnValue (some ⟨0⟩) none, {}⟩, ⟨.block ⟨0, 1⟩, {}⟩,
        ⟨.define none ⟨0, 0⟩ ⟨2⟩, {}⟩, ⟨.call ⟨3⟩ ⟨0, 0⟩, {}⟩, ⟨.block ⟨1, 1⟩, {}⟩]
      lists := #[⟨1⟩, ⟨4⟩] }
  root := ⟨5⟩

def five : Function := ⟨0, none, "<anonymous>", [], ⟨2⟩, fiveCalled, .root⟩

def inThree : Machine where
  context := ⟨.root, fiveCalled, 3, CallStack.empty none⟩
  scopes := ⟨#[{}]⟩
  names := .empty
  console := default
  host := ⟨fun _ => none, [], true⟩
  logging := true
  notices := #[]
  nextId := 0

def fiveCalls : CallStack := ⟨[⟨"<anonymous>", {}⟩], none, 1, rfl⟩

/-- The machine when the function is made, and then when the call is in progress. -/
def fiveMade : Machine := { inThree.atTop fiveCalled with nextId := 1 }

def duringFive : Machine :=
  { fiveMade with context := { fiveMade.context with calls := fiveCalls } }

def aroundFive : List Activity :=
  [⟨3, .node ⟨2⟩, duringFive.inCode five⟩, ⟨4, .body five [], duringFive⟩,
    ⟨5, .node ⟨4⟩, inThree.atTop fiveCalled⟩, ⟨6, .program fiveCalled, inThree⟩]

def returnFive : Activity := ⟨2, .node ⟨1⟩, (duringFive.inCode five).inChildOf ⟨1⟩⟩

theorem five_inside : (returnFive :: aroundFive).IsChain Activity.Inside := by
  refine .cons_cons ⟨rfl, ?_⟩ (.cons_cons ⟨rfl, ?_⟩ (.cons_cons ⟨rfl, ?_⟩ (.cons_cons ⟨rfl, ?_⟩
    (.singleton _))))
  · intro other _ status hexits
    exact Exits.inNewScope (hexits.bind pure)
  · intro other _ status hexits
    exact exits_inFunction.mpr hexits
  · intro other hother status hexits
    have hcallee : other (.node ⟨3⟩) (inThree.atTop fiveCalled) = .ok (.function five) fiveMade :=
      hother _ _ (by simp)
    have hcall : runTask other 4 (.node ⟨4⟩) (inThree.atTop fiveCalled) =
        duringCall ⟨"<anonymous>", {}⟩ (other (.body five [])) fiveMade := by
      change (other (.node ⟨3⟩) >>= _) _ = _
      rw [bind_apply, hcallee]
      rfl
    have hduring : Exits (duringCall ⟨"<anonymous>", {}⟩ (other (.body five []))) status fiveMade :=
      Exits.duringCall rfl hexits
    obtain ⟨n, hn⟩ := hduring
    exact ⟨n, hcall.trans hn⟩
  · intro other _ status hexits
    exact Exits.inProgram (hexits.bind pure)

/-- The program runs inside of three functions, and the return ends the only call of its own. -/
theorem return_ends_call_of_five :
    returnFive.start.context.functions = callsSince aroundFive ∧ callsSince aroundFive = 1 ∧
      EndsCall (.int 5) aroundFive := by
  have hprogram : ∃ p ∈ aroundFive, p.task.isProgram = true :=
    ⟨⟨6, .program fiveCalled, inThree⟩, by simp [aroundFive], rfl⟩
  obtain ⟨hstart, -, hreturns⟩ :=
    return_ends_innermost_call.2 returnFive aroundFive five_inside hprogram
  have hfive : returnFive.Returns 1 (some ⟨0⟩) {} returnFive.start :=
    ⟨rfl, ⟨1⟩, none, rfl, rfl, rfl⟩
  exact ⟨hstart, rfl, ((hreturns _ _ _ _ hfive).2 (by decide)).2⟩

end Eval
end ExprScript
