import ExprScript.Proofs.Evaluation.Asked
import ExprScript.Proofs.Evaluation.Returns

/-!
# The calls that a fault carries

A fault arises in something that ends in a fault while nothing inside of it does. On its way outward
the fault passes everything around, and the first call that it leaves puts all calls in progress on
it, which stay there.
-/
namespace ExprScript

namespace Eval

section
variable {α : Type} {entered : Task → List TraceFrame} {calls : CallStack}
  {run : Task → Eval Value} {F : (Task → Eval Value) → Ending α} {task : Task} {n : Machine}

/-! ## One run -/

/-- Whether a run comes to a task: it would exit if the task did. -/
def Comes (run : Task → Eval Value) (F : (Task → Eval Value) → Ending α) (task : Task)
    (n : Machine) : Prop :=
  ∀ other : Task → Eval Value, (∀ t k, ¬(t = task ∧ k = n) → other t k = run t k) →
    ∀ status, Exits (other task) status n → ∃ k, F other = .error (.exited status) k

/-- Whether the evaluator leaves the calls in progress as they were. -/
def KeepsCalls (run : Task → Eval Value) : Prop :=
  ∀ task n, Ending.calls (run task n) = n.context.calls

theorem Asking.calls_eq (h : Asking entered calls F) (hrun : KeepsCalls run) :
    Ending.calls (F run) = calls := by
  induction h with
  | own h => exact h.calls
  | ask task n rest _ _ hfatal _ ih =>
    have hkept := hrun task n
    dsimp only
    by_cases hfails : ∃ frames, Ending.Fails (run task n) frames
    · obtain ⟨frames, d, m, hend, -⟩ := hfails
      rw [hend] at hkept ⊢
      obtain ⟨d', k, hk, hcalls, -⟩ := hfatal d m hkept
      rw [hk]
      exact hcalls
    · exact ih _ hkept (not_exists.mp hfails)

/-- A fault of a run carries no calls, or the run comes to something that ends in a fault. -/
theorem Asking.exists_failing (h : Asking entered calls F) (hrun : KeepsCalls run)
    {frames : List TraceFrame} (hfails : Ending.Fails (F run) frames) :
    frames = [] ∨ ∃ task n inner, Comes run F task n ∧ Ending.Fails (run task n) inner := by
  induction h with
  | own h => exact .inl (h.bare frames hfails)
  | ask task n rest _ hexited _ _ ih =>
    by_cases hinner : ∃ inner, Ending.Fails (run task n) inner
    · obtain ⟨inner, hinner⟩ := hinner
      refine .inr ⟨task, n, inner, fun other _ status hexits => ?_, hinner⟩
      obtain ⟨k, hk⟩ := hexits
      obtain ⟨l, hl⟩ := hexited status k
      exact ⟨l, by dsimp only; rw [hk, hl]⟩
    · refine (ih _ (hrun task n) (not_exists.mp hinner) hfails).imp_right ?_
      rintro ⟨t, k, inner, hcomes, hfailing⟩
      refine ⟨t, k, inner, fun other hother status hexits => ?_, hfailing⟩
      have hsame : other task n = run task n := by
        refine hother task n ?_
        rintro ⟨rfl, rfl⟩
        exact hinner ⟨inner, hfailing⟩
      dsimp only
      rw [hsame]
      exact hcomes other hother status hexits

/-- What a run comes to starts in the calls that are entered for it, and ends the run if it ends in
a fault. -/
theorem Asking.comes (h : Asking entered calls F) (hrun : KeepsCalls run)
    (hcomes : Comes run F task n) :
    n.context.calls.frames = entered task ++ calls.frames ∧
      ∀ frames, Ending.Fails (run task n) frames →
        Ending.Fails (F run) (carried (entered task) calls.frames frames) := by
  have hexits (status : Int) : ∃ k, F (exitingAt run task n n status) = .error (.exited status) k :=
    hcomes _ (fun _ _ => exitingAt_of_ne) status ⟨n, exitingAt_self⟩
  induction h with
  | @own r h =>
    obtain ⟨_, hzero⟩ := hexits 0
    obtain ⟨_, hone⟩ := hexits 1
    rw [hzero] at hone
    cases hone
  | ask t k rest hcalls _ hfatal _ ih =>
    dsimp only at hexits ⊢
    by_cases hpoint : t = task ∧ k = n
    · obtain ⟨rfl, rfl⟩ := hpoint
      refine ⟨hcalls, ?_⟩
      rintro frames ⟨d, m, hend, rfl⟩
      have hkept := hrun t k
      rw [hend] at hkept ⊢
      obtain ⟨d', l, hl, -, hframes⟩ := hfatal d m hkept
      exact ⟨d', l, hl run, hframes⟩
    · -- The other task ends in no fault, or the run would not come any further.
      have hsame (status : Int) : exitingAt run task n n status t k = run t k :=
        exitingAt_of_ne hpoint
      have hfails : ∀ frames, ¬Ending.Fails (run t k) frames := by
        rintro _ ⟨d, m, hend, rfl⟩
        have hkept := hrun t k
        obtain ⟨l, hl⟩ := hexits 0
        rw [hsame, hend] at hl
        rw [hend] at hkept
        obtain ⟨d', l', hl', -⟩ := hfatal d m hkept
        rw [hl'] at hl
        cases hl
      refine ih _ (hrun t k) hfails (fun other hagree status hexits => ?_) fun status => ?_
      · have hcame : ∃ l, rest (other t k) other = .error (.exited status) l :=
          hcomes other hagree status hexits
        rwa [hagree t k hpoint] at hcame
      · exact hsame status ▸ hexits status

end

/-! ## Activities -/

theorem eval_keepsCalls (level : Nat) : KeepsCalls (eval level) := by
  induction level with
  | zero => exact fun _ _ => rfl
  | succ level ih =>
    intro task n
    rw [Simulation.eval_succ]
    exact (asking_runTask level task n).calls_eq ih

namespace Activity

/-- The call, if it is one, that an activity enters for what is done inside of it: the function by
the name that it shows, at the place of the call. -/
def entered (outer inner : Activity) : List TraceFrame := outer.task.entered outer.start inner.task

def frames (a : Activity) : List TraceFrame := a.start.context.calls.frames

def Faults (a : Activity) : Prop := ∃ d n, a.result = .error (.fatal d) n

/-- The fault of one activity arises in another one, where nothing inside ends in a fault, with
these calls entered on the way there, innermost first. -/
inductive Arises : Activity → Activity → List TraceFrame → Prop
  | here {a : Activity} (hfaults : a.Faults) (hnone : ∀ inner : Activity, inner.Inside a →
      ¬inner.Faults) : Arises a a []
  | inside {a inner origin : Activity} {calls : List TraceFrame} (hinside : inner.Inside a)
      (h : Arises inner origin calls) : Arises a origin (calls ++ a.entered inner)

variable {a inner outer origin : Activity} {calls frames : List TraceFrame}

theorem faults_of_fails (h : Ending.Fails a.result frames) : a.Faults := by
  obtain ⟨d, n, hend, -⟩ := h
  exact ⟨d, n, hend⟩

/-- What is done inside starts in the calls that are entered for it, and its fault ends what it is
inside of. -/
theorem Inside.passes (h : inner.Inside outer) :
    inner.frames = outer.entered inner ++ outer.frames ∧
      ∀ frames, Ending.Fails inner.result frames →
        Ending.Fails outer.result (carried (outer.entered inner) outer.frames frames) := by
  have hcomes : Comes (eval inner.level)
      (fun run => runTask run inner.level outer.task outer.start) inner.task inner.start := h.2
  have hpasses := (asking_runTask inner.level outer.task outer.start).comes
    (eval_keepsCalls inner.level) hcomes
  rw [← h.result] at hpasses
  exact hpasses

theorem Inside.passes_traced (h : inner.Inside outer) (hframes : frames ≠ [])
    (hfails : Ending.Fails inner.result frames) : Ending.Fails outer.result frames := by
  have hpassed := h.passes.2 frames hfails
  rwa [carried, if_pos (.inr hframes)] at hpassed

theorem bare_of_none (hfails : Ending.Fails a.result frames)
    (hnone : ∀ inner : Activity, inner.Inside a → ¬inner.Faults) : frames = [] := by
  obtain ⟨level, task, start⟩ := a
  cases level with
  | zero =>
    obtain ⟨d, n, hend, -⟩ := hfails
    cases hend
  | succ level =>
    have hresult : Activity.result ⟨level + 1, task, start⟩ =
        runTask (eval level) level task start := Simulation.eval_succ level _ _
    rw [hresult] at hfails
    rcases (asking_runTask level task start).exists_failing (eval_keepsCalls level) hfails with
      hbare | ⟨t, n, inner, hcomes, hfailing⟩
    · exact hbare
    · exact absurd (faults_of_fails (a := ⟨level, t, n⟩) hfailing)
        (hnone ⟨level, t, n⟩ ⟨rfl, hcomes⟩)

theorem Faults.exists_arises (h : a.Faults) : ∃ origin calls, Arises a origin calls := by
  generalize hlevel : a.level = level
  induction level using Nat.strongRecOn generalizing a with
  | ind level ih =>
    by_cases hinner : ∃ inner : Activity, inner.Inside a ∧ inner.Faults
    · obtain ⟨inner, hinside, hfaults⟩ := hinner
      have hlt : inner.level < level := by
        have := hinside.1
        omega
      obtain ⟨origin, calls, harises⟩ := ih inner.level hlt hfaults rfl
      exact ⟨origin, _, .inside hinside harises⟩
    · exact ⟨a, [], .here h fun inner hinside hfaults => hinner ⟨inner, hinside, hfaults⟩⟩

/-- Where calls are entered on the way, something inside ends in the fault. -/
theorem Arises.exists_inside (h : Arises a origin calls) (hcalls : calls ≠ []) :
    ∃ inner passed, inner.Inside a ∧ Arises inner origin passed ∧
      calls = passed ++ a.entered inner := by
  cases h with
  | here => exact absurd rfl hcalls
  | inside hinside h => exact ⟨_, _, hinside, h, rfl⟩

/-- The fault carries no calls if none were entered, and otherwise these and those around. -/
theorem Arises.fails (h : Arises a origin calls) :
    origin.frames = calls ++ a.frames ∧
      Ending.Fails a.result (if calls = [] then [] else calls ++ a.frames) := by
  induction h with
  | @here a hfaults hnone =>
    obtain ⟨d, n, hend⟩ := hfaults
    have hfails : Ending.Fails a.result d.frames := ⟨d, n, hend, rfl⟩
    rw [bare_of_none hfails hnone] at hfails
    exact ⟨rfl, hfails⟩
  | @inside a inner origin calls hinside _ ih =>
    obtain ⟨hstart, hpasses⟩ := hinside.passes
    obtain ⟨horigin, hfails⟩ := ih
    refine ⟨by rw [horigin, hstart, List.append_assoc], ?_⟩
    have hpassed := hpasses _ hfails
    convert hpassed using 1
    unfold carried
    by_cases hcalls : calls = []
    · by_cases hentered : a.entered inner = []
      · simp [hcalls, hentered]
      · simp [hcalls, hentered]
    · simp [hcalls, hstart]

end Activity
end Eval
end ExprScript
