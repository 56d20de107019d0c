import ExprScript.Proofs.Evaluation.Congruence

/-!
# The tasks of a run

A run comes to a task if what it does depends on how that task would be done. An invariant that is
lawful holds wherever a run that starts with it comes to.
-/
namespace ExprScript

namespace Eval

def after {α : Type} (p : Eval α) (m : Machine) : Machine :=
  match p m with
  | .ok _ m => m
  | .error _ m => m

/-- Whether doing a task from a machine depends on how an evaluator, on which it is built, does
another task from another machine. A task that is done might as well have ended the session, and no
construct stops that, so these are exactly the tasks that are done on the way. -/
def Consults (run : Task → Eval Value) (rounds : Nat) (task : Task) (m : Machine) (inner : Task)
    (n : Machine) : Prop :=
  ∃ other : Task → Eval Value,
    (∀ t k, ¬(t = inner ∧ k = n) → run t k = other t k) ∧
      runTask run rounds task m ≠ runTask other rounds task m

/-- The tasks that a run comes to, itself and what is done on the way, with the levels that are left
there and the machines from which they start. -/
inductive Visits : Nat → Task → Machine → Nat → Task → Machine → Prop
  | start (level : Nat) (task : Task) (m : Machine) : Visits level task m level task m
  | inside {level last : Nat} {task inner t : Task} {m n k : Machine}
      (first : Consults (eval level) level task m inner n)
      (rest : Visits level inner n last t k) : Visits (level + 1) task m last t k

end Eval

namespace Simulation

variable {S : Simulation} {region : S.Region} {setting : S.Setting} {α : Type}

/-- Only equal machines and equal ways to be interrupted are alike. -/
structure IsInvariant (S : Simulation) : Prop where
  machine : ∀ {region setting m n}, S.related region setting m n → m = n
  interrupt : ∀ {region setting e f}, S.interrupt region setting e f → e = f

/-- Whether the invariant holds of a machine, wherever it may be. -/
def Admits (S : Simulation) (task : Task) (m : Machine) : Prop :=
  ∃ region setting, S.task region task ∧ S.related region setting m m

theorem IsInvariant.eq_of_outcome [S.Strict] (inv : S.IsInvariant) {G : α → Prop}
    {r s : EStateM.Result Interrupt Machine α} (h : S.Outcome region setting G r s) : r = s := by
  cases h with
  | ok _ hmn => rw [inv.machine hmn]
  | error hef hmn => rw [inv.interrupt hef, inv.machine hmn]
  | lost hforgiving _ => exact absurd hforgiving Strict.strict

/-- What is done on the way starts where the invariant holds. Otherwise it could be done in any
other way, and the run would be the same. -/
theorem admits_of_consults [S.Strict] (law : S.Lawful) (inv : S.IsInvariant) {level : Nat}
    {task inner : Task} {m n : Machine} (hm : S.Admits task m)
    (h : Eval.Consults (Eval.eval level) level task m inner n) : S.Admits inner n := by
  by_contra hout
  obtain ⟨region, setting, htask, hmm⟩ := hm
  obtain ⟨other, hsame, hdiffers⟩ := h
  have hagree : ∀ region setting t, S.task region t →
      ∀ k, S.related region setting k k → Eval.eval level t k = other t k := by
    intro region setting t ht k hk
    refine hsame t k fun hpoint => hout ?_
    obtain ⟨rfl, rfl⟩ := hpoint
    exact ⟨region, setting, ht, hk⟩
  have halike : S.Alike (Eval.eval level) other := by
    intro region setting t ht k k' hk
    obtain rfl := inv.machine hk
    rw [← hagree region setting t ht k hk]
    exact rel_eval law level region setting t ht k k hk
  have hout := rel_runTask law halike (levels_self level) region setting task htask m m hmm
  exact hdiffers (inv.eq_of_outcome hout)

theorem admits_of_visits [S.Strict] (law : S.Lawful) (inv : S.IsInvariant) {level last : Nat}
    {task t : Task} {m k : Machine} (hm : S.Admits task m) (h : Eval.Visits level task m last t k) :
    S.Admits t k := by
  induction h with
  | start => exact hm
  | inside first _ ih => exact ih (admits_of_consults law inv hm first)

def Closes (S : Simulation) (region : S.Region) (setting : S.Setting) (G : α → Prop) :
    EStateM.Result Interrupt Machine α → Prop
  | .ok a m => G a ∧ S.related region setting m m
  | .error e m => S.interrupt region setting e e ∧ S.related region setting m m

theorem ends [S.Strict] (law : S.Lawful) {task : Task} (htask : S.task region task) {m : Machine}
    (hm : S.related region setting m m) (level : Nat) :
    S.Closes region setting S.value (Eval.eval level task m) := by
  have h := rel_eval law level region setting task htask m m hm
  generalize Eval.eval level task m = r at h
  cases h with
  | ok ha hmn => exact ⟨ha, hmn⟩
  | error hef hmn => exact ⟨hef, hmn⟩
  | lost hforgiving _ => exact absurd hforgiving Strict.strict

/-- The machine that a run leaves has the invariant that the run started with. -/
theorem related_after [S.Strict] (law : S.Lawful) {task : Task} (htask : S.task region task)
    {m : Machine} (hm : S.related region setting m m) (level : Nat) :
    S.related region setting (Eval.after (Eval.eval level task) m)
      (Eval.after (Eval.eval level task) m) := by
  have h := ends law htask hm level
  unfold Eval.after
  cases hrun : Eval.eval level task m with
  | ok v n =>
    rw [hrun] at h
    exact h.2
  | error e n =>
    rw [hrun] at h
    exact h.2

end Simulation
end ExprScript
