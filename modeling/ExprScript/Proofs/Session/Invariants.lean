import ExprScript.Proofs.Session.Soundness

/-!
# What no session loses

Between inputs a session is in no scope, script or call, and whatever is evaluated ends where it
began. Variables keep values of their types.
-/
namespace ExprScript.Session

/-- Between inputs no call is in progress, no function runs and the scope is the outermost one. What
the run of an input evaluates ends in the context in which it began, however it ends, and begins
with no more calls in progress than are allowed. -/
theorem context_kept (config : SessionConfig) (host : Host) (events : List Event) :
    let session := (new config host).afterAll events
    (session.machine.context.calls.frames = [] ∧ session.machine.context.functions = 0 ∧
      session.machine.context.scope = .root) ∧
    ∀ input level task m, session.Visits input level task m →
      (Eval.after (Eval.eval level task) m).context = m.context ∧
        ∀ bound, config.maxCalls = some bound → m.context.calls.frames.length ≤ bound := by
  intro session
  have hsound : session.Sound .any config host := sound_any config host events
  constructor
  · rw [hsound.context]
    exact ⟨rfl, rfl, rfl⟩
  · intro input level task m hvisits
    obtain ⟨region, here, htask, -, hm⟩ :=
      hsound.admits_of_visits Discipline.any_lawful (fun _ _ _ => trivial) hvisits
    have hafter := Simulation.related_after (Simulation.sound_lawful Discipline.any_lawful) htask
      ⟨rfl, hm⟩ level
    refine ⟨by rw [hafter.2.context, hm.context], fun bound hbound => ?_⟩
    rw [hm.context]
    exact hm.calls.frames bound hbound

/-- Variables hold values of their types, between inputs and wherever the run of an input begins or
ends to evaluate anything. -/
theorem variables_typed (config : SessionConfig) (host : Host) (events : List Event) :
    let session := (new config host).afterAll events
    session.machine.scopes.Typed ∧
    ∀ input level task m, session.Visits input level task m →
      m.scopes.Typed ∧ (Eval.after (Eval.eval level task) m).scopes.Typed := by
  intro session
  have hsound : session.Sound .any config host := sound_any config host events
  refine ⟨hsound.scopes.typed, fun input level task m hvisits => ?_⟩
  obtain ⟨region, here, htask, -, hm⟩ :=
    hsound.admits_of_visits Discipline.any_lawful (fun _ _ _ => trivial) hvisits
  have hafter := Simulation.related_after (Simulation.sound_lawful Discipline.any_lawful) htask
    ⟨rfl, hm⟩ level
  exact ⟨hm.scopes.typed, hafter.2.scopes.typed⟩

end ExprScript.Session
