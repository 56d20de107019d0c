import ExprScript.Value.Fault
import Mathlib.Data.List.Forall2

/-!
# What computations give

A computation that gives a value has gone through all its parts. For computations that may warn,
`Gives` says that whatever a computation gives has a property; nothing is said of its warnings, nor
of a computation that fails. The rules follow the way in which computations are put together.
-/
namespace ExprScript

theorem ok_of_bind {ε α β : Type} {e : Except ε α} {f : α → Except ε β} {b : β}
    (h : e >>= f = .ok b) : ∃ a, e = .ok a ∧ f a = .ok b := by
  cases e with
  | error d => cases h
  | ok a => exact ⟨a, rfl, h⟩

theorem ok_of_map {ε α β : Type} {e : Except ε α} {f : α → β} {b : β} (h : e.map f = .ok b) :
    ∃ a, e = .ok a ∧ f a = b := by
  cases e with
  | error d => cases h
  | ok a =>
    cases h
    exact ⟨a, rfl, rfl⟩

namespace Checked

variable {α β : Type}

def Gives (G : α → Prop) (p : Checked α) : Prop :=
  ∀ before a after, p before = .ok a after → G a

theorem Gives.mono {G H : α → Prop} {p : Checked α} (h : Gives G p) (hGH : ∀ a, G a → H a) :
    Gives H p :=
  fun before a after ha => hGH a (h before a after ha)

theorem Gives.and {G H : α → Prop} {p : Checked α} (hG : Gives G p) (hH : Gives H p) :
    Gives (fun a => G a ∧ H a) p :=
  fun before a after h => ⟨hG before a after h, hH before a after h⟩

theorem Gives.pure {G : α → Prop} {a : α} (ha : G a) : Gives G (Pure.pure a) := by
  intro before b after hb
  cases hb
  exact ha

theorem Gives.throw {G : α → Prop} (d : Diagnostic) : Gives G (throw d : Checked α) := by
  intro before a after ha
  cases ha

theorem Gives.bind {G : α → Prop} {H : β → Prop} {p : Checked α} {f : α → Checked β}
    (hp : Gives G p) (hf : ∀ a, G a → Gives H (f a)) : Gives H (p >>= f) := by
  intro before b after hb
  change EStateM.bind p f before = _ at hb
  unfold EStateM.bind at hb
  split at hb
  · rename_i a between ha
    exact hf a (hp before a between ha) between b after hb
  · cases hb

theorem Gives.warn {H : β → Prop} {f : Unit → Checked β} (code : Code) (span : Span)
    (args : List String) (hf : Gives H (f ())) : Gives H (Checked.warn code span args >>= f) :=
  Gives.bind (G := fun _ => True) (fun _ _ _ _ => trivial) fun _ _ => hf

theorem Gives.ofExcept {G : α → Prop} {e : Except Diagnostic α} (h : ∀ a, e = .ok a → G a) :
    Gives G (MonadExcept.ofExcept e : Checked α) := by
  cases e with
  | error d => exact Gives.throw d
  | ok a => exact Gives.pure (h a rfl)

/-- A computation for each of some values, whose results match the values. -/
theorem Gives.mapM {G : α → β → Prop} {f : α → Checked β} {as : List α}
    (h : ∀ a ∈ as, Gives (G a) (f a)) : Gives (List.Forall₂ G as) (as.mapM f) := by
  induction as with
  | nil => exact Gives.pure .nil
  | cons a as ih =>
    rw [List.mapM_cons]
    refine Gives.bind (h a (by simp)) fun b hb => ?_
    refine Gives.bind (ih fun a ha => h a (by simp [ha])) fun bs hbs => ?_
    exact Gives.pure (.cons hb hbs)

end Checked
end ExprScript
