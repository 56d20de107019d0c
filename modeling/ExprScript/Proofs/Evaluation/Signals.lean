import ExprScript.Proofs.Evaluation.Parts
import ExprScript.Proofs.Evaluation.Soundness
import ExprScript.Proofs.Parser.Formed

/-!
# Signals stay inside calls

Code that is formed, with no loops around the defaults of parameters, sends signals only to loops
that are around it while it runs. Parsed code is of this kind unless a default lets a signal out.
-/
namespace ExprScript

/-- Nodes run where they are formed for the loops around them, and signals are to these loops. -/
def Discipline.looped : Discipline where
  Region := Script × Loops
  insideLoop label region := (region.1, label :: region.2)
  ofFunction f := (f.script, [])
  ofScript script := (script, [])
  scriptOf region := region.1
  node region id := Formed region.1.arena (fun _ => []) region.2 id
  signal region label := region.2.Has label
  misses := True
  strays := True

instance : Discipline.looped.Lax := ⟨trivial⟩

instance : Discipline.looped.Anywhere := ⟨fun _ _ => trivial⟩

namespace Discipline

variable {script : Script} {loops : Loops}

theorem looped_parts {expr : Expr} (h : expr.Formed script.arena (fun _ => []) loops) :
    looped.parts (script, loops) expr := by
  obtain ⟨hsignal, parts, hparts, hall⟩ := h
  have hargs : ∀ arg ∈ script.arena.args, looped.points (script, loops) arg.span :=
    fun _ _ => .inl trivial
  refine parts_of hparts (fun part hpart => ?_) hsignal hargs
  have hformed := hall part hpart
  obtain ⟨standing, id⟩ := part
  cases standing with
  | beside => exact hformed
  | inLoop label => exact hformed
  | inFunction | asDefault =>
    intro f hscript
    have hcode : looped.ofFunction f = (script, []) := Prod.ext hscript rfl
    rw [hcode]
    exact hformed

theorem not_has_nil (signal : Option Name) : ¬Loops.Has [] signal := fun h => h.1 rfl

theorem looped_lawful : looped.Lawful where
  ofFunction _ := rfl
  ofScript _ := rfl
  insideLoop _ _ := rfl
  found _ _ := trivial
  node hid hnode := ⟨looped_parts (hid.expr hnode), .inl trivial⟩
  passLoop := by
    intro region label signal hsignal haims
    cases signal with
    | none => cases haims
    | some name => exact Loops.has_of_has_cons hsignal fun h => by simp [Eval.aimsAt, h] at haims
  passFunction hsignal := absurd hsignal (not_has_nil _)

theorem looped_script {source : SourceFile} {tokens : List Token} {m n : Machine} {script : Script}
    (hread : Eval.readScript source tokens m = .ok script n)
    (hkeep : script.arena.DefaultsKeepSignals) : looped.script script := by
  unfold Eval.readScript at hread
  cases hparse : parse tokens m.names with
  | error why =>
    rw [hparse] at hread
    cases hread
  | ok parsed =>
    rw [hparse] at hread
    dsimp only at hread
    split at hread
    · cases hread
    · cases hread
      exact (parse_formed hparse).keep hkeep fun signal hsends =>
        (parse_formed hparse).has_of_sends hsends

end Discipline

def Machine.atTop (m : Machine) (script : Script) : Machine :=
  { m with context := { m.context with scope := .root, script, functions := 0 } }

def Eval.EndsInSignal (p : Eval Value) (m : Machine) : Prop :=
  ∃ label n, p m = .error (.broke label) n ∨ p m = .error (.continued label) n

namespace Simulation

variable {max : Option Nat} {level : Nat} {script : Script} {m : Machine}

theorem keeps_signals {G : Value → Prop} {p : Eval Value} {here : Context}
    (h : (sound .looped max).Rel (script, []) here G p p)
    (hm : m.Stands .looped max (script, []) here) : ¬Eval.EndsInSignal p m := by
  have hends := sound_rel.mp h m hm
  rintro ⟨label, n, hrun | hrun⟩
  · rw [hrun] at hends
    cases hends with
    | error hsignal _ => exact Discipline.not_has_nil label hsignal
  · rw [hrun] at hends
    cases hends with
    | error hsignal _ => exact Discipline.not_has_nil label hsignal

theorem body_keeps_signals {f : Function} {values : List (Option Value)}
    (h : (sound .looped max).Admits (.body f values) m) :
    ¬Eval.EndsInSignal (Eval.eval level (.body f values)) m := by
  obtain ⟨⟨script, loops⟩, here, htask, -, hm⟩ := h
  -- What a call does is the same in all regions of a script, so it may be made outside of loops.
  have hcall : (sound .looped max).task (script, []) (.body f values) := htask
  exact keeps_signals (rel_eval (sound_lawful Discipline.looped_lawful) level _ here _ hcall)
    ⟨hm.context, hm.script, hm.calls, hm.scopes, hm.files, hm.notices⟩

theorem program_keeps_signals (h : (sound .looped max).Admits (.program script) m) :
    ¬Eval.EndsInSignal (Eval.runInPlace (fun id => Eval.eval level (.node id)) script.root)
      (m.atTop script) := by
  obtain ⟨region, _, htask, -, hm⟩ := h
  obtain rfl := hm.context
  have hlawful : (sound .looped max).Lawful := sound_lawful Discipline.looped_lawful
  have hstands : (m.atTop script).Stands .looped max (script, []) (m.atTop script).context :=
    ⟨rfl, rfl, hm.calls, hm.scopes, hm.files, hm.notices⟩
  exact keeps_signals (hlawful.runInPlace ((rel_eval hlawful level).nodes (script, [])) htask)
    hstands

end Simulation
end ExprScript
