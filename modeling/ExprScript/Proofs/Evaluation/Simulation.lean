import ExprScript.Proofs.Evaluation.Discipline

/-!
# Runs in step

A simulation says when two machines are alike and when two ways to end are. It is lawful if every
step that evaluation is made of takes like machines to like machines. Two evaluators that do all
tasks alike then do every construct alike, which is proved once for all simulations. With one
machine on both sides a simulation is an invariant.

What holds may depend on the region of the code that runs, and on what surrounds the run, the
setting.
-/
namespace ExprScript

theorem Eval.bind_apply {α β : Type} (p : Eval α) (f : α → Eval β) (m : Machine) :
    (p >>= f) m =
      match p m with
      | .ok a m => f a m
      | .error e m => .error e m := by
  change EStateM.bind p f m = _
  unfold EStateM.bind
  cases p m <;> rfl

namespace Eval

/-- What a new function remembers of where evaluation stands. -/
def place : Eval (ScopeId × Script) := do
  let here ← here
  return (here.scope, here.script)

inductive Lost {α : Type} : EStateM.Result Interrupt Machine α → Prop
  | outOfLevels (m : Machine) : Lost (.error (.givenUp .outOfLevels) m)

theorem Lost.bind {α β : Type} {p : Eval α} {f : α → Eval β} {m : Machine} (h : Lost (p m)) :
    Lost ((p >>= f) m) := by
  rw [bind_apply]
  generalize p m = r at h ⊢
  cases h
  exact .outOfLevels _

/-- Both results are one value, which has a property, or interruptions that are alike, and the
machines are alike. Nothing may be said of the second run where the first is out of levels. -/
inductive InStep {α : Type} (forgiving : Prop) (G : α → Prop) (J : Interrupt → Interrupt → Prop)
    (K : Machine → Machine → Prop) :
    EStateM.Result Interrupt Machine α → EStateM.Result Interrupt Machine α → Prop
  | ok {a : α} {m n : Machine} (hvalue : G a) (hmachine : K m n) :
      InStep forgiving G J K (.ok a m) (.ok a n)
  | error {e f : Interrupt} {m n : Machine} (hinterrupt : J e f) (hmachine : K m n) :
      InStep forgiving G J K (.error e m) (.error f n)
  | lost {r s : EStateM.Result Interrupt Machine α} (hforgiving : forgiving)
      (hlost : Lost r) : InStep forgiving G J K r s

section
variable {α β : Type} {forgiving : Prop} {G : α → Prop} {H : β → Prop}
  {J J' : Interrupt → Interrupt → Prop} {K K' : Machine → Machine → Prop}

theorem InStep.mono {G' : α → Prop} {r s : EStateM.Result Interrupt Machine α}
    (h : InStep forgiving G J K r s) (hG : ∀ a, G a → G' a) (hJ : ∀ e f, J e f → J' e f)
    (hK : ∀ m n, K m n → K' m n) : InStep forgiving G' J' K' r s := by
  cases h with
  | ok ha hmn => exact .ok (hG _ ha) (hK _ _ hmn)
  | error hef hmn => exact .error (hJ _ _ hef) (hK _ _ hmn)
  | lost hforgiving hlost => exact .lost hforgiving hlost

theorem InStep.bind {p q : Eval α} {f g : α → Eval β} {m n : Machine}
    (h : InStep forgiving G J K (p m) (q n))
    (hok : ∀ a m n, G a → K m n → InStep forgiving H J' K' (f a m) (g a n))
    (herror : ∀ e f, J e f → J' e f) (hK : ∀ m n, K m n → K' m n) :
    InStep forgiving H J' K' ((p >>= f) m) ((q >>= g) n) := by
  generalize hm : p m = r at h
  generalize hn : q n = s at h
  cases h with
  | ok ha hmn =>
    rw [bind_apply, bind_apply, hm, hn]
    exact hok _ _ _ ha hmn
  | error hef hmn =>
    rw [bind_apply, bind_apply, hm, hn]
    exact .error (herror _ _ hef) (hK _ _ hmn)
  | lost hforgiving hlost =>
    subst hm hn
    exact .lost hforgiving hlost.bind

end

end Eval

structure Simulation extends Discipline where
  Setting : Type
  inScope : ScopeId → Setting → Setting
  inCall : TraceFrame → Setting → Setting
  inFunction : Function → Setting → Setting
  inProgram : Script → Setting → Setting
  /-- Whether two machines are alike. -/
  related : Region → Setting → Machine → Machine → Prop
  /-- Whether two ways to be interrupted are alike. -/
  interrupt : Region → Setting → Interrupt → Interrupt → Prop
  /-- Whether code may be inside of a function, and return from it. -/
  returns : Region → Setting → Prop := fun _ _ => True
  /-- Whether the first run may have fewer levels than the second, and then run out of them. -/
  forgiving : Prop := False

namespace Simulation

/-- A simulation that says something of all runs. -/
class Strict (S : Simulation) : Prop where
  strict : ¬S.forgiving

variable (S : Simulation) {α β : Type}

/-! ## Alike results and alike runs -/

abbrev Outcome (region : S.Region) (setting : S.Setting) (G : α → Prop) :
    EStateM.Result Interrupt Machine α → EStateM.Result Interrupt Machine α → Prop :=
  Eval.InStep S.forgiving G (S.interrupt region setting) (S.related region setting)

/-- From like machines the two runs end alike, and a value that they give has the property. -/
def Rel (region : S.Region) (setting : S.Setting) (G : α → Prop) (p q : Eval α) : Prop :=
  ∀ m n, S.related region setting m n → S.Outcome region setting G (p m) (q n)

/-- Whether code itself may be interrupted in this way, rather than code that it runs elsewhere. -/
def raises (region : S.Region) (setting : S.Setting) : Interrupt → Prop
  | .fatal d => d.RaisedAt (S.points region)
  | .returned value => S.value value ∧ S.returns region setting
  | e => S.allowed region e

structure LawfulReads : Prop where
  discipline : S.toDiscipline.Lawful
  interrupt : ∀ {region setting e}, S.raises region setting e → S.interrupt region setting e e
  script : ∀ {region setting m n}, S.related region setting m n →
    m.context.script = S.scriptOf region ∧ n.context.script = S.scriptOf region
  text : ∀ {region setting} (name),
    S.Rel region setting (fun _ => True) (Eval.text name) (Eval.text name)
  lookup : ∀ {region setting} (name),
    S.Rel region setting (fun entry => ∀ e ∈ entry, S.value e.value)
      (Eval.entry? name) (Eval.entry? name)
  outsideFunctions : ∀ {region setting},
    S.Rel region setting (fun outside => outside = false → S.returns region setting)
      Eval.outsideFunctions Eval.outsideFunctions
  checked : ∀ {region setting} {α : Type} {G : α → Prop} {p : Checked α}, p.Gives G →
    p.Reports (S.points region) →
    S.Rel region setting G (Eval.checked p) (Eval.checked p)

/-- What every step of evaluation must keep, the runs of functions and scripts apart. -/
structure LawfulConstructs : Prop extends S.LawfulReads where
  declare : ∀ {region setting v} (name), v.WellTyped → S.value v.value →
    S.Rel region setting (fun _ => True) (Eval.declare name v) (Eval.declare name v)
  assign : ∀ {region setting operand span} (name op), S.value operand.value →
    S.points region operand.span → S.points region span →
    S.Rel region setting S.value (Eval.assign name op operand span)
      (Eval.assign name op operand span)
  freshId : ∀ {region setting},
    S.Rel region setting (fun _ => True) Eval.freshId Eval.freshId
  place : ∀ {region setting},
    S.Rel region setting (fun place => S.stands region place.1 ∧ place.2 = S.scriptOf region)
      Eval.place Eval.place
  onConsole : ∀ {region setting} (f),
    S.Rel region setting (fun _ => True) (Eval.onConsole f) (Eval.onConsole f)
  readLine : ∀ {region setting},
    S.Rel region setting (fun _ => True) Eval.readLine Eval.readLine
  loadScript : ∀ {region setting span} (path), S.points region span →
    S.Rel region setting S.script (Eval.loadScript path span) (Eval.loadScript path span)
  inNewScope : ∀ {region setting p q},
    (∀ scope, S.Rel region (S.inScope scope setting) S.value p q) →
    S.Rel region setting S.value (Eval.inNewScope p) (Eval.inNewScope q)
  duringCall : ∀ {region setting p q frame}, S.points region frame.callSpan →
    S.Rel region (S.inCall frame setting) S.value p q →
    S.Rel region setting S.value (Eval.duringCall frame p) (Eval.duringCall frame q)
  runBody : ∀ {region setting p q} (label),
    S.Rel (S.insideLoop label region) setting S.value p q →
    S.Rel region setting (fun _ => True) (Eval.runBody label p) (Eval.runBody label q)

/-- What every step of evaluation must keep, the runs of scripts apart. -/
structure LawfulSteps : Prop extends S.LawfulConstructs where
  inFunction : ∀ {region setting f p q}, S.function f →
    (∀ scope, S.Rel (S.ofFunction f) (S.inScope scope (S.inFunction f setting)) S.value p q) →
    S.Rel region setting S.value (Eval.inFunction f p) (Eval.inFunction f q)

structure Lawful : Prop extends S.LawfulSteps where
  inProgram : ∀ {region setting script p q}, S.script script →
    S.Rel (S.ofScript script) (S.inProgram script setting) S.value p q →
    S.Rel region setting S.value (Eval.inProgram script p) (Eval.inProgram script q)

variable {S} {region : S.Region} {setting : S.Setting}

theorem allowed_of_raises {e : Interrupt} (he : S.raises region setting e) :
    S.allowed region e := by
  cases e with
  | fatal d => exact S.allowed_of_raised he
  | returned value => exact he.1
  | _ => exact he

/-! ## Rules for runs that are put together -/

theorem Rel.pure {G : α → Prop} {a : α} (ha : G a) :
    S.Rel region setting G (Pure.pure a) (Pure.pure a) :=
  fun _ _ hmn => .ok ha hmn

theorem Rel.bind {G : α → Prop} {H : β → Prop} {p q : Eval α} {f g : α → Eval β}
    (hp : S.Rel region setting G p q)
    (hf : ∀ a, G a → S.Rel region setting H (f a) (g a)) :
    S.Rel region setting H (p >>= f) (q >>= g) :=
  fun m n hmn => (hp m n hmn).bind (fun a m n ha hmn => hf a ha m n hmn) (fun _ _ hef => hef)
    fun _ _ hmn => hmn

theorem Rel.mono {G H : α → Prop} {p q : Eval α} (h : S.Rel region setting G p q)
    (hGH : ∀ a, G a → H a) : S.Rel region setting H p q := by
  have hbind := h.bind (f := Pure.pure) (g := Pure.pure) fun a ha => Rel.pure (hGH a ha)
  simpa using hbind

theorem Rel.mapM {G : α → β → Prop} {f g : α → Eval β} {items : List α}
    (h : ∀ item ∈ items, S.Rel region setting (G item) (f item) (g item)) :
    S.Rel region setting (List.Forall₂ G items) (items.mapM f) (items.mapM g) := by
  induction items with
  | nil => exact .pure .nil
  | cons item items ih =>
    rw [List.mapM_cons, List.mapM_cons]
    refine (h item (by simp)).bind fun b hb => ?_
    refine (ih fun i hi => h i (by simp [hi])).bind fun bs hbs => ?_
    exact .pure (.cons hb hbs)

theorem Rel.mapM_all {G : β → Prop} {f g : α → Eval β} {items : List α}
    (h : ∀ item ∈ items, S.Rel region setting G (f item) (g item)) :
    S.Rel region setting (fun bs => ∀ b ∈ bs, G b) (items.mapM f) (items.mapM g) := by
  refine (Rel.mapM (G := fun _ b => G b) h).mono fun bs hbs b hb => ?_
  clear h
  induction hbs with
  | nil => simp at hb
  | cons hfirst _ ih =>
    rcases List.mem_cons.mp hb with rfl | hb
    · exact hfirst
    · exact ih hb

theorem Rel.mapOption {G : β → Prop} {f g : α → Eval β} (a : Option α)
    (h : ∀ x, S.Rel region setting G (f x) (g x)) :
    S.Rel region setting (fun b => ∀ x ∈ b, G x) (a.mapM f) (a.mapM g) := by
  cases a with
  | none => exact .pure (by simp)
  | some x =>
    exact ((h x).bind (f := fun b => Pure.pure (some b)) (g := fun b => Pure.pure (some b))
      fun b hb => .pure (by simpa using hb))

/-! ## Levels -/

variable (S) in
/-- Whether the first run may have so many levels or rounds and the second so many. -/
def levels (level level' : Nat) : Prop := level = level' ∨ S.forgiving ∧ level ≤ level'

theorem levels_self (level : Nat) : S.levels level level := .inl rfl

/-- One level after another is used up, by both runs. -/
theorem byLevels {P : ∀ level level', S.levels level level' → Prop} (zero : ∀ h, P 0 0 h)
    (fewer : S.forgiving → ∀ level h, P 0 level h)
    (more : ∀ level level' h h', P level level' h → P (level + 1) (level' + 1) h') :
    ∀ level level' h, P level level' h := by
  intro level
  induction level with
  | zero =>
    intro level' h
    cases h with
    | inl hsame =>
      subst hsame
      exact zero _
    | inr hfewer => exact fewer hfewer.1 level' _
  | succ level ih =>
    intro level' h
    cases level' with
    | zero =>
      rcases h with hsame | hfewer
      · exact absurd hsame (Nat.succ_ne_zero level)
      · exact absurd hfewer.2 (Nat.not_succ_le_zero level)
    | succ level' =>
      have hlevels : S.levels level level' :=
        h.imp Nat.succ.inj (And.imp_right Nat.le_of_succ_le_succ)
      exact more level level' hlevels h (ih level' _)

theorem Rel.lost_left {G : α → Prop} (h : S.forgiving) (q : Eval α) :
    S.Rel region setting G (Eval.giveUp .outOfLevels) q :=
  fun m _ _ => .lost h (.outOfLevels m)

end Simulation
end ExprScript
