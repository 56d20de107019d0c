import ExprScript.Proofs.Evaluation.Endings
import ExprScript.Proofs.Rooted

/-!
# Runs among rooted scopes

A run only adds scopes. Where it starts among rooted scopes it ends among rooted scopes, and the
functions that it gives were made in scopes that are there in the end. What is known of a value goes
on holding while there come to be more scopes, so a statement about a run names the scopes that must
be there at the start, and its result is told by the number of scopes at the end.

The statements are about two runs side by side. So they also tell which tasks a run comes to.
-/
namespace ExprScript

structure Machine.Rooted (m : Machine) : Prop where
  scopes : m.scopes.Rooted
  stands : m.context.scope.index < m.scopes.cells.size

/-- Whether a machine stands where another one stood, among more scopes. -/
structure Machine.Grown (m n : Machine) : Prop where
  rooted : n.Rooted
  scope : n.context.scope = m.context.scope
  scopes : m.scopes.Extends n.scopes

/-- Whether what a `return` gives was made among the first so many scopes. -/
def Interrupt.MadeBefore (size : Nat) (e : Interrupt) : Prop :=
  ∀ v, e = .returned v → v.MadeBefore size

namespace Machine

variable {m n k : Machine}

theorem Grown.refl (hm : m.Rooted) : m.Grown m := ⟨hm, rfl, .refl _⟩

theorem Grown.trans (h : m.Grown n) (h' : n.Grown k) : m.Grown k :=
  ⟨h'.rooted, h'.scope.trans h.scope, h.scopes.trans h'.scopes⟩

theorem Grown.leave (h : n.Grown k) (hm : m.Rooted) (henter : m.scopes.Extends n.scopes)
    {here : Context} (hhere : here.scope = m.context.scope) :
    m.Grown { k with context := here } where
  rooted := by
    have hsize := Nat.le_trans henter.size_le h.scopes.size_le
    refine ⟨h.rooted.scopes, ?_⟩
    rw [hhere]
    exact Nat.lt_of_lt_of_le hm.stands hsize
  scope := hhere
  scopes := henter.trans h.scopes

theorem Rooted.noteAll (hm : m.Rooted) (file : SourceFile) (ds : List Diagnostic) :
    m.Grown (m.noteAll file ds) := by
  rw [noteAll_eq]
  exact ⟨⟨hm.scopes, hm.stands⟩, rfl, .refl _⟩

end Machine

namespace Eval

variable {α β : Type} {m n : Machine} {w size : Nat}

/-- Both results are one. The machine has grown, and a value has a property that depends on how many
scopes there are. -/
inductive Ends (m : Machine) (G : Nat → α → Prop) :
    EStateM.Result Interrupt Machine α → EStateM.Result Interrupt Machine α → Prop
  | ok {a : α} {n : Machine} (hvalue : G n.scopes.cells.size a) (hgrown : m.Grown n) :
      Ends m G (.ok a n) (.ok a n)
  | error {e : Interrupt} {n : Machine} (hinterrupt : e.MadeBefore n.scopes.cells.size)
      (hgrown : m.Grown n) : Ends m G (.error e n) (.error e n)

/-- Two runs from one machine, with rooted scopes that are so many at least, end alike. -/
def Grows (w : Nat) (G : Nat → α → Prop) (p q : Eval α) : Prop :=
  ∀ m : Machine, m.Rooted → w ≤ m.scopes.cells.size → Ends m G (p m) (q m)

variable {G : Nat → α → Prop} {H : Nat → β → Prop} {p q : Eval α}
  {r s : EStateM.Result Interrupt Machine α}

/-! ## Rules for runs that are put together -/

namespace Ends

theorem eq (h : Ends m G r s) : r = s := by cases h <;> rfl

theorem same {a : α} (ha : G m.scopes.cells.size a) (hm : m.Rooted) :
    Ends m G (.ok a m) (.ok a m) :=
  .ok ha (.refl hm)

theorem fails {e : Interrupt} (he : ∀ v, e ≠ .returned v) (h : m.Grown n) :
    Ends m G (.error e n) (.error e n) :=
  .error (fun v hv => absurd hv (he v)) h

theorem from_grown (hmn : m.Grown n) (h : Ends n G r s) : Ends m G r s := by
  cases h with
  | ok ha hgrown => exact .ok ha (hmn.trans hgrown)
  | error he hgrown => exact .error he (hmn.trans hgrown)

theorem endAlike (h : Ends m G r s) :
    ∃ size, EndAlike (G size) (Interrupt.MadeBefore size)
      (fun n k => k = n ∧ n.scopes.cells.size = size ∧ m.Grown n) r s := by
  cases h with
  | ok ha hgrown => exact ⟨_, .ok ha ⟨rfl, rfl, hgrown⟩⟩
  | error he hgrown => exact ⟨_, .error he ⟨rfl, rfl, hgrown⟩⟩

theorem of_endAlike (h : EndAlike (G size) (Interrupt.MadeBefore size)
      (fun n k => k = n ∧ n.scopes.cells.size = size ∧ m.Grown n) r s) : Ends m G r s := by
  cases h with
  | ok ha hmn =>
    obtain ⟨rfl, rfl, hgrown⟩ := hmn
    exact .ok ha hgrown
  | error he hmn =>
    obtain ⟨rfl, rfl, hgrown⟩ := hmn
    exact .error he hgrown

end Ends

theorem Grows.pure {a : α} (ha : ∀ size, w ≤ size → G size a) :
    Grows w G (Pure.pure a) (Pure.pure a) :=
  fun _ hm hw => .same (ha _ hw) hm

theorem Grows.bind {f g : α → Eval β} (hp : Grows w G p q)
    (hf : ∀ later, w ≤ later → ∀ a, G later a → Grows later H (f a) (g a)) :
    Grows w H (p >>= f) (q >>= g) := by
  intro m hm hw
  have h := hp m hm hw
  rw [bind_apply, bind_apply]
  generalize p m = r at h ⊢
  generalize q m = s at h ⊢
  cases h with
  | @ok a n ha hgrown =>
    have hlater := Nat.le_trans hw hgrown.scopes.size_le
    exact (hf _ hlater a ha n hgrown.rooted (Nat.le_refl _)).from_grown hgrown
  | error he hgrown => exact .error he hgrown

theorem Grows.mono {H : Nat → α → Prop} (h : Grows w G p q)
    (hGH : ∀ size a, w ≤ size → G size a → H size a) : Grows w H p q := by
  intro m hm hw
  have hends := h m hm hw
  generalize p m = r at hends ⊢
  generalize q m = s at hends ⊢
  cases hends with
  | ok ha hgrown => exact .ok (hGH _ _ (Nat.le_trans hw hgrown.scopes.size_le) ha) hgrown
  | error he hgrown => exact .error he hgrown

theorem Grows.mapM {γ : Type} {G : Nat → β → Prop}
    (hG : ∀ {size more b}, G size b → size ≤ more → G more b) {f g : γ → Eval β} {items : List γ}
    (h : ∀ later, w ≤ later → ∀ item ∈ items, Grows later G (f item) (g item)) :
    Grows w (fun size bs => ∀ b ∈ bs, G size b) (items.mapM f) (items.mapM g) := by
  induction items generalizing w with
  | nil => exact .pure fun _ _ b hb => by cases hb
  | cons item items ih =>
    rw [List.mapM_cons, List.mapM_cons]
    refine (h w (Nat.le_refl w) item (by simp)).bind fun size hsize b hb => ?_
    have hrest := ih fun later hlater i hi =>
      h later (Nat.le_trans hsize hlater) i (List.mem_cons_of_mem _ hi)
    refine hrest.bind fun more hmore bs hbs => .pure fun last hlast => ?_
    refine List.forall_mem_cons.mpr ⟨hG hb (Nat.le_trans hmore hlast), fun b hb => ?_⟩
    exact hG (hbs b hb) hlast

/-! ## Steps that leave the scopes -/

theorem grows_throw {e : Interrupt} (he : ∀ v, e ≠ .returned v) :
    Grows w G (throw e) (throw e) :=
  fun _ hm _ => .fails he (.refl hm)

theorem grows_return {v : Value} (hv : v.MadeBefore w) :
    Grows w G (throw (.returned v)) (throw (.returned v)) :=
  fun _ hm hw => .error (fun _ hv' => by cases hv'; exact hv.mono hw) (.refl hm)

theorem grows_fault (d : Diagnostic) : Grows w G (fault d) (fault d) :=
  grows_throw fun _ h => by cases h

theorem grows_giveUp (why : GivenUp) : Grows w G (giveUp why) (giveUp why) :=
  grows_throw fun _ h => by cases h

theorem grows_ofExcept {e : Except Diagnostic α}
    (he : ∀ a, e = .ok a → ∀ size, w ≤ size → G size a) :
    Grows w G (ofExcept e) (ofExcept e) := by
  cases e with
  | error d => exact grows_fault d
  | ok a => exact .pure (he a rfl)

theorem grows_checked {p : Checked α} {G : α → Prop} (hp : p.Gives G) :
    Grows w (fun _ => G) (checked p) (checked p) := by
  intro m hm _
  unfold checked
  cases hrun : p #[] with
  | ok a warnings =>
    dsimp only
    split
    · exact .same (hp _ _ _ hrun) hm
    · exact .ok (hp _ _ _ hrun) (hm.noteAll _ _)
  | error d warnings => exact .fails (fun _ h => by cases h) (hm.noteAll _ _)

/-- A computation on values whose result holds functions of its operands alone. -/
theorem grows_checkedValue {p : Checked Value} (hp : p.Gives (·.MadeBefore w)) :
    Grows w Value.MadeBefore (checked p) (checked p) :=
  (grows_checked hp).mono fun _ _ hsize hv => hv.mono hsize

theorem grows_checkedAny (p : Checked α) : Grows w (fun _ _ => True) (checked p) (checked p) :=
  grows_checked fun _ _ _ _ => trivial

theorem grows_warn (code : Code) (span : Span) (args : List String) :
    Grows w (fun _ _ => True) (warn code span args) (warn code span args) :=
  fun _ hm _ => .ok trivial (hm.noteAll _ [_])

theorem grows_node (id : NodeId) : Grows w (fun _ _ => True) (node id) (node id) := by
  intro m hm _
  unfold node
  split
  · exact .same trivial hm
  · exact .fails (fun _ h => by cases h) (.refl hm)

theorem grows_spanOf (id : NodeId) : Grows w (fun _ _ => True) (spanOf id) (spanOf id) :=
  (grows_node id).bind fun _ _ _ _ => .pure fun _ _ => trivial

theorem grows_entries (run : Run α) (table : Arena → Array α) :
    Grows w (fun _ _ => True) (entries run table) (entries run table) := by
  intro m hm _
  unfold entries
  split
  · exact .same trivial hm
  · exact .fails (fun _ h => by cases h) (.refl hm)

theorem grows_text (name : Name) : Grows w (fun _ _ => True) (text name) (text name) :=
  fun _ hm _ => .same trivial hm

theorem grows_optionalText (name : Option Name) :
    Grows w (fun _ _ => True) (name.mapM text) (name.mapM text) := by
  cases name with
  | none => exact .pure fun _ _ => trivial
  | some name =>
    exact (grows_text name).bind (f := fun text => pure (some text))
      (g := fun text => pure (some text)) fun _ _ _ _ => .pure fun _ _ => trivial

theorem grows_here :
    Grows w (fun size context => context.scope.index < size) here here :=
  fun _ hm _ => .same hm.stands hm

theorem grows_outsideFunctions :
    Grows w (fun _ _ => True) outsideFunctions outsideFunctions :=
  fun _ hm _ => .same trivial hm

theorem grows_freshId : Grows w (fun _ _ => True) freshId freshId :=
  fun _ hm _ => .ok trivial ⟨⟨hm.scopes, hm.stands⟩, rfl, .refl _⟩

theorem grows_onConsole (f : Console → Console) :
    Grows w (fun _ _ => True) (onConsole f) (onConsole f) :=
  fun _ hm _ => .ok trivial ⟨⟨hm.scopes, hm.stands⟩, rfl, .refl _⟩

theorem grows_readLine : Grows w (fun _ _ => True) readLine readLine := by
  intro m hm _
  unfold readLine
  split
  · exact .ok trivial ⟨⟨hm.scopes, hm.stands⟩, rfl, .refl _⟩
  · exact .fails (fun _ h => by cases h) (.refl hm)

theorem grows_readFile (path : String) (span : Span) :
    Grows w (fun _ _ => True) (readFile path span) (readFile path span) := by
  intro m hm _
  unfold readFile
  split
  · exact .same trivial hm
  · exact .fails (fun _ h => by cases h) (.refl hm)
  · exact .fails (fun _ h => by cases h) (.refl hm)

theorem grows_readTokens (file : SourceFile) (start : Position) :
    Grows w (fun _ _ => True) (readTokens file start) (readTokens file start) := by
  intro m hm _
  have hlexed : ∀ names ds logging, m.Grown (m.lexed file names ds logging) := by
    intro names ds logging
    unfold Machine.lexed
    rw [Machine.noteAll_eq]
    exact ⟨⟨hm.scopes, hm.stands⟩, rfl, .refl _⟩
  rw [readTokens_eq]
  split
  · exact .fails (fun _ h => by cases h) (hlexed _ _ _)
  · exact .ok trivial (hlexed _ _ _)

theorem grows_readScript (file : SourceFile) (tokens : List Token) :
    Grows w (fun _ _ => True) (readScript file tokens) (readScript file tokens) := by
  intro m hm _
  unfold readScript
  split
  · exact .fails (fun _ h => by cases h) (.refl hm)
  · dsimp only
    split
    · exact .fails (fun _ h => by cases h) (hm.noteAll _ _)
    · exact .ok trivial (hm.noteAll _ _)

theorem grows_loadScript (path : String) (span : Span) :
    Grows w (fun _ _ => True) (loadScript path span) (loadScript path span) := by
  refine (grows_readFile path span).bind fun _ _ text _ => ?_
  exact (grows_readTokens _ _).bind fun _ _ tokens _ => grows_readScript _ tokens

/-! ## Names -/

theorem grows_lookup (name : Name) :
    Grows w (fun size entry => ∀ e ∈ entry, e.value.MadeBefore size) (Eval.entry? name)
      (Eval.entry? name) :=
  fun _ hm _ => .same (fun _ he => hm.scopes.madeBefore_of_entry? hm.stands he) hm

theorem grows_declaredType (name : Name) :
    Grows w (fun _ _ => True) (declaredType name) (declaredType name) :=
  fun _ hm _ => .same trivial hm

theorem grows_declare (name : Name) {v : Variable} (hv : v.value.MadeBefore w) :
    Grows w (fun _ _ => True) (declare name v) (declare name v) := by
  intro m hm hw
  have hextends := Scopes.extends_setVariable m.scopes m.context.scope name v
  have hstands := Nat.lt_of_lt_of_le hm.stands hextends.size_le
  exact .ok trivial ⟨⟨hm.scopes.setVariable (hv.mono hw) _ name, hstands⟩, rfl, hextends⟩

theorem grows_store (name : Name) {value : Value} (hvalue : value.MadeBefore w) (span : Span) :
    Grows w Value.MadeBefore (store name value span) (store name value span) := by
  intro m hm hw
  unfold store
  cases htarget : m.scopes.target m.context.scope name with
  | ok found =>
    obtain ⟨owner, v⟩ := found
    have hextends := Scopes.extends_setVariable m.scopes owner name { v with value }
    have hscopes := hm.scopes.setVariable (v := { v with value }) (hvalue.mono hw) owner name
    have hstands := Nat.lt_of_lt_of_le hm.stands hextends.size_le
    exact .ok (hvalue.mono (Nat.le_trans hw hextends.size_le)) ⟨⟨hscopes, hstands⟩, rfl, hextends⟩
  | error why =>
    cases why with
    | constant old => exact .same (hm.scopes.madeBefore_of_target hm.stands htarget) hm
    | undefined => exact .fails (fun _ h => by cases h) (.refl hm)

/-! ## Being elsewhere -/

section
variable {p q : Eval Value}

theorem Grows.inChildOf {parent : ScopeId} (h : Grows w Value.MadeBefore p q) (hm : m.Rooted)
    (hw : w ≤ m.scopes.cells.size) (hparent : parent.index < m.scopes.cells.size) :
    Ends m Value.MadeBefore (Eval.inChildOf parent p m) (Eval.inChildOf parent q m) := by
  have hextends := Scopes.extends_child m.scopes parent
  have hstands : (m.scopes.child parent).1.index < (m.scopes.child parent).2.cells.size := by
    rw [Scopes.size_child]
    exact Nat.lt_succ_self _
  obtain ⟨size, hends⟩ := (h
    { m with
      context := { m.context with scope := (m.scopes.child parent).1 }
      scopes := (m.scopes.child parent).2 }
    ⟨hm.scopes.child hparent, hstands⟩ (Nat.le_trans hw hextends.size_le)).endAlike
  unfold Eval.inChildOf Eval.inScope
  refine .of_endAlike (hends.elsewhere ?_)
  rintro n _ ⟨rfl, hsize, hgrown⟩
  exact ⟨rfl, hsize, hgrown.leave hm hextends rfl⟩

theorem Grows.inNewScope (h : Grows w Value.MadeBefore p q) :
    Grows w Value.MadeBefore (Eval.inNewScope p) (Eval.inNewScope q) :=
  fun _ hm hw => h.inChildOf hm hw hm.stands

theorem Grows.duringCall (frame : TraceFrame) (h : Grows w Value.MadeBefore p q) :
    Grows w Value.MadeBefore (Eval.duringCall frame p) (Eval.duringCall frame q) := by
  intro m hm hw
  unfold Eval.duringCall
  cases m.context.calls.push frame with
  | error d => exact .fails (fun _ h => by cases h) (.refl hm)
  | ok calls =>
    obtain ⟨size, hends⟩ := (h { m with context := { m.context with calls } }
      ⟨hm.scopes, hm.stands⟩ hw).endAlike
    have hcode := hends.completed (fun _ _ h => by cases h)
      (fun here d => here.calls.attach d) fun _ _ hkl => hkl.1 ▸ rfl
    refine .of_endAlike (hcode.elsewhere ?_)
    rintro n _ ⟨rfl, hsize, hgrown⟩
    exact ⟨rfl, hsize, hgrown.leave hm (.refl _) hgrown.scope⟩

/-- A function that was made in one of the scopes that are there runs inside of it. -/
theorem Grows.inFunction {f : Function} (hf : f.closure.index < w)
    (h : Grows w Value.MadeBefore p q) :
    Grows w Value.MadeBefore (Eval.inFunction f p) (Eval.inFunction f q) := by
  intro m hm hw
  obtain ⟨size, hends⟩ := (h.inChildOf
    (m := { m with
      context := { m.context with script := f.script, functions := m.context.functions + 1 } })
    ⟨hm.scopes, hm.stands⟩ hw (Nat.lt_of_lt_of_le hf hw)).endAlike
  refine .of_endAlike (hends.inFunction (fun _ _ h => by cases h) (fun _ _ hkl => hkl.1 ▸ rfl)
    (fun v hv => hv v rfl) ?_)
  rintro n _ ⟨rfl, hsize, hgrown⟩
  exact ⟨rfl, hsize, hgrown.leave hm (.refl _) hgrown.scope⟩

theorem Grows.inProgram (script : Script) (h : Grows w Value.MadeBefore p q) :
    Grows w Value.MadeBefore (Eval.inProgram script p) (Eval.inProgram script q) := by
  intro m hm hw
  obtain ⟨size, hends⟩ := (h
    { m with context := { m.context with scope := .root, script, functions := 0 } }
    ⟨hm.scopes, hm.scopes.nonempty⟩ hw).endAlike
  refine .of_endAlike (hends.inProgram (fun _ _ h => by cases h) (fun _ _ hkl => hkl.1 ▸ rfl)
    Value.holds_null ?_)
  rintro n _ ⟨rfl, hsize, hgrown⟩
  exact ⟨rfl, hsize, hgrown.leave hm (.refl _) rfl⟩

theorem Grows.runBody (label : Option Name) (h : Grows w Value.MadeBefore p q) :
    Grows w (fun _ _ => True) (Eval.runBody label p) (Eval.runBody label q) := by
  intro m hm hw
  obtain ⟨size, hends⟩ := (h m hm hw).endAlike
  exact .of_endAlike (hends.runBody label fun _ he => .inr he)

end

end Eval
end ExprScript
