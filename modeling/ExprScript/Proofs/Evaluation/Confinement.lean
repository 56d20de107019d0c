import ExprScript.Proofs.Evaluation.Congruence
import ExprScript.Proofs.Evaluation.Endings
import ExprScript.Proofs.Reach

/-!
# What a call can see

The code of a function runs in the scope where the function was made, whatever scope is current at
the call. From there it gets to other scopes on the way outward and through functions, and with the
scripts that it runs to the outermost scope. These and the scopes that it opens itself are all that
a call sees and all that it changes.
-/
namespace ExprScript

/-! ## Code of functions that were made in a set of scopes -/

namespace Discipline

variable {inside : ScopeId → Prop}

/-- Code may be of functions that were made in scopes of a set, and stand in these scopes. -/
def within (inside : ScopeId → Prop) : Discipline where
  Region := Script × ScopeId
  insideLoop _ region := region
  ofFunction f := (f.script, f.closure)
  ofScript script := (script, .root)
  scriptOf region := region.1
  node region _ := inside region.2
  signal _ _ := True
  misses := True
  strays := True
  stands _ scope := inside scope

theorem within_function {f : Function} : (within inside).function f ↔ inside f.closure :=
  ⟨fun h => h.1, fun h => ⟨h, fun _ _ _ _ => h⟩⟩

theorem within_value {v : Value} : (within inside).value v ↔ v.MadeIn inside :=
  forall₂_congr fun _ _ => within_function

theorem within_lawful : (within inside).Lawful where
  ofFunction _ := rfl
  ofScript _ := rfl
  insideLoop _ _ := rfl
  found _ _ := trivial
  node hid _ :=
    ⟨parts_of_all (fun _ => hid) (fun _ _ => hid) (fun _ => trivial) trivial trivial
      (fun _ _ hstands => within_function.mpr hstands) _, .inl trivial⟩
  passLoop _ _ := trivial
  passFunction _ := trivial

end Discipline

/-! ## Two runs that are confined -/

/-- A set of scopes, and the scopes from which two runs start. -/
structure Confinement where
  inside : ScopeId → Prop
  first : Scopes
  second : Scopes

/-- Two runs have come to scopes that are the same inside of the set, and are as they were outside.
New scopes will be inside. -/
structure Confinement.Alike (C : Confinement) (s t : Scopes) : Prop where
  size : t.cells.size = s.cells.size
  inside : s.SameOn C.inside t
  closed : s.Closed C.inside
  outside : ∀ id, ¬C.inside id → id.index < s.cells.size
  first : C.first.SameOn (fun id => ¬C.inside id) s
  second : C.second.SameOn (fun id => ¬C.inside id) t

namespace Confinement.Alike

variable {C : Confinement} {s t : Scopes} {id parent : ScopeId}

theorem child (h : C.Alike s t) (hparent : C.inside parent) :
    C.Alike (s.child parent).2 (t.child parent).2 where
  size := by simp [Scopes.child, h.size]
  inside := h.inside.child h.size parent
  closed := h.closed.child hparent
  outside id hid := by
    have hlt := h.outside id hid
    simp only [Scopes.child, Array.size_push]
    omega
  first := h.first.trans (Scopes.sameOn_child h.outside parent)
  second := h.second.trans (Scopes.sameOn_child (h.size ▸ h.outside) parent)

theorem opened (h : C.Alike s t) (parent : ScopeId) :
    C.inside (s.child parent).1 ∧ (t.child parent).1 = (s.child parent).1 := by
  refine ⟨?_, congrArg ScopeId.mk h.size⟩
  by_contra hout
  exact Nat.lt_irrefl _ (h.outside _ hout)

theorem setVariable (h : C.Alike s t) (hid : C.inside id) (name : Name) {v : Variable}
    (hv : v.value.MadeIn C.inside) :
    C.Alike (s.setVariable id name v) (t.setVariable id name v) where
  size := by simp [Scopes.setVariable, h.size]
  inside := h.inside.setVariable id name v
  closed := h.closed.setVariable hv id name
  outside other hother := by simpa [Scopes.setVariable] using h.outside other hother
  first := h.first.trans (Scopes.sameOn_setVariable (not_not_intro hid) name v)
  second := h.second.trans (Scopes.sameOn_setVariable (not_not_intro hid) name v)

theorem find? (h : C.Alike s t) (hid : C.inside id) (name : Name) :
    t.find? id name = s.find? id name := by
  unfold Scopes.find?
  rw [h.size]
  exact h.inside.findWithin h.closed hid name _

end Confinement.Alike

/-- A machine runs a script, and another run has other scopes there. -/
structure Machine.Confined (C : Confinement) (script : Script) (m : Machine) (t : Scopes) : Prop
    where
  script : m.context.script = script
  scopes : C.Alike m.scopes t

namespace Machine.Confined

variable {C : Confinement} {script : Script} {m n : Machine} {t : Scopes}

theorem of_eq (hm : m.Confined C script t)
    (h : (n.context.script, n.scopes) = (m.context.script, m.scopes)) : n.Confined C script t := by
  obtain ⟨hscript, hscopes⟩ : _ ∧ _ := by simpa using h
  exact ⟨hscript ▸ hm.script, hscopes ▸ hm.scopes⟩

end Machine.Confined

def Interrupt.Returns (G : Value → Prop) (e : Interrupt) : Prop := ∀ v, e = .returned v → G v

theorem Interrupt.returns_fatal {G : Value → Prop} (d : Diagnostic) : (fatal d).Returns G :=
  fun _ h => nomatch h

theorem Interrupt.returns_givenUp {G : Value → Prop} (why : GivenUp) : (givenUp why).Returns G :=
  fun _ h => nomatch h

theorem Interrupt.Unread.returns {G : Value → Prop} {file : SourceFile} {P : Span → Prop}
    {e : Interrupt} (he : e.Unread file P) : e.Returns G := by
  cases he with
  | fault _ => exact returns_fatal _
  | unparsed why => exact returns_givenUp _

namespace Simulation

/-- Machines are alike if they stand in one scope of the set and differ in nothing but the scopes
outside of it. -/
def confined (C : Confinement) : Simulation where
  toDiscipline := .within C.inside
  Setting := Unit
  inScope _ _ := ()
  inCall _ _ := ()
  inFunction _ _ := ()
  inProgram _ _ := ()
  related region _ m n := ∃ t, n = { m with scopes := t } ∧ m.Confined C region.1 t ∧
    C.inside m.context.scope
  interrupt _ _ e f := e = f ∧ e.Returns (Discipline.within C.inside).value

variable {C : Confinement} {region : Script × ScopeId} {setting : Unit} {α : Type}

instance : (confined C).Strict := ⟨id⟩

theorem confined_rel {G : α → Prop} {p q : Eval α} :
    (confined C).Rel region setting G p q ↔
      ∀ m t, m.Confined C region.1 t → C.inside m.context.scope →
        Eval.EndAlike G (Interrupt.Returns (confined C).value)
          ((confined C).related region setting) (p m) (q { m with scopes := t }) := by
  refine (rel_iff fun _ _ => Iff.rfl).trans ⟨fun h m t hm hcurrent => ?_, ?_⟩
  · exact h m _ ⟨t, rfl, hm, hcurrent⟩
  · rintro h m _ ⟨t, rfl, hm, hcurrent⟩
    exact h m t hm hcurrent

/-- A step that does the same whatever the scopes are, and leaves them and the context. -/
theorem confined_of_same {G : α → Prop} {p : Eval α}
    (h : ∀ (m : Machine) (t : Scopes),
      Eval.EndAlike G (Interrupt.Returns (confined C).value)
        (fun k l => (k.context, k.scopes) = (m.context, m.scopes) ∧ l = { k with scopes := t })
        (p m) (p { m with scopes := t })) :
    (confined C).Rel region setting G p p := by
  refine confined_rel.mpr fun m t hm hcurrent => ?_
  apply (h m t).mono (fun _ ha => ha) fun _ he => he
  rintro k _ ⟨hsame, rfl⟩
  obtain ⟨hcontext, hscopes⟩ : _ ∧ _ := by simpa using hsame
  exact ⟨t, rfl, hm.of_eq (by rw [hcontext, hscopes]), hcontext ▸ hcurrent⟩

theorem confined_noteAll {m : Machine} {t : Scopes}
    (h : m.Confined C region.1 t ∧ C.inside m.context.scope) (file : SourceFile)
    (ds : List Diagnostic) :
    (confined C).related region setting (m.noteAll file ds)
      ({ m with scopes := t }.noteAll file ds) := by
  refine ⟨t, ?_, ?_, ?_⟩
  · rw [Machine.noteAll_elsewhere m m.context t, Machine.noteAll_eq]
  · apply h.1.of_eq
    rw [Machine.noteAll_eq]
  · rw [Machine.noteAll_eq]
    exact h.2

/-! ## What only reads -/

theorem confined_text (name : Name) :
    (confined C).Rel region setting (fun _ => True) (Eval.text name) (Eval.text name) :=
  confined_of_same fun _ _ => .ok trivial ⟨rfl, rfl⟩

theorem confined_lookup (name : Name) :
    (confined C).Rel region setting (fun entry => ∀ e ∈ entry, (confined C).value e.value)
      (Eval.entry? name) (Eval.entry? name) := by
  refine confined_rel.mpr fun m t hm hcurrent => ?_
  have hsame : t.entry? m.context.scope name = m.scopes.entry? m.context.scope name := by
    unfold Scopes.entry?
    rw [hm.scopes.find? hcurrent]
  unfold Eval.entry?
  dsimp only
  rw [hsame]
  refine .ok (fun entry hentry => ?_) ⟨t, rfl, hm, hcurrent⟩
  obtain ⟨found, hfound, rfl⟩ := Option.map_eq_some_iff.mp hentry
  exact Discipline.within_value.mpr (hm.scopes.closed.findWithin hcurrent hfound).2

theorem confined_checked {G : α → Prop} {p : Checked α} (hp : p.Gives G)
    (hreports : p.Reports ((confined C).points region)) :
    (confined C).Rel region setting G (Eval.checked p) (Eval.checked p) := by
  refine confined_rel.mpr fun m t hm hcurrent => ?_
  have hends := Eval.checked_ends (K := (confined C).related region setting) (m := m)
    (n := { m with scopes := t }) hp hreports rfl fun ds _ => confined_noteAll ⟨hm, hcurrent⟩ _ ds
  refine hends.allow fun e he => ?_
  obtain ⟨_⟩ := he
  exact Interrupt.returns_fatal _

theorem confined_reads : (confined C).LawfulReads where
  discipline := Discipline.within_lawful
  interrupt {region setting e} he := by
    refine ⟨rfl, fun v hv => ?_⟩
    cases hv
    exact he.1
  script := by
    rintro region setting m _ ⟨t, rfl, hm, -⟩
    exact ⟨hm.script, hm.script⟩
  text := confined_text
  lookup := confined_lookup
  outsideFunctions := confined_of_same fun _ _ => .ok (fun _ => trivial) ⟨rfl, rfl⟩
  checked := confined_checked

/-! ## What changes scopes -/

theorem confined_declare (name : Name) {v : Variable} (hv : (confined C).value v.value) :
    (confined C).Rel region setting (fun _ => True) (Eval.declare name v)
      (Eval.declare name v) := by
  refine confined_rel.mpr fun m t hm hcurrent => ?_
  have hscopes := hm.scopes.setVariable hcurrent name (Discipline.within_value.mp hv)
  exact .ok trivial ⟨_, rfl, ⟨hm.script, hscopes⟩, hcurrent⟩

theorem confined_declaredType (name : Name) :
    (confined C).Rel region setting (fun _ => True) (Eval.declaredType name)
      (Eval.declaredType name) := by
  refine confined_rel.mpr fun m t hm hcurrent => ?_
  have hsame : t.type? m.context.scope name = m.scopes.type? m.context.scope name := by
    rw [Scopes.type?_eq, Scopes.type?_eq]
    unfold Scopes.entry?
    rw [hm.scopes.find? hcurrent]
  unfold Eval.declaredType
  dsimp only
  rw [hsame]
  exact .ok trivial ⟨t, rfl, hm, hcurrent⟩

theorem confined_store (name : Name) {value : Value} (hvalue : (confined C).value value)
    (span : Span) :
    (confined C).Rel region setting (confined C).value (Eval.store name value span)
      (Eval.store name value span) := by
  refine confined_rel.mpr fun m t hm hcurrent => ?_
  unfold Eval.store
  dsimp only
  rw [Scopes.target_eq, Scopes.target_eq, hm.scopes.find? hcurrent]
  cases hfound : m.scopes.find? m.context.scope name with
  | none => exact .error (Interrupt.returns_fatal _) ⟨t, rfl, hm, hcurrent⟩
  | some found =>
    obtain ⟨howner, hentry⟩ := hm.scopes.closed.findWithin hcurrent hfound
    obtain ⟨owner, entry⟩ := found
    cases entry with
    | constant old => exact .ok (Discipline.within_value.mpr hentry) ⟨t, rfl, hm, hcurrent⟩
    | «variable» v =>
      have hscopes := hm.scopes.setVariable (v := { v with value }) howner name
        (Discipline.within_value.mp hvalue)
      exact .ok hvalue ⟨_, rfl, ⟨hm.script, hscopes⟩, hcurrent⟩

/-! ## Reading -/

theorem confined_readFile (path : String) (span : Span) :
    (confined C).Rel region setting (fun _ => True) (Eval.readFile path span)
      (Eval.readFile path span) := by
  refine confined_of_same fun m t => ?_
  unfold Eval.readFile
  dsimp only
  cases m.host.readFile path with
  | error need => exact .error (Interrupt.returns_givenUp _) ⟨rfl, rfl⟩
  | ok answer =>
    cases answer with
    | error cause => exact .error (Interrupt.returns_fatal _) ⟨rfl, rfl⟩
    | ok content => exact .ok trivial ⟨rfl, rfl⟩

theorem confined_readLine :
    (confined C).Rel region setting (fun _ => True) Eval.readLine Eval.readLine := by
  refine confined_of_same fun m t => ?_
  unfold Eval.readLine
  dsimp only
  cases m.host.takeLine with
  | error need => exact .error (Interrupt.returns_givenUp _) ⟨rfl, rfl⟩
  | ok taken => exact .ok trivial ⟨rfl, rfl⟩

theorem confined_readTokens (file : SourceFile) :
    (confined C).Rel region setting (fun _ => True) (Eval.readTokens file Position.start)
      (Eval.readTokens file Position.start) := by
  refine confined_rel.mpr fun m t hm hcurrent => ?_
  have hends := Eval.readTokens_ends (K := (confined C).related region setting) (m := m)
    (n := { m with scopes := t }) (Span.liesIn_closed file).none.start rfl rfl
    fun names ds logging _ => ?_
  · exact hends.mono (fun _ _ => trivial) (fun _ he => he.returns) fun _ _ h => h
  · obtain ⟨_, hnoted, hkept, hstill⟩ : (confined C).related region setting _ _ :=
      confined_noteAll (m := { m with names }) ⟨hm.of_eq rfl, hcurrent⟩ file ds
    exact ⟨_, congrArg (fun k : Machine => { k with logging }) hnoted, hkept.of_eq rfl, hstill⟩

theorem confined_readScript (file : SourceFile) (tokens : List Token) :
    (confined C).Rel region setting (fun _ => True) (Eval.readScript file tokens)
      (Eval.readScript file tokens) := by
  refine confined_rel.mpr fun m t hm hcurrent => ?_
  have hends := Eval.readScript_ends (K := (confined C).related region setting) (m := m)
    (n := { m with scopes := t }) (Discipline.placed_closed (D := (confined C).toDiscipline) file)
    file (fun token (_ : token ∈ tokens) => .inl trivial) rfl
    fun ds _ => confined_noteAll ⟨hm, hcurrent⟩ file ds
  exact hends.allow fun _ he => he.returns

theorem confined_loadScript (hroot : C.inside .root) (path : String) (span : Span) :
    (confined C).Rel region setting (confined C).script (Eval.loadScript path span)
      (Eval.loadScript path span) := by
  refine (confined_readFile path span).bind fun text _ => ?_
  refine (confined_readTokens _).bind fun tokens _ => ?_
  exact (confined_readScript _ _).mono fun _ _ => hroot

/-! ## Entering and leaving -/

section
variable {p q : Eval Value} {m : Machine} {t : Scopes}

/-- Where two runs leave their machines, with the current scope that they had. -/
def Left (C : Confinement) (script : Script) (scope : ScopeId) (m n : Machine) : Prop :=
  ∃ t, n = { m with scopes := t } ∧ m.Confined C script t ∧ m.context.scope = scope

theorem confined_inChildOf {parent : ScopeId} (hparent : C.inside parent)
    (h : (confined C).Rel region setting (confined C).value p q) (hm : m.Confined C region.1 t) :
    Eval.EndAlike (confined C).value (Interrupt.Returns (confined C).value)
      (Left C region.1 m.context.scope) (Eval.inChildOf parent p m)
      (Eval.inChildOf parent q { m with scopes := t }) := by
  obtain ⟨hopened, hsame⟩ := hm.scopes.opened parent
  have hends := confined_rel.mp h
    { m with
      context := { m.context with scope := (m.scopes.child parent).1 }
      scopes := (m.scopes.child parent).2 }
    (t.child parent).2 ⟨hm.script, hm.scopes.child hparent⟩ hopened
  unfold Eval.inChildOf Eval.inScope
  dsimp only
  rw [hsame]
  apply hends.elsewhere
  rintro k _ ⟨r, rfl, hk, -⟩
  exact ⟨r, rfl, hk.of_eq rfl, rfl⟩

theorem confined_duringCall (frame : TraceFrame)
    (h : (confined C).Rel region setting (confined C).value p q) :
    (confined C).Rel region setting (confined C).value (Eval.duringCall frame p)
      (Eval.duringCall frame q) := by
  refine confined_rel.mpr fun m t hm hcurrent => ?_
  refine Eval.EndAlike.duringCall Interrupt.returns_fatal frame rfl
    (fun calls => confined_rel.mp h { m with context := { m.context with calls } } t
      (hm.of_eq rfl) hcurrent)
    ?_ ⟨t, rfl, hm, hcurrent⟩ ?_
  · rintro k _ ⟨r, rfl, -⟩
    rfl
  · rintro k _ calls ⟨r, rfl, hk, hstill⟩
    exact ⟨r, rfl, hk.of_eq rfl, hstill⟩

theorem confined_inFunction {f : Function} (hf : C.inside f.closure)
    (h : (confined C).Rel (f.script, f.closure) setting (confined C).value p q)
    (hm : m.Confined C region.1 t) :
    Eval.EndAlike (confined C).value (Interrupt.Returns (confined C).value)
      (Left C region.1 m.context.scope) (Eval.inFunction f p m)
      (Eval.inFunction f q { m with scopes := t }) := by
  have hends := confined_inChildOf hf h
    (m := { m with
      context := { m.context with script := f.script, functions := m.context.functions + 1 } })
    ⟨rfl, hm.scopes⟩
  refine hends.inFunction Interrupt.returns_fatal ?_ (fun v he => he v rfl) ?_
  · rintro k _ ⟨r, rfl, -⟩
    rfl
  · rintro k _ ⟨r, rfl, hk, hscope⟩
    exact ⟨r, rfl, ⟨hm.script, hk.scopes⟩, hscope⟩

theorem confined_inProgram (hroot : C.inside .root) {script : Script}
    (h : (confined C).Rel (script, .root) setting (confined C).value p q) :
    (confined C).Rel region setting (confined C).value (Eval.inProgram script p)
      (Eval.inProgram script q) := by
  refine confined_rel.mpr fun m t hm hcurrent => ?_
  have hends := confined_rel.mp h
    { m with context := { m.context with scope := .root, script, functions := 0 } } t
    ⟨rfl, hm.scopes⟩ hroot
  refine hends.inProgram Interrupt.returns_fatal ?_ Value.holds_null ?_
  · rintro k _ ⟨r, rfl, -⟩
    rfl
  · rintro k _ ⟨r, rfl, hk, -⟩
    exact ⟨r, rfl, ⟨hm.script, hk.scopes⟩, hcurrent⟩

/-- A run that ends in the scope in which it started ends inside of the set. -/
theorem confined_of_left {r s : Eval Value}
    (h : ∀ m t, m.Confined C region.1 t → C.inside m.context.scope →
      Eval.EndAlike (confined C).value (Interrupt.Returns (confined C).value)
        (Left C region.1 m.context.scope) (r m) (s { m with scopes := t })) :
    (confined C).Rel region setting (confined C).value r s := by
  refine confined_rel.mpr fun m t hm hcurrent => ?_
  apply (h m t hm hcurrent).mono (fun _ hv => hv) fun _ he => he
  rintro k _ ⟨r, rfl, hk, hscope⟩
  exact ⟨r, rfl, hk, hscope ▸ hcurrent⟩

end

theorem confined_lawful (hroot : C.inside .root) : (confined C).Lawful where
  toLawfulReads := confined_reads
  declare name _ hv := confined_declare name hv
  assign name op hoperand hright hspan :=
    confined_reads.assign confined_declaredType
      (fun name _ span hvalue _ => confined_store name hvalue span) name op hoperand hright hspan
  freshId := confined_of_same fun _ _ => .ok trivial ⟨rfl, rfl⟩
  place := confined_rel.mpr fun _ t hm hcurrent =>
    .ok ⟨hcurrent, hm.script⟩ ⟨t, rfl, hm, hcurrent⟩
  onConsole _ := confined_of_same fun _ _ => .ok trivial ⟨rfl, rfl⟩
  readLine := confined_readLine
  loadScript path _ := confined_loadScript hroot path _
  inNewScope h := confined_of_left fun _ _ hm hcurrent => confined_inChildOf hcurrent (h .root) hm
  duringCall _ := confined_duringCall _
  inFunction hf h := confined_of_left fun _ _ hm _ =>
    confined_inFunction (Discipline.within_function.mp hf) (h .root) hm
  runBody label h := confined_rel.mpr fun m t hm hcurrent =>
    (confined_rel.mp h m t hm hcurrent).runBody label fun _ he => .inr he
  inProgram _ h := confined_inProgram hroot h

end Simulation

/-! ## Calls from other places -/

def Machine.standing (m : Machine) (scope : ScopeId) : Machine :=
  { m with context := { m.context with scope } }

/-- Two machines that stand in two scopes and differ in nothing else. -/
def Machine.Moved (here there : ScopeId) (m n : Machine) : Prop :=
  m.context.scope = here ∧ n = m.standing there

namespace Eval

variable {α β : Type}

/-- A run that does the same whatever scope is current, and leaves that as it is. -/
def Movable (p : Eval α) : Prop :=
  ∀ m scope, EndAlike (fun _ => True) (fun _ => True) (Machine.Moved m.context.scope scope) (p m)
    (p (m.standing scope))

theorem movable_pure (a : α) : Movable (pure a) := fun _ _ => .ok trivial ⟨rfl, rfl⟩

theorem Movable.bind {p : Eval α} {f : α → Eval β} (hp : Movable p) (hf : ∀ a, Movable (f a)) :
    Movable (p >>= f) := by
  intro m scope
  refine (hp m scope).bind ?_ (fun _ _ => trivial) fun _ _ h => h
  rintro a k _ - ⟨hscope, rfl⟩
  rw [← hscope]
  exact hf a k scope

theorem Movable.mapM {f : α → Eval β} (hf : ∀ a, Movable (f a)) (items : List α) :
    Movable (items.mapM f) := by
  induction items with
  | nil => exact movable_pure []
  | cons item items ih =>
    rw [List.mapM_cons]
    exact (hf item).bind fun b => ih.bind fun bs => movable_pure (b :: bs)

theorem movable_text (name : Name) : Movable (text name) := fun _ _ => .ok trivial ⟨rfl, rfl⟩

theorem movable_checked (p : Checked α) : Movable (checked p) := by
  intro m scope
  have hnoted : ∀ ds, Machine.Moved m.context.scope scope
      (m.noteAll m.context.script.source ds)
      ((m.standing scope).noteAll m.context.script.source ds) := by
    intro ds
    have hcontext : (m.noteAll m.context.script.source ds).context = m.context := by
      rw [Machine.noteAll_eq]
    have hscopes : (m.noteAll m.context.script.source ds).scopes = m.scopes := by
      rw [Machine.noteAll_eq]
    refine ⟨congrArg Context.scope hcontext, ?_⟩
    unfold Machine.standing
    rw [hcontext, Machine.noteAll_elsewhere m { m.context with scope } m.scopes, ← hscopes]
  unfold checked
  cases p #[] with
  | error d warnings => exact .error trivial (hnoted _)
  | ok a warnings =>
    dsimp only
    split
    · exact .ok trivial ⟨rfl, rfl⟩
    · exact .ok trivial (hnoted _)

theorem Movable.duringCall {p : Eval Value} (hp : Movable p) (frame : TraceFrame) :
    Movable (duringCall frame p) := by
  intro m scope
  refine EndAlike.duringCall (K := Machine.Moved m.context.scope scope) (fun _ => trivial) frame rfl
    (fun calls => hp { m with context := { m.context with calls } } scope) ?_ ⟨rfl, rfl⟩ ?_
  · rintro k _ ⟨-, rfl⟩
    rfl
  · rintro k _ calls ⟨hscope, rfl⟩
    exact ⟨hscope, rfl⟩

theorem movable_inChildOf (parent : ScopeId) (p : Eval Value) : Movable (inChildOf parent p) := by
  intro m scope
  unfold inChildOf inScope
  dsimp only [Machine.standing]
  refine EndAlike.elsewhere (K := Eq) (EndAlike.refl _ p) ?_
  rintro k _ rfl
  exact ⟨rfl, rfl⟩

/-- Where a function is called is no matter to its code, which runs where the function was made. -/
theorem movable_inFunction (f : Function) (p : Eval Value) : Movable (inFunction f p) := by
  intro m scope
  have hchild := movable_inChildOf f.closure p
    { m with
      context := { m.context with script := f.script, functions := m.context.functions + 1 } }
    scope
  refine hchild.inFunction (fun _ => trivial) ?_ (fun _ _ => trivial) ?_
  · rintro k _ ⟨-, rfl⟩
    rfl
  · rintro k _ ⟨hscope, rfl⟩
    exact ⟨hscope, rfl⟩

theorem movable_body (level : Nat) (f : Function) (values : List (Option Value)) :
    Movable (eval level (.body f values)) := by
  cases level with
  | zero => exact fun _ _ => .error trivial ⟨rfl, rfl⟩
  | succ level =>
    intro m scope
    rw [Simulation.eval_succ, Simulation.eval_succ]
    exact movable_inFunction f _ m scope

theorem movable_callFunction (level : Nat) (f : Function) (given : List Given) (span : Span) :
    Movable (callFunction (eval level) f given span) := by
  refine Movable.bind (.mapM (fun param => ?_) _) fun formals => ?_
  · exact (movable_text param.name).bind fun text => movable_pure _
  · exact (movable_checked _).bind fun values => (movable_body level f values).duringCall _

end Eval

/-! ## What a call sees and leaves -/

/-- Machines that may stand in different scopes, and differ in nothing else but the scopes outside
of a set. -/
structure Machine.SameInside (inside : ScopeId → Prop) (m n : Machine) : Prop where
  rest : n = { m with context := { m.context with scope := n.context.scope }, scopes := n.scopes }
  size : n.scopes.cells.size = m.scopes.cells.size
  scopes : m.scopes.SameOn inside n.scopes

/-- What is as it was: the current scope, and the scopes outside of a set. -/
structure Machine.SameOutside (inside : ScopeId → Prop) (before after : Machine) : Prop where
  current : after.context.scope = before.context.scope
  scopes : before.scopes.SameOn (fun id => ¬inside id) after.scopes

namespace Eval

/-- Where a call can get to: from where its function was made and those in its arguments were, and
from the outermost scope. -/
def CallSees (f : Function) (given : List Given) (s : Scopes) : ScopeId → Prop :=
  s.Reaches fun id =>
    id = f.closure ∨ id = .root ∨ ∃ arg ∈ given, ∃ g ∈ arg.value.functions, id = g.closure

/-- Where a call can get to while it runs, with the scopes that it opens. -/
def CallUses (f : Function) (given : List Given) (s : Scopes) (id : ScopeId) : Prop :=
  CallSees f given s id ∨ s.cells.size ≤ id.index

variable {f : Function} {given : List Given} {m n : Machine}

theorem callUses_alike (h : m.SameInside (CallSees f given m.scopes) n) :
    Confinement.Alike ⟨CallUses f given m.scopes, m.scopes, n.scopes⟩ m.scopes n.scopes where
  size := h.size
  inside := by
    rintro id (hid | hid)
    · exact h.scopes id hid
    · rw [Array.getElem?_eq_none hid, Array.getElem?_eq_none (h.size ▸ hid)]
  closed := Scopes.closed_reaches _ _
  outside _ hid := Nat.lt_of_not_le fun hsize => hid (.inr hsize)
  first := .refl _ _
  second := .refl _ _

/-- A call does the same whatever scope is current and whatever lies in the scopes to which it does
not get, and leaves these as they are. -/
theorem call_confined (h : m.SameInside (CallSees f given m.scopes) n) (span : Span) (level : Nat) :
    EndAlike (Value.MadeIn (CallUses f given m.scopes)) (fun _ => True)
      (fun m' n' =>
        m'.SameInside (CallUses f given m.scopes) n' ∧
        m'.scopes.Closed (CallUses f given m.scopes) ∧
        m.SameOutside (CallUses f given m.scopes) m' ∧
        n.SameOutside (CallUses f given m.scopes) n')
      (callFunction (eval level) f given span m) (callFunction (eval level) f given span n) := by
  let C : Confinement := ⟨CallUses f given m.scopes, m.scopes, n.scopes⟩
  have hclosure : C.inside f.closure := .inl (.start (.inl rfl))
  have hroot : C.inside .root := .inl (.start (.inr (.inl rfl)))
  have hgiven : ∀ arg ∈ given, (Simulation.confined C).value arg.value ∧
      (Simulation.confined C).points (m.context.script, .root) arg.span := fun arg harg =>
    ⟨Discipline.within_value.mpr fun g hg =>
      .inl (.start (.inr (.inr ⟨arg, harg, g, hg, rfl⟩))), .inl trivial⟩
  have hcall : (Simulation.confined C).Rel (m.context.script, .root) () _
      (callFunction (eval level) f given span) (callFunction (eval level) f given span) :=
    (Simulation.confined_lawful hroot).callFunction
      (Simulation.rel_eval (Simulation.confined_lawful hroot) level)
      (Discipline.within_function.mpr hclosure) hgiven (.inl trivial)
  have hends := Simulation.confined_rel.mp hcall (m.standing .root) n.scopes
    ⟨rfl, callUses_alike h⟩ hroot
  have hother : { m.standing .root with scopes := n.scopes } = n.standing .root :=
    (congrArg (Machine.standing · .root) h.rest).symm
  rw [hother] at hends
  have hm := movable_callFunction level f given span m .root
  have hn := movable_callFunction level f given span (n.standing .root) n.context.scope
  refine ((hm.trans hends).trans hn).mono (fun v hv => Discipline.within_value.mp hv.1.2)
    (fun _ _ => trivial) ?_
  rintro k _ ⟨_, ⟨_, ⟨hstay, rfl⟩, t, rfl, hk, -⟩, -, rfl⟩
  exact ⟨⟨rfl, hk.scopes.size, hk.scopes.inside⟩, hk.scopes.closed, ⟨hstay, hk.scopes.first⟩,
    ⟨rfl, hk.scopes.second⟩⟩

/-! ### A variable that two scopes have -/

/-- The script `x = 5`, where `x` is the first name. -/
def setting : Script :=
  ⟨⟨"", "x = 5"⟩, { nodes := #[⟨.int 5, {}⟩, ⟨.assign ⟨0⟩ none ⟨0⟩ true, {}⟩] }, ⟨1⟩⟩

/-- A function that runs this script, made in a scope of its own. -/
def setter : Function := ⟨0, none, "set", [], ⟨1⟩, setting, ⟨1⟩⟩

/-- A machine where that scope has the variable, and so has one more scope. -/
def settled (current : ScopeId) (other : Value) : Machine where
  context := ⟨current, setting, 0, CallStack.empty none⟩
  scopes := ⟨#[{}, { vars := [(⟨0⟩, ⟨.null, .auto⟩)], parent := some .root },
    { vars := [(⟨0⟩, ⟨other, .auto⟩)], parent := some .root }]⟩
  names := .empty
  console := default
  host := ⟨fun _ => none, [], true⟩
  logging := true
  notices := #[]
  nextId := 1

/-- Whether a run has given a number and has put it into the second scope. -/
def hasSet (number : Int64) : EStateM.Result Interrupt Machine Value → Bool
  | .ok (.int n) m =>
    match m.scopes.entry? ⟨1⟩ ⟨0⟩ with
    | some (.variable ⟨.int stored, _⟩) => n = number ∧ stored = number
    | _ => false
  | _ => false

theorem settled_closed (current : ScopeId) (other : Value) :
    (settled current other).scopes.Closed fun id => id.index < 2 := by
  rintro ⟨index⟩ scope next hid hscope hnext
  obtain rfl | rfl : index = 0 ∨ index = 1 := by
    dsimp only at hid
    omega
  · cases hscope
    cases hnext with
    | outward hparent => cases hparent
    | ofConstant hentry | ofVariable hentry => cases hentry
  · cases hscope
    cases hnext with
    | outward hparent =>
      cases hparent
      exact Nat.two_pos
    | ofConstant hentry => cases hentry
    | ofVariable hentry hf =>
      obtain rfl := List.mem_singleton.mp hentry
      cases hf

theorem settled_sees {current : ScopeId} {other : Value} {id : ScopeId}
    (hid : CallSees setter [] (settled current other).scopes id) : id.index < 2 := by
  refine (settled_closed current other).of_reaches ?_ hid
  rintro _ (rfl | rfl | ⟨_, hnone, -⟩)
  · exact Nat.one_lt_two
  · exact Nat.two_pos
  · cases hnone

/-- The variable of the scope where the function was made is set. The other one is neither seen nor
set, though one call is made where it is. -/
theorem setter_confined :
    (settled ⟨2⟩ (.int 2)).SameInside (CallSees setter [] (settled ⟨2⟩ (.int 2)).scopes)
      (settled .root (.str "x")) ∧
    ∃ v m n, callFunction (eval 10) setter [] {} (settled ⟨2⟩ (.int 2)) = .ok v m ∧
      callFunction (eval 10) setter [] {} (settled .root (.str "x")) = .ok v n ∧
      hasSet 5 (.ok v m) = true ∧ n.scopes.cells[1]? = m.scopes.cells[1]? ∧
      m.scopes.cells[2]? = (settled ⟨2⟩ (.int 2)).scopes.cells[2]? ∧
      n.scopes.cells[2]? = (settled .root (.str "x")).scopes.cells[2]? := by
  have hsame : (settled ⟨2⟩ (.int 2)).SameInside (CallSees setter [] (settled ⟨2⟩ (.int 2)).scopes)
      (settled .root (.str "x")) := by
    refine ⟨rfl, rfl, ?_⟩
    rintro ⟨index⟩ hid
    obtain rfl | rfl : index = 0 ∨ index = 1 := by
      have hlt := settled_sees hid
      dsimp only at hlt
      omega
    · rfl
    · rfl
  have hset : hasSet 5 (callFunction (eval 10) setter [] {} (settled ⟨2⟩ (.int 2))) = true := by
    decide +kernel
  have hcalls := call_confined hsame {} 10
  have hseen : CallUses setter [] (settled ⟨2⟩ (.int 2)).scopes ⟨1⟩ := .inl (.start (.inl rfl))
  have hunseen : ¬CallUses setter [] (settled ⟨2⟩ (.int 2)).scopes ⟨2⟩ := by
    rintro (hsees | hnew)
    · exact absurd (settled_sees hsees) (by decide)
    · exact absurd hnew (by decide)
  refine ⟨hsame, ?_⟩
  generalize callFunction (eval 10) setter [] {} (settled ⟨2⟩ (.int 2)) = r at hset hcalls ⊢
  generalize callFunction (eval 10) setter [] {} (settled .root (.str "x")) = s at hcalls ⊢
  cases hcalls with
  | error => cases hset
  | ok _ hmachines =>
    obtain ⟨hinside, -, hfirst, hsecond⟩ := hmachines
    exact ⟨_, _, _, rfl, rfl, hset, hinside.scopes ⟨1⟩ hseen, hfirst.scopes ⟨2⟩ hunseen,
      hsecond.scopes ⟨2⟩ hunseen⟩

end Eval
end ExprScript
