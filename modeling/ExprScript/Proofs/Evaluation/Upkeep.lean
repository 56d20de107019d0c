import ExprScript.Proofs.Evaluation.Congruence
import ExprScript.Proofs.Evaluation.Endings
import ExprScript.Proofs.Evaluation.Visits

/-!
# What runs keep of scopes and names

A run touches the scopes in three ways: it opens new ones, it declares names in the current one, and
it gives variables new values. What these keep, and what the reading of texts keeps of the names, is
kept by every run. The scopes in which a run may declare names are the ones that are open to it.
-/
namespace ExprScript

/-- What is to be kept of the scopes and of the names, and which scopes are open. -/
structure Upkeep where
  opens : ScopeId → Prop
  scopes : Scopes → Prop
  names : Interner → Prop

namespace Upkeep

/-- Whether all that runs do with scopes and names keeps what is to be kept. -/
structure Lawful (U : Upkeep) : Prop where
  child : ∀ {scopes}, U.scopes scopes → ∀ parent,
    U.scopes (scopes.child parent).2 ∧ U.opens (scopes.child parent).1
  declare : ∀ {scopes id}, U.scopes scopes → U.opens id → ∀ name v,
    U.scopes (scopes.setVariable id name v)
  store : ∀ {scopes id name owner v}, U.scopes scopes →
    scopes.target id name = .ok (owner, v) → ∀ value,
      U.scopes (scopes.setVariable owner name { v with value })
  lexes : ∀ {names}, U.names names → ∀ file start, U.names (lexFrom file start names).names

end Upkeep

structure Machine.Upholds (U : Upkeep) (script : Script) (m : Machine) : Prop where
  script : m.context.script = script
  scopes : U.scopes m.scopes
  names : U.names m.names

namespace Machine.Upholds

variable {U : Upkeep} {script : Script} {m n : Machine}

theorem of_eq (hm : m.Upholds U script)
    (h : (n.context.script, n.scopes, n.names) = (m.context.script, m.scopes, m.names)) :
    n.Upholds U script := by
  obtain ⟨hscript, hscopes, hnames⟩ : _ ∧ _ ∧ _ := by simpa using h
  exact ⟨hscript ▸ hm.script, hscopes ▸ hm.scopes, hnames ▸ hm.names⟩

theorem noteAll (hm : m.Upholds U script) (file : SourceFile) (ds : List Diagnostic) :
    (m.noteAll file ds).Upholds U script := by
  apply hm.of_eq
  rw [Machine.noteAll_eq]

end Machine.Upholds

namespace Simulation

/-- Machines are alike if they are one machine, which keeps what is to be kept and stands in a scope
that is open. -/
def upheld (U : Upkeep) : Simulation where
  toDiscipline := .any
  Setting := Unit
  inScope _ _ := ()
  inCall _ _ := ()
  inFunction _ _ := ()
  inProgram _ _ := ()
  related script _ m n := n = m ∧ m.Upholds U script ∧ U.opens m.context.scope
  interrupt _ _ e f := e = f

variable {U : Upkeep} {region : Script} {setting : Unit} {α : Type}

instance : (upheld U).Strict := ⟨id⟩

theorem upheld_isInvariant : (upheld U).IsInvariant where
  machine h := h.1.symm
  interrupt h := h

theorem upheld_rel {G : α → Prop} {p q : Eval α} :
    (upheld U).Rel region setting G p q ↔
      ∀ m, m.Upholds U region → U.opens m.context.scope →
        Eval.EndAlike G (fun _ => True)
          (fun n k => k = n ∧ n.Upholds U region ∧ U.opens n.context.scope) (p m) (q m) := by
  have hinterrupt : ∀ e f, (upheld U).interrupt region setting e f ↔ e = f ∧ True :=
    fun e f => (and_iff_left trivial).symm
  refine (rel_iff hinterrupt).trans ⟨fun h m hm hopen => h m m ⟨rfl, hm, hopen⟩, ?_⟩
  rintro h m _ ⟨rfl, hm, hopen⟩
  exact h _ hm hopen

/-- A step that gives a value and leaves context, scopes and names as they are. -/
theorem upheld_of_same {G : α → Prop} {p : Eval α}
    (h : ∀ m, (∃ a n, p m = .ok a n ∧ G a ∧
        (n.context, n.scopes, n.names) = (m.context, m.scopes, m.names)) ∨
      ∃ e n, p m = .error e n ∧
        (n.context, n.scopes, n.names) = (m.context, m.scopes, m.names)) :
    (upheld U).Rel region setting G p p := by
  refine upheld_rel.mpr fun m hm hopen => ?_
  have hkeep : ∀ n : Machine,
      (n.context, n.scopes, n.names) = (m.context, m.scopes, m.names) →
        n.Upholds U region ∧ U.opens n.context.scope := by
    intro n hn
    obtain ⟨hcontext, hscopes, hnames⟩ : _ ∧ _ ∧ _ := by simpa using hn
    refine ⟨hm.of_eq ?_, ?_⟩
    · rw [hcontext, hscopes, hnames]
    · rw [hcontext]
      exact hopen
  rcases h m with ⟨a, n, hrun, ha, hn⟩ | ⟨e, n, hrun, hn⟩
  · rw [hrun]
    exact .ok ha ⟨rfl, hkeep n hn⟩
  · rw [hrun]
    exact .error trivial ⟨rfl, hkeep n hn⟩

theorem upheld_noteAll {m : Machine} (hm : m.Upholds U region) (hopen : U.opens m.context.scope)
    (file : SourceFile) (ds : List Diagnostic) :
    (m.noteAll file ds).Upholds U region ∧ U.opens (m.noteAll file ds).context.scope := by
  refine ⟨hm.noteAll file ds, ?_⟩
  rw [Machine.noteAll_eq]
  exact hopen

theorem upheld_text (name : Name) :
    (upheld U).Rel region setting (fun _ => True) (Eval.text name) (Eval.text name) :=
  upheld_of_same fun m => .inl ⟨_, m, rfl, trivial, rfl⟩

theorem upheld_lookup (name : Name) :
    (upheld U).Rel region setting (fun entry => ∀ e ∈ entry, (upheld U).value e.value)
      (Eval.entry? name) (Eval.entry? name) :=
  upheld_of_same fun m => .inl ⟨_, m, rfl, fun _ _ => Discipline.any_value _, rfl⟩

theorem upheld_checked {G : α → Prop} {p : Checked α} (hp : p.Gives G)
    (hreports : p.Reports (Discipline.any.points region)) :
    (upheld U).Rel region setting G (Eval.checked p) (Eval.checked p) := by
  refine upheld_rel.mpr fun m hm hopen => ?_
  have hends := Eval.checked_ends
    (K := fun n k => k = n ∧ n.Upholds U region ∧ U.opens n.context.scope) hp hreports rfl
    fun ds _ => ⟨rfl, upheld_noteAll hm hopen _ ds⟩
  exact hends.allow fun _ _ => trivial

theorem upheld_declare (law : U.Lawful) (name : Name) (v : Variable) :
    (upheld U).Rel region setting (fun _ => True) (Eval.declare name v) (Eval.declare name v) :=
  upheld_rel.mpr fun _ hm hopen =>
    .ok trivial ⟨rfl, ⟨hm.script, law.declare hm.scopes hopen name v, hm.names⟩, hopen⟩

theorem upheld_store (law : U.Lawful) (name : Name) (value : Value) (span : Span) :
    (upheld U).Rel region setting (upheld U).value (Eval.store name value span)
      (Eval.store name value span) := by
  refine upheld_rel.mpr fun m hm hopen => ?_
  unfold Eval.store
  cases htarget : m.scopes.target m.context.scope name with
  | ok found =>
    have hscopes := law.store hm.scopes htarget value
    exact .ok (Discipline.any_value _) ⟨rfl, ⟨hm.script, hscopes, hm.names⟩, hopen⟩
  | error why =>
    cases why with
    | constant old => exact .ok (Discipline.any_value _) ⟨rfl, hm, hopen⟩
    | undefined => exact .error trivial ⟨rfl, hm, hopen⟩

theorem upheld_reads : (upheld U).LawfulReads where
  discipline := Discipline.any_lawful
  interrupt _ := rfl
  script h := by
    obtain ⟨rfl, hm, -⟩ := h
    exact ⟨hm.script, hm.script⟩
  text := upheld_text
  lookup := upheld_lookup
  outsideFunctions := upheld_of_same fun m => .inl ⟨_, m, rfl, fun _ => trivial, rfl⟩
  checked := upheld_checked

theorem upheld_declaredType (name : Name) :
    (upheld U).Rel region setting (fun _ => True) (Eval.declaredType name)
      (Eval.declaredType name) :=
  upheld_of_same fun m => .inl ⟨_, m, rfl, trivial, rfl⟩

/-! ## Reading -/

theorem upheld_readFile (path : String) (span : Span) :
    (upheld U).Rel region setting (fun _ => True) (Eval.readFile path span)
      (Eval.readFile path span) := by
  apply upheld_of_same
  intro m
  unfold Eval.readFile
  cases m.host.readFile path with
  | error need => exact .inr ⟨_, m, rfl, rfl⟩
  | ok answer =>
    cases answer with
    | error cause => exact .inr ⟨_, m, rfl, rfl⟩
    | ok content => exact .inl ⟨_, m, rfl, trivial, rfl⟩

theorem upheld_readTokens (law : U.Lawful) (file : SourceFile) (start : Position) :
    (upheld U).Rel region setting (fun _ => True) (Eval.readTokens file start)
      (Eval.readTokens file start) := by
  refine upheld_rel.mpr fun m hm hopen => ?_
  have hnamed : Machine.Upholds U region { m with names := (lexFrom file start m.names).names } :=
    ⟨hm.script, hm.scopes, law.lexes hm.names file start⟩
  obtain ⟨hnoted, hstill⟩ :=
    upheld_noteAll hnamed hopen file (lexFrom file start m.names).warnings
  unfold Eval.readTokens
  dsimp only
  cases (lexFrom file start m.names).outcome with
  | error d => exact .error trivial ⟨rfl, hnoted, hstill⟩
  | ok lexed => exact .ok trivial ⟨rfl, hnoted.of_eq rfl, hstill⟩

theorem upheld_readScript (file : SourceFile) (tokens : List Token) :
    (upheld U).Rel region setting (fun _ => True) (Eval.readScript file tokens)
      (Eval.readScript file tokens) := by
  refine upheld_rel.mpr fun m hm hopen => ?_
  have hends := Eval.readScript_ends
    (K := fun n k => k = n ∧ n.Upholds U region ∧ U.opens n.context.scope)
    (Discipline.placed_closed file) file
    (fun token (_ : token ∈ tokens) => Discipline.any_placed file token.span) rfl
    fun ds _ => ⟨rfl, upheld_noteAll hm hopen file ds⟩
  exact hends.allow fun _ _ => trivial

theorem upheld_loadScript (law : U.Lawful) (path : String) (span : Span) :
    (upheld U).Rel region setting (upheld U).script (Eval.loadScript path span)
      (Eval.loadScript path span) := by
  refine (upheld_readFile path span).bind fun text _ => ?_
  refine (upheld_readTokens law _ _).bind fun tokens _ => ?_
  exact (upheld_readScript _ _).mono fun script _ => trivial

theorem upheld_readLine :
    (upheld U).Rel region setting (fun _ => True) Eval.readLine Eval.readLine := by
  apply upheld_of_same
  intro m
  unfold Eval.readLine
  cases m.host.takeLine with
  | error need => exact .inr ⟨_, m, rfl, rfl⟩
  | ok taken => exact .inl ⟨_, _, rfl, trivial, rfl⟩

/-! ## Being elsewhere

A run in a new scope needs no open scope around it. -/

section
variable {p q : Eval Value} {inner : Script} {m : Machine}

/-- Where a run leaves the scopes and the names as they are to be kept, whatever the context. -/
def Ended (U : Upkeep) (script : Script) (scope : ScopeId) (n k : Machine) : Prop :=
  k = n ∧ n.Upholds U script ∧ n.context.scope = scope

theorem upheld_inChildOf (law : U.Lawful) (parent : ScopeId)
    (h : (upheld U).Rel region setting (upheld U).value p q) (hm : m.Upholds U region) :
    Eval.EndAlike (upheld U).value (fun _ => True) (Ended U region m.context.scope)
      (Eval.inChildOf parent p m) (Eval.inChildOf parent q m) := by
  obtain ⟨hscopes, hopen⟩ := law.child hm.scopes parent
  have hends := upheld_rel.mp h
    { m with
      context := { m.context with scope := (m.scopes.child parent).1 }
      scopes := (m.scopes.child parent).2 }
    ⟨hm.script, hscopes, hm.names⟩ hopen
  unfold Eval.inChildOf Eval.inScope
  apply hends.elsewhere
  rintro n _ ⟨rfl, hn, -⟩
  exact ⟨rfl, hn.of_eq rfl, rfl⟩

theorem upheld_duringCall (frame : TraceFrame)
    (h : (upheld U).Rel region setting (upheld U).value p q) :
    (upheld U).Rel region setting (upheld U).value (Eval.duringCall frame p)
      (Eval.duringCall frame q) := by
  refine upheld_rel.mpr fun m hm hopen => ?_
  refine Eval.EndAlike.duringCall (fun _ => trivial) frame rfl
    (fun calls => upheld_rel.mp h { m with context := { m.context with calls } }
      ⟨hm.script, hm.scopes, hm.names⟩ hopen)
    (fun _ _ hnk => hnk.1 ▸ rfl) ⟨rfl, hm, hopen⟩ ?_
  rintro n _ calls ⟨rfl, hn, hstill⟩
  exact ⟨rfl, ⟨hn.script, hn.scopes, hn.names⟩, hstill⟩

theorem upheld_inFunction (law : U.Lawful) {f : Function}
    (h : (upheld U).Rel f.script setting (upheld U).value p q) (hm : m.Upholds U region) :
    Eval.EndAlike (upheld U).value (fun _ => True) (Ended U region m.context.scope)
      (Eval.inFunction f p m) (Eval.inFunction f q m) := by
  have hends := upheld_inChildOf law f.closure h
    (m := { m with
      context := { m.context with script := f.script, functions := m.context.functions + 1 } })
    ⟨rfl, hm.scopes, hm.names⟩
  refine hends.inFunction (fun _ => trivial) (fun _ _ hnk => hnk.1 ▸ rfl)
    (fun v _ => Discipline.any_value v) ?_
  rintro n _ ⟨rfl, hn, hscope⟩
  exact ⟨rfl, ⟨hm.script, hn.scopes, hn.names⟩, hscope⟩

theorem upheld_inProgram (hroot : U.opens .root) {script : Script}
    (h : (upheld U).Rel script setting (upheld U).value p q) :
    (upheld U).Rel region setting (upheld U).value (Eval.inProgram script p)
      (Eval.inProgram script q) := by
  refine upheld_rel.mpr fun m hm hopen => ?_
  have hends := upheld_rel.mp h
    { m with context := { m.context with scope := .root, script, functions := 0 } }
    ⟨rfl, hm.scopes, hm.names⟩ hroot
  refine hends.inProgram (fun _ => trivial) (fun _ _ hnk => hnk.1 ▸ rfl)
    (Discipline.any_value _) ?_
  rintro n _ ⟨rfl, hn, -⟩
  exact ⟨rfl, ⟨hm.script, hn.scopes, hn.names⟩, hopen⟩

theorem upheld_runBody (label : Option Name)
    (h : (upheld U).Rel region setting (upheld U).value p q) :
    (upheld U).Rel region setting (fun _ => True) (Eval.runBody label p) (Eval.runBody label q) :=
  upheld_rel.mpr fun m hm hopen =>
    (upheld_rel.mp h m hm hopen).runBody label fun _ _ => .inr trivial

/-- A run that ends in the scope in which it started ends in an open one. -/
theorem upheld_of_ended {r s : Eval Value}
    (h : ∀ m, m.Upholds U region →
      Eval.EndAlike (upheld U).value (fun _ => True) (Ended U region m.context.scope) (r m) (s m)) :
    (upheld U).Rel region setting (upheld U).value r s := by
  refine upheld_rel.mpr fun m hm hopen => ?_
  apply (h m hm).mono (fun _ hv => hv) fun _ he => he
  rintro n k ⟨hsame, hn, hscope⟩
  exact ⟨hsame, hn, hscope ▸ hopen⟩

end

/-! ## Every run -/

theorem after_of_ends {G : α → Prop} {J : Interrupt → Prop} {K : Machine → Machine → Prop}
    {p q : Eval α} {m n : Machine} (h : Eval.EndAlike G J K (p m) (q n)) :
    K (Eval.after p m) (Eval.after q n) := by
  unfold Eval.after
  generalize p m = r at h ⊢
  generalize q n = s at h ⊢
  cases h with
  | ok _ hmn => exact hmn
  | error _ hmn => exact hmn

theorem upheld_steps (law : U.Lawful) : (upheld U).LawfulSteps where
  toLawfulReads := upheld_reads
  declare name _ _ := upheld_declare law name _
  assign name op hoperand hright hspan :=
    upheld_reads.assign upheld_declaredType (fun name value span _ _ =>
      upheld_store law name value span) name op hoperand hright hspan
  freshId := upheld_of_same fun _ => .inl ⟨_, _, rfl, trivial, rfl⟩
  place := upheld_rel.mpr fun _ hm hopen => .ok ⟨trivial, hm.script⟩ ⟨rfl, hm, hopen⟩
  onConsole _ := upheld_of_same fun _ => .inl ⟨_, _, rfl, trivial, rfl⟩
  readLine := upheld_readLine
  loadScript path _ := upheld_loadScript law path _
  inNewScope h := upheld_of_ended fun m hm => upheld_inChildOf law m.context.scope (h .root) hm
  duringCall _ := upheld_duringCall _
  inFunction _ h := upheld_of_ended fun _ hm => upheld_inFunction law (h .root) hm
  runBody := upheld_runBody

theorem upheld_lawful (law : U.Lawful) (hroot : U.opens .root) : (upheld U).Lawful where
  toLawfulSteps := upheld_steps law
  inProgram _ h := upheld_inProgram hroot h

end Simulation
end ExprScript
