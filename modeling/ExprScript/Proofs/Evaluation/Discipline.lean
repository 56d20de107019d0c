import ExprScript.Evaluation
import ExprScript.Proofs.Evaluation.Reports

/-!
# What is asked of code

What is asked of a node may depend on where it stands: in which script and inside which loops. Such
places are regions. A discipline says what may stand where, and it is lawful if nodes that it takes
have only parts that it takes. It also says whether anything may be missing from an arena, and
whether spans must lie in the text that they are taken to point into.
-/
namespace ExprScript

structure Discipline where
  Region : Type
  /-- The region of the body of a loop. -/
  insideLoop : Option Name → Region → Region
  /-- The region of the code of a function. -/
  ofFunction : Function → Region
  /-- The region of the statements of a script. -/
  ofScript : Script → Region
  /-- The script that a region is part of. -/
  scriptOf : Region → Script
  /-- Whether a node may be evaluated in a region. -/
  node : Region → NodeId → Prop
  /-- Whether a region may send a signal to a loop around it. -/
  signal : Region → Option Name → Prop
  /-- Whether a node or a list of nodes may turn out to be missing. -/
  misses : Prop
  /-- Whether spans may point anywhere. -/
  strays : Prop
  /-- Whether a fault may tell of the brackets of a text. -/
  blames : SourceFile → Prop := fun _ => True
  /-- Whether code of a region may stand in a scope. -/
  stands : Region → ScopeId → Prop := fun _ _ => True

/-- Whether a function may run with these values for its parameters. -/
def Function.Ready (f : Function) (values : List (Option Value)) : Prop :=
  ∀ pair ∈ f.params.zip values, Arguments.Accepts pair.1.type pair.1.default.isSome pair.2

namespace Discipline

variable (D : Discipline)

def optional (region : D.Region) (id : Option NodeId) : Prop := ∀ part ∈ id, D.node region part

/-- Whether the entries of a run in the script of a region have a property. -/
def entries {α : Type} (region : D.Region) (run : Run α) (table : Arena → Array α) (G : α → Prop) :
    Prop :=
  match run.entries? (table (D.scriptOf region).arena) with
  | some items => ∀ item ∈ items, G item
  | none => D.misses

def placed (file : SourceFile) (span : Span) : Prop := D.strays ∨ span.LiesIn file

def points (region : D.Region) (span : Span) : Prop := D.placed (D.scriptOf region).source span

def told (d : Diagnostic) : Prop := D.strays ∨ d.Placed

/-- Whether a fault tells of no brackets but those of a text that it may blame. -/
def blamed (d : Diagnostic) : Prop :=
  d.code = .unmatchedBracket → ∃ file, d.source = some file ∧ D.blames file

def argument (region : D.Region) (arg : Argument) : Prop :=
  D.node region arg.value ∧ D.points region arg.span

def spec (region : D.Region) : IndexSpec → Prop
  | .single index => D.node region index
  | .range first last => D.node region first ∧ D.node region last

def function (f : Function) : Prop :=
  D.node (D.ofFunction f) f.body ∧ ∀ param ∈ f.params, D.optional (D.ofFunction f) param.default

def script (s : Script) : Prop := D.node (D.ofScript s) s.root

def definition (region : D.Region) (params : Run Parameter) (body : NodeId) : Prop :=
  D.entries region params Arena.params (fun _ => True) ∧
    ∀ f : Function, f.script = D.scriptOf region → D.stands region f.closure → f.body = body →
      params.entries? (D.scriptOf region).arena.params = some f.params → D.function f

/-- Whether the parts of an expression may be evaluated where the expression stands. -/
def parts (region : D.Region) : Expr → Prop
  | .int _ | .float _ | .str _ | .ident _ => True
  | .list run | .block run => D.entries region run Arena.lists (D.node region)
  | .index target specs => D.node region target ∧ D.entries region specs Arena.specs (D.spec region)
  | .member target _ => D.node region target
  | .cast operand _ => D.node region operand
  | .binary _ left right => D.node region left ∧ D.node region right
  | .unary _ operand => D.node region operand
  | .ternary condition positive negative =>
    D.node region condition ∧ D.optional region positive ∧ D.optional region negative
  | .declare _ _ value _ => D.optional region value
  | .assign _ _ value _ => D.node region value
  | .ifElse branches otherwise =>
    D.entries region branches Arena.branches
      (fun b => D.node region b.condition ∧ D.node region b.body) ∧ D.optional region otherwise
  | .caseOf subject arms otherwise =>
    D.node region subject ∧
      D.entries region arms Arena.arms
        (fun a => D.node region a.pattern ∧ D.node region a.body) ∧
      D.optional region otherwise
  | .iterate label first last step _ body =>
    D.optional region first ∧ D.node region last ∧ D.optional region step ∧
      D.node (D.insideLoop label region) body
  | .whileLoop label condition body =>
    D.node region condition ∧ D.node (D.insideLoop label region) body
  | .define _ params body => D.definition region params body
  | .call callee args =>
    D.node region callee ∧ D.entries region args Arena.args (D.argument region)
  | .returnValue value guard => D.optional region value ∧ D.optional region guard
  | .breakLoop label guard | .continueLoop label guard =>
    D.signal region label ∧ D.optional region guard

def value (v : Value) : Prop := v.Holds D.function

/-- Whether a task may be done where code of the region runs. -/
def task (region : D.Region) : Task → Prop
  | .node id => D.node region id
  | .body f values =>
    D.function f ∧ f.Ready values ∧ ∀ value ∈ values, ∀ v ∈ value, D.value v
  | .native _ value span => D.value value ∧ D.points region span
  | .program script => D.script script

/-- Whether code of the region may be interrupted in this way. -/
def allowed (region : D.Region) : Interrupt → Prop
  | .returned value => D.value value
  | .broke label | .continued label => D.signal region label
  | .fatal d => D.told (d.withSource (D.scriptOf region).source) ∧ D.blamed d
  | .givenUp .outsideArena => D.misses
  | _ => True

/-- Whether a file may be blamed, and every script that it gives may run, whatever names are known
already. -/
def file (source : SourceFile) : Prop :=
  D.blames source ∧ ∀ m script n, Eval.readWhole source m = .ok script n → D.script script

structure Lawful : Prop where
  ofFunction : ∀ f, D.scriptOf (D.ofFunction f) = f.script
  ofScript : ∀ script, D.scriptOf (D.ofScript script) = script
  insideLoop : ∀ label region, D.scriptOf (D.insideLoop label region) = D.scriptOf region
  found : ∀ {region id}, D.node region id →
    (D.scriptOf region).arena.node? id = none → D.misses
  /-- What is asked of a node is asked of its parts. -/
  node : ∀ {region id node}, D.node region id →
    (D.scriptOf region).arena.node? id = some node →
      D.parts region node.expr ∧ D.points region node.span
  /-- A signal that a loop does not stop is one to a loop around it. -/
  passLoop : ∀ {region label signal}, D.signal (D.insideLoop label region) signal →
    Eval.aimsAt label signal = false → D.signal region signal
  /-- A signal that leaves a function is one to a loop around the call. -/
  passFunction : ∀ {region f signal}, D.signal (D.ofFunction f) signal → D.signal region signal

variable {D}

/-! ## Spans and diagnostics -/

theorem placed_closed (file : SourceFile) : Span.Closed (D.placed file) where
  none := .inr (Span.liesIn_closed file).none
  point span h := h.imp_right ((Span.liesIn_closed file).point span)
  merge first last hfirst hlast := by
    rcases hfirst with hstrays | hfirst
    · exact .inl hstrays
    · exact hlast.imp_right ((Span.liesIn_closed file).merge first last hfirst)

theorem told_withSource {d : Diagnostic} (h : D.told d) (file : SourceFile) :
    D.told (d.withSource file) := by
  refine h.imp_right fun ⟨own, hown, hspan⟩ => ⟨own, ?_, hspan⟩
  simp [Diagnostic.withSource, hown]

theorem told_of_pointsAt {d : Diagnostic} {file : SourceFile} (h : d.PointsAt (D.placed file)) :
    D.told (d.withSource file) :=
  h.span.imp_right fun hspan => ⟨file, by simp [Diagnostic.withSource, h.source], hspan⟩

theorem pointsAt_placed {d : Diagnostic} {file : SourceFile} (h : d.PointsAt (Span.LiesIn file)) :
    d.PointsAt (D.placed file) :=
  ⟨.inr h.span, h.bare⟩

/-- A text that is attached is blamed for what was found in it. -/
theorem blamed_of_attached {d : Diagnostic} {file : SourceFile} (hsource : d.source = some file)
    (hfile : D.blames file) : D.blamed d :=
  fun _ => ⟨file, hsource, hfile⟩

theorem blamed_withSource {d : Diagnostic} (h : D.blamed d) (file : SourceFile) :
    D.blamed (d.withSource file) := by
  intro hcode
  obtain ⟨own, hown, hblames⟩ := h hcode
  exact ⟨own, by simp [Diagnostic.withSource, hown], hblames⟩

theorem allowed_of_raised {region : D.Region} {d : Diagnostic} (h : d.RaisedAt (D.points region)) :
    D.allowed region (.fatal d) :=
  ⟨told_of_pointsAt h.toPointsAt, fun hcode => absurd hcode (beq_eq_false_iff_ne.mp h.code)⟩

/-- The calls in progress are no matter to where a diagnostic points. -/
theorem told_withFrames {d : Diagnostic} {file : SourceFile} (h : D.told (d.withSource file))
    (frames : List TraceFrame) : D.told ((d.withFrames frames).withSource file) := by
  unfold Diagnostic.withFrames
  split <;> exact h

theorem blamed_withFrames {d : Diagnostic} (h : D.blamed d) (frames : List TraceFrame) :
    D.blamed (d.withFrames frames) := by
  unfold Diagnostic.withFrames
  split <;> exact h

/-- Code may be interrupted as the code that it runs elsewhere, if a fault is attached to the text
of that code. -/
theorem allowed_elsewhere {inner region : D.Region} {e : Interrupt} (he : D.allowed inner e)
    (hfatal : ∀ d, e = .fatal d → D.told d)
    (hsignal : ∀ label, e = .broke label ∨ e = .continued label → D.signal inner label →
      D.signal region label) : D.allowed region e := by
  cases e with
  | broke label => exact hsignal label (.inl rfl) he
  | continued label => exact hsignal label (.inr rfl) he
  | fatal d => exact ⟨told_withSource (hfatal d rfl) _, he.2⟩
  | givenUp why => cases why <;> exact he
  | _ => exact he

/-- A loop may be interrupted as its body, unless the interruption is a signal to the loop. -/
theorem Lawful.allowed_of_body (law : D.Lawful) {region : D.Region} {label : Option Name}
    {e : Interrupt} (he : D.allowed (D.insideLoop label region) e) :
    (∃ signal, (e = .broke signal ∨ e = .continued signal) ∧ Eval.aimsAt label signal = true) ∨
      D.allowed region e := by
  cases e with
  | broke signal =>
    cases haims : Eval.aimsAt label signal with
    | true => exact .inl ⟨signal, .inl rfl, haims⟩
    | false => exact .inr (law.passLoop he haims)
  | continued signal =>
    cases haims : Eval.aimsAt label signal with
    | true => exact .inl ⟨signal, .inr rfl, haims⟩
    | false => exact .inr (law.passLoop he haims)
  | fatal d =>
    unfold allowed at he
    rw [law.insideLoop] at he
    exact .inr he
  | givenUp why => cases why <;> exact .inr he
  | _ => exact .inr he

/-- A discipline that does not look at spans. -/
class Lax (D : Discipline) : Prop where
  strays : D.strays

/-- A discipline that does not look at scopes. -/
class Anywhere (D : Discipline) : Prop where
  stands : ∀ region scope, D.stands region scope

/-! ## Telling of any brackets -/

/-- The discipline that lets faults tell of the brackets of any text. -/
def lenient (D : Discipline) : Discipline := { D with blames := fun _ => True }

theorem file_lenient {source : SourceFile} (h : D.file source) : D.lenient.file source :=
  ⟨trivial, h.2⟩

theorem allowed_lenient {region : D.Region} {e : Interrupt} (he : D.allowed region e) :
    D.lenient.allowed region e := by
  cases e with
  | fatal d =>
    refine ⟨he.1, fun hcode => ?_⟩
    obtain ⟨file, hsource, -⟩ := he.2 hcode
    exact ⟨file, hsource, trivial⟩
  | givenUp why => cases why <;> exact he
  | _ => exact he

/-! ## Asking the same of all nodes -/

section
variable {region : D.Region}

theorem entries_of_all (hmisses : D.misses) {α : Type} (run : Run α) (table : Arena → Array α)
    {G : α → Prop} (hG : ∀ item, G item) : D.entries region run table G := by
  unfold entries
  split
  · exact fun item _ => hG item
  · exact hmisses

/-- Where all nodes and signals may stand, an expression has parts that may stand there. -/
theorem parts_of_all (hnode : ∀ id, D.node region id)
    (hloop : ∀ label id, D.node (D.insideLoop label region) id)
    (hsignal : ∀ label, D.signal region label) (hmisses : D.misses) (hstrays : D.strays)
    (hmade : ∀ f : Function, f.script = D.scriptOf region → D.stands region f.closure →
      D.function f)
    (expr : Expr) : D.parts region expr := by
  have hoptional : ∀ id, D.optional region id := fun _ part _ => hnode part
  cases expr with
  | int _ | float _ | str _ | ident _ => trivial
  | list run | block run => exact entries_of_all hmisses _ _ hnode
  | index target specs =>
    refine ⟨hnode target, entries_of_all hmisses _ _ fun selection => ?_⟩
    cases selection with
    | single index => exact hnode index
    | range first last => exact ⟨hnode first, hnode last⟩
  | member target _ => exact hnode target
  | cast operand _ | unary _ operand => exact hnode operand
  | binary _ left right => exact ⟨hnode left, hnode right⟩
  | ternary condition positive negative =>
    exact ⟨hnode condition, hoptional positive, hoptional negative⟩
  | declare _ _ value _ => exact hoptional value
  | assign _ _ value _ => exact hnode value
  | ifElse branches otherwise =>
    exact ⟨entries_of_all hmisses _ _ fun b => ⟨hnode b.condition, hnode b.body⟩,
      hoptional otherwise⟩
  | caseOf subject arms otherwise =>
    exact ⟨hnode subject, entries_of_all hmisses _ _ fun a => ⟨hnode a.pattern, hnode a.body⟩,
      hoptional otherwise⟩
  | iterate label first last step _ body =>
    exact ⟨hoptional first, hnode last, hoptional step, hloop label body⟩
  | whileLoop label condition body => exact ⟨hnode condition, hloop label body⟩
  | define _ params body =>
    exact ⟨entries_of_all hmisses _ _ fun _ => trivial,
      fun f hscript hstands _ _ => hmade f hscript hstands⟩
  | call callee args =>
    exact ⟨hnode callee, entries_of_all hmisses _ _ fun arg => ⟨hnode arg.value, .inl hstrays⟩⟩
  | returnValue value guard => exact ⟨hoptional value, hoptional guard⟩
  | breakLoop label guard | continueLoop label guard => exact ⟨hsignal label, hoptional guard⟩

end

/-! ## Asking nothing -/

def any : Discipline where
  Region := Script
  insideLoop _ script := script
  ofFunction f := f.script
  ofScript script := script
  scriptOf script := script
  node _ _ := True
  signal _ _ := True
  misses := True
  strays := True

instance : Lax any := ⟨trivial⟩

instance : Anywhere any := ⟨fun _ _ => trivial⟩

theorem any_function (f : Function) : any.function f :=
  ⟨trivial, fun _ _ _ _ => trivial⟩

theorem any_value (v : Value) : any.value v := fun f _ => any_function f

theorem any_file (source : SourceFile) : any.file source := ⟨trivial, fun _ _ _ _ => trivial⟩

theorem any_placed (file : SourceFile) (span : Span) : any.placed file span := .inl trivial

theorem any_entries {α : Type} (script : Script) (run : Run α) (table : Arena → Array α)
    {G : α → Prop} (hG : ∀ item, G item) : any.entries script run table G :=
  entries_of_all trivial run table hG

theorem any_parts (script : Script) (expr : Expr) : any.parts script expr :=
  parts_of_all (fun _ => trivial) (fun _ _ => trivial) (fun _ => trivial) trivial trivial
    (fun f _ _ => any_function f) expr

theorem any_lawful : any.Lawful where
  ofFunction _ := rfl
  ofScript _ := rfl
  insideLoop _ _ := rfl
  found _ _ := trivial
  node _ _ := ⟨any_parts _ _, any_placed _ _⟩
  passLoop _ _ := trivial
  passFunction _ := trivial

/-! ## Asking nothing but whose brackets a fault tells of -/

section
variable {blames : SourceFile → Prop}

def blaming (blames : SourceFile → Prop) : Discipline := { any with blames }

instance : Lax (blaming blames) := ⟨trivial⟩

instance : Anywhere (blaming blames) := ⟨fun _ _ => trivial⟩

theorem blaming_file {source : SourceFile} (h : blames source) : (blaming blames).file source :=
  ⟨h, fun _ _ _ _ => trivial⟩

theorem blaming_lawful : (blaming blames).Lawful where
  ofFunction _ := rfl
  ofScript _ := rfl
  insideLoop _ _ := rfl
  found _ _ := trivial
  node _ _ := ⟨any_parts _ _, any_placed _ _⟩
  passLoop _ _ := trivial
  passFunction _ := trivial

end

end Discipline
end ExprScript
