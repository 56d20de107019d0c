import ExprScript.Proofs.Evaluation.Simulation
import ExprScript.Proofs.Parser.Trees
import ExprScript.Proofs.Token.Spans

/-!
# Runs that end alike

Two runs end alike if they give the same value or are interrupted in the same way, and leave like
machines. What surrounds a run takes like ends to like ends: it acts on the interruption and on the
context, and on nothing else.
-/
namespace ExprScript

namespace Machine

theorem note_eq (m : Machine) (file : SourceFile) (d : Diagnostic) :
    m.note file d = { m with notices := (m.note file d).notices } := by
  unfold note
  split <;> rfl

/-- Warnings change nothing but the notices. -/
theorem noteAll_eq (m : Machine) (file : SourceFile) (ds : List Diagnostic) :
    m.noteAll file ds = { m with notices := (m.noteAll file ds).notices } := by
  unfold noteAll
  induction ds generalizing m with
  | nil => rfl
  | cons d ds ih =>
    rw [List.foldl_cons, ih, note_eq]

/-- Warnings are shown alike wherever a machine stands and whatever its scopes are. -/
theorem noteAll_elsewhere (m : Machine) (context : Context) (scopes : Scopes) (file : SourceFile)
    (ds : List Diagnostic) :
    noteAll { m with context, scopes } file ds = { m.noteAll file ds with context, scopes } := by
  unfold noteAll
  induction ds generalizing m with
  | nil => rfl
  | cons d ds ih =>
    have hfirst : note { m with context, scopes } file d =
        { m.note file d with context, scopes } := by
      unfold note
      dsimp only
      split <;> rfl
    rw [List.foldl_cons, List.foldl_cons, hfirst, ih]

theorem mem_notices_noteAll {m : Machine} {file : SourceFile} {ds : List Diagnostic}
    {d : Diagnostic} (h : d ∈ (m.noteAll file ds).notices) :
    d ∈ m.notices ∨ ∃ noted ∈ ds, d = noted.withSource file := by
  unfold noteAll at h
  induction ds generalizing m with
  | nil => exact .inl h
  | cons noted ds ih =>
    rw [List.foldl_cons] at h
    rcases ih h with hbefore | ⟨other, hother, rfl⟩
    · unfold note at hbefore
      split at hbefore
      · rcases Array.mem_push.mp hbefore with hbefore | rfl
        · exact .inl hbefore
        · exact .inr ⟨noted, by simp, rfl⟩
      · exact .inl hbefore
    · exact .inr ⟨other, by simp [hother], rfl⟩

/-- The machine once a text is lexed: it knows more names, has shown the warnings of the lexer, and
shows others or not from then on. -/
def lexed (m : Machine) (file : SourceFile) (names : Interner) (ds : List Diagnostic)
    (logging : Bool) : Machine :=
  { { m with names }.noteAll file ds with logging }

end Machine

namespace Interrupt

/-- The interruption with more told of its fault, if it is one. -/
def completed (complete : Diagnostic → Diagnostic) : Interrupt → Interrupt
  | .fatal d => .fatal (complete d)
  | e => e

/-- What a function makes of an interruption of its code: a `return` gives the value. -/
def afterReturn : Interrupt → Interrupt ⊕ Value
  | .returned v => .inr v
  | e => .inl e

/-- What a program makes of an interruption of its code: it stops signals to loops. -/
def atTop : Interrupt → Interrupt ⊕ Value
  | .broke _ | .continued _ => .inr .null
  | e => .inl e

/-- What a loop makes of an interruption of its body: it stops signals to itself. -/
def afterBody (label : Option Name) : Interrupt → Interrupt ⊕ Flow
  | .broke signal => if Eval.aimsAt label signal then .inr .stop else .inl (.broke signal)
  | .continued signal => if Eval.aimsAt label signal then .inr .next else .inl (.continued signal)
  | e => .inl e

/-- The interruption is a fault of code that points at a span of a set. -/
inductive FaultAt (P : Span → Prop) : Interrupt → Prop
  | fault {d : Diagnostic} (hd : d.RaisedAt P) : FaultAt P (.fatal d)

inductive Unread (file : SourceFile) (P : Span → Prop) : Interrupt → Prop
  | fault {d : Diagnostic} (hd : d.PointsAt P) : Unread file P (.fatal (d.withSource file))
  | unparsed (why : ParseBreakdown) : Unread file P (.givenUp (.unparsed why))

variable {D : Discipline} {region : D.Region} {e : Interrupt}

theorem FaultAt.allowed (he : e.FaultAt (D.points region)) : D.allowed region e := by
  obtain ⟨hd⟩ := he
  exact D.allowed_of_raised hd

theorem Unread.mono {file : SourceFile} {P Q : Span → Prop} (he : e.Unread file P)
    (h : ∀ d : Diagnostic, d.PointsAt P → d.PointsAt Q) : e.Unread file Q := by
  cases he with
  | fault hd => exact .fault (h _ hd)
  | unparsed why => exact .unparsed why

theorem Unread.allowed {file : SourceFile} (he : e.Unread file (D.placed file))
    (hfile : D.blames file) : D.allowed region e := by
  cases he with
  | @fault d hd =>
    have hsource : (d.withSource file).source = some file := by
      simp [Diagnostic.withSource, hd.source]
    exact ⟨D.told_withSource (D.told_of_pointsAt hd) _, D.blamed_of_attached hsource hfile⟩
  | unparsed why => trivial

end Interrupt

namespace Eval

/-- Both results are one value, which has a property, or one of some interruptions. -/
inductive EndAlike {α : Type} (G : α → Prop) (J : Interrupt → Prop) (K : Machine → Machine → Prop) :
    EStateM.Result Interrupt Machine α → EStateM.Result Interrupt Machine α → Prop
  | ok {a : α} {m n : Machine} (hvalue : G a) (hmachine : K m n) :
      EndAlike G J K (.ok a m) (.ok a n)
  | error {e : Interrupt} {m n : Machine} (hinterrupt : J e) (hmachine : K m n) :
      EndAlike G J K (.error e m) (.error e n)

section
variable {α : Type} {G H : α → Prop} {J J' : Interrupt → Prop} {K K' : Machine → Machine → Prop}
  {r s : EStateM.Result Interrupt Machine α}

theorem EndAlike.mono (h : EndAlike G J K r s) (hG : ∀ a, G a → H a) (hJ : ∀ e, J e → J' e)
    (hK : ∀ m n, K m n → K' m n) : EndAlike H J' K' r s := by
  cases h with
  | ok ha hmn => exact .ok (hG _ ha) (hK _ _ hmn)
  | error he hmn => exact .error (hJ _ he) (hK _ _ hmn)

theorem EndAlike.allow (h : EndAlike G J K r s) (hJ : ∀ e, J e → J' e) : EndAlike G J' K r s :=
  h.mono (fun _ ha => ha) hJ fun _ _ hmn => hmn

theorem endAlike_iff :
    EndAlike G J K r s ↔ InStep False G (fun e f => e = f ∧ J e) K r s := by
  constructor
  · intro h
    cases h with
    | ok ha hmn => exact .ok ha hmn
    | error he hmn => exact .error ⟨rfl, he⟩ hmn
  · intro h
    cases h with
    | ok ha hmn => exact .ok ha hmn
    | error hef hmn =>
      obtain ⟨rfl, he⟩ := hef
      exact .error he hmn
    | lost hforgiving _ => exact hforgiving.elim

theorem EndAlike.refl (m : Machine) (p : Eval α) :
    EndAlike (fun _ => True) (fun _ => True) Eq (p m) (p m) := by
  cases p m with
  | ok a n => exact .ok trivial rfl
  | error e n => exact .error trivial rfl

theorem EndAlike.trans {t : EStateM.Result Interrupt Machine α} (h : EndAlike G J K r s)
    (h' : EndAlike H J' K' s t) :
    EndAlike (fun a => G a ∧ H a) (fun e => J e ∧ J' e) (Relation.Comp K K') r t := by
  cases h with
  | ok ha hmn =>
    cases h' with
    | ok hb hnk => exact .ok ⟨ha, hb⟩ ⟨_, hmn, hnk⟩
  | error he hmn =>
    cases h' with
    | error hf hnk => exact .error ⟨he, hf⟩ ⟨_, hmn, hnk⟩

/-- Runs that end alike are in step, whatever interruptions are alike besides. -/
theorem EndAlike.inStep {forgiving : Prop} {J' : Interrupt → Interrupt → Prop}
    (h : EndAlike G J K r s) (hJ : ∀ e, J e → J' e e) : InStep forgiving G J' K r s := by
  cases h with
  | ok ha hmn => exact .ok ha hmn
  | error he hmn => exact .error (hJ _ he) hmn

theorem EndAlike.bind {β : Type} {H : β → Prop} {p q : Eval α} {f g : α → Eval β} {m n : Machine}
    (h : EndAlike G J K (p m) (q n))
    (hok : ∀ a m n, G a → K m n → EndAlike H J' K' (f a m) (g a n))
    (herror : ∀ e, J e → J' e) (hK : ∀ m n, K m n → K' m n) :
    EndAlike H J' K' ((p >>= f) m) ((q >>= g) n) :=
  endAlike_iff.mpr ((endAlike_iff.mp h).bind
    (fun a m n ha hmn => endAlike_iff.mp (hok a m n ha hmn))
    (fun e _ hef => ⟨hef.1, herror e hef.2⟩) hK)

/-! ## Computations that only warn -/

theorem checked_ends {P : Span → Prop} {p : Checked α} {m n : Machine} (hp : p.Gives G)
    (hreports : p.Reports P) (hscript : m.context.script = n.context.script)
    (hnoted : ∀ ds : List Diagnostic, (∀ d ∈ ds, d.PointsAt P) →
      K (m.noteAll m.context.script.source ds) (n.noteAll m.context.script.source ds)) :
    EndAlike G (Interrupt.FaultAt P) K (checked p m) (checked p n) := by
  have htold := hreports #[] (by simp)
  unfold checked
  rw [← hscript]
  cases hrun : p #[] with
  | ok a warnings =>
    rw [hrun] at htold
    dsimp only
    split
    · exact .ok (hp _ _ _ hrun) (hnoted [] (by simp))
    · exact .ok (hp _ _ _ hrun) (hnoted _ (by simpa using htold))
  | error d warnings =>
    rw [hrun] at htold
    exact .error (.fault htold.1) (hnoted _ (by simpa using htold.2))

theorem readTokens_eq (file : SourceFile) (start : Position) (m : Machine) :
    readTokens file start m =
      match (lexFrom file start m.names).outcome with
      | .error d =>
        .error (.fatal (d.withSource file))
          (m.lexed file (lexFrom file start m.names).names (lexFrom file start m.names).warnings
            m.logging)
      | .ok lexed =>
        .ok lexed.tokens
          (m.lexed file (lexFrom file start m.names).names (lexFrom file start m.names).warnings
            (lexed.pragmas.foldl (fun _ p => p = .log) m.logging)) := by
  unfold readTokens
  generalize lexFrom file start m.names = result
  have hnoted : { m with names := result.names }.noteAll file result.warnings =
      m.lexed file result.names result.warnings m.logging := by
    unfold Machine.lexed
    rw [Machine.noteAll_eq]
  dsimp only
  rw [hnoted]
  cases result.outcome <;> rfl

theorem readTokens_ends {file : SourceFile} {start : Position}
    (hstart : file.positionAt start.offset = start) {m n : Machine} (hnames : m.names = n.names)
    (hlogging : m.logging = n.logging)
    (hlexed : ∀ names (ds : List Diagnostic) logging, (∀ d ∈ ds, d.PointsAt (Span.LiesIn file)) →
      K (m.lexed file names ds logging) (n.lexed file names ds logging)) :
    EndAlike (fun tokens => ∀ token ∈ tokens, token.span.LiesIn file)
      (Interrupt.Unread file (Span.LiesIn file)) K (readTokens file start m)
      (readTokens file start n) := by
  have hplaced := lexFrom_placed n.names hstart
  rw [readTokens_eq, readTokens_eq, hnames, hlogging]
  cases houtcome : (lexFrom file start n.names).outcome with
  | error d => exact .error (.fault (hplaced.fault d houtcome)) (hlexed _ _ _ hplaced.warnings)
  | ok lexed => exact .ok (hplaced.tokens lexed houtcome) (hlexed _ _ _ hplaced.warnings)

theorem readScript_ends {P : Span → Prop} (hP : Span.Closed P) (file : SourceFile)
    {tokens : List Token} (htokens : ∀ token ∈ tokens, P token.span) {m n : Machine}
    (hnames : m.names = n.names)
    (hnoted : ∀ ds : List Diagnostic, (∀ d ∈ ds, d.PointsAt P) →
      K (m.noteAll file ds) (n.noteAll file ds)) :
    EndAlike (fun _ => True) (Interrupt.Unread file P) K (readScript file tokens m)
      (readScript file tokens n) := by
  unfold readScript
  rw [← hnames]
  rcases parse_keeps hP m.names htokens with ⟨count, -, hparse⟩ | ⟨parsed, hparse, hkeeps⟩
  · rw [hparse]
    exact .error (.unparsed _) (hnoted [] (by simp))
  · rw [hparse]
    have herror := hkeeps.error
    dsimp only
    cases hfault : parsed.error with
    | some d => exact .error (.fault (herror d hfault)) (hnoted _ hkeeps.warnings)
    | none => exact .ok trivial (hnoted _ hkeeps.warnings)

theorem readScript_of_readWhole {file : SourceFile} {script : Script} {m n : Machine}
    (h : readWhole file m = .ok script n) :
    ∃ tokens k, readTokens file Position.start m = .ok tokens k ∧
      readScript file tokens k = .ok script n := by
  unfold readWhole at h
  rw [bind_apply] at h
  split at h
  · rename_i tokens k hread
    exact ⟨tokens, k, hread, h⟩
  · cases h

end

/-! ## What surrounds a run -/

/-- A run whose value and whose interruptions go through handlers. A handler may stop an
interruption, or it passes one on. -/
def handled {α β : Type} (value : α → β) (handle : Context → Interrupt → Interrupt ⊕ β)
    (p : Eval α) : Eval β := fun m =>
  match p m with
  | .ok a m => .ok (value a) m
  | .error e m =>
    match handle m.context e with
    | .inl e => .error e m
    | .inr b => .ok b m

section
variable (p : Eval Value)

theorem completeFault_eq (complete : Context → Diagnostic → Diagnostic) :
    Eval.completeFault complete p =
      handled id (fun here e => .inl (e.completed (complete here))) p := by
  funext m
  unfold Eval.completeFault handled
  cases p m with
  | ok v m => rfl
  | error e m => cases e <;> rfl

theorem returning_eq : Eval.returning p = handled id (fun _ e => e.afterReturn) p := by
  funext m
  unfold Eval.returning handled
  cases p m with
  | ok v m => rfl
  | error e m => cases e <;> rfl

theorem stoppedAtTop_eq : Eval.stoppedAtTop p = handled id (fun _ e => e.atTop) p := by
  funext m
  unfold Eval.stoppedAtTop handled
  cases p m with
  | ok v m => rfl
  | error e m => cases e <;> rfl

theorem runBody_eq (label : Option Name) :
    Eval.runBody label p = handled (fun _ => .next) (fun _ e => e.afterBody label) p := by
  funext m
  unfold Eval.runBody handled
  cases p m with
  | ok v m => rfl
  | error e m =>
    cases e with
    | broke signal | continued signal =>
      dsimp only [Interrupt.afterBody]
      split <;> rfl
    | _ => rfl

end

section
variable {forgiving : Prop} {J J' : Interrupt → Interrupt → Prop} {K K' : Machine → Machine → Prop}
  {m n : Machine}

theorem InStep.elsewhere {G : Value → Prop} {p q : Eval Value} {enter enter' : Context → Context}
    {leave : Context → Context → Context}
    (h : InStep forgiving G J K (p { m with context := enter m.context })
      (q { n with context := enter' n.context }))
    (hleave : ∀ m' n', K m' n' →
      K' { m' with context := leave m.context m'.context }
        { n' with context := leave n.context n'.context }) :
    InStep forgiving G J K' (Eval.elsewhere enter leave p m) (Eval.elsewhere enter' leave q n) := by
  unfold Eval.elsewhere
  dsimp only
  generalize p _ = r at h ⊢
  generalize q _ = s at h ⊢
  cases h with
  | ok ha hmn => exact .ok ha (hleave _ _ hmn)
  | error hef hmn => exact .error hef (hleave _ _ hmn)
  | lost hforgiving hlost =>
    cases hlost
    exact .lost hforgiving (.outOfLevels _)

/-- Handlers that treat like interruptions alike, and let those pass that are out of levels. -/
theorem InStep.handled {α β : Type} {G : α → Prop} {H : β → Prop} {value : α → β}
    {handle : Context → Interrupt → Interrupt ⊕ β} {p q : Eval α}
    (h : InStep forgiving G J K (p m) (q n)) (hvalue : ∀ a, G a → H (value a))
    (hhandle : ∀ e f m n, J e f → K m n →
      Sum.LiftRel J' (fun a b => a = b ∧ H a) (handle m.context e) (handle n.context f))
    (hlost : ∀ here, handle here (.givenUp .outOfLevels) = .inl (.givenUp .outOfLevels)) :
    InStep forgiving H J' K (Eval.handled value handle p m) (Eval.handled value handle q n) := by
  unfold Eval.handled
  generalize p m = r at h ⊢
  generalize q n = s at h ⊢
  cases h with
  | ok ha hmn => exact .ok (hvalue _ ha) hmn
  | @error e f m n hef hmn =>
    have hlift := hhandle e f m n hef hmn
    dsimp only
    generalize handle m.context e = x at hlift ⊢
    generalize handle n.context f = y at hlift ⊢
    cases hlift with
    | inl hpassed => exact .error hpassed hmn
    | inr hstopped =>
      obtain ⟨rfl, hvalue⟩ := hstopped
      exact .ok hvalue hmn
  | lost hforgiving hrun =>
    cases hrun
    simp only [hlost]
    exact .lost hforgiving (.outOfLevels _)

theorem InStep.completeFault {G : Value → Prop} {p q : Eval Value}
    (complete : Context → Diagnostic → Diagnostic) (h : InStep forgiving G J K (p m) (q n))
    (hJ : ∀ e f m n, J e f → K m n →
      J' (e.completed (complete m.context)) (f.completed (complete n.context))) :
    InStep forgiving G J' K (Eval.completeFault complete p m)
      (Eval.completeFault complete q n) := by
  rw [completeFault_eq, completeFault_eq]
  exact h.handled (fun _ hv => hv) (fun e f m n hef hmn => .inl (hJ e f m n hef hmn)) fun _ => rfl

end

section
variable {G : Value → Prop} {J J' : Interrupt → Prop} {K K' : Machine → Machine → Prop}
  {p q : Eval Value} {m n : Machine}

theorem EndAlike.elsewhere {enter : Context → Context} {leave : Context → Context → Context}
    (h : EndAlike G J K (p { m with context := enter m.context })
      (q { n with context := enter n.context }))
    (hleave : ∀ m' n', K m' n' →
      K' { m' with context := leave m.context m'.context }
        { n' with context := leave n.context n'.context }) :
    EndAlike G J K' (Eval.elsewhere enter leave p m) (Eval.elsewhere enter leave q n) :=
  endAlike_iff.mpr ((endAlike_iff.mp h).elsewhere hleave)

theorem EndAlike.handled {α β : Type} {G : α → Prop} {H : β → Prop} {value : α → β}
    {handle : Context → Interrupt → Interrupt ⊕ β} {p q : Eval α}
    (h : EndAlike G J K (p m) (q n)) (hvalue : ∀ a, G a → H (value a))
    (hhandle : ∀ e m n, J e → K m n → handle m.context e = handle n.context e ∧
      ((∃ e', handle m.context e = .inl e' ∧ J' e') ∨ ∃ b, handle m.context e = .inr b ∧ H b))
    (hlost : ∀ here, handle here (.givenUp .outOfLevels) = .inl (.givenUp .outOfLevels)) :
    EndAlike H J' K (Eval.handled value handle p m) (Eval.handled value handle q n) := by
  refine endAlike_iff.mpr ((endAlike_iff.mp h).handled hvalue ?_ hlost)
  rintro e _ m n ⟨rfl, he⟩ hmn
  obtain ⟨hsame, hhandled⟩ := hhandle e m n he hmn
  rw [← hsame]
  rcases hhandled with ⟨e', heq, he'⟩ | ⟨b, heq, hb⟩
  · rw [heq]
    exact .inl ⟨rfl, he'⟩
  · rw [heq]
    exact .inr ⟨rfl, hb⟩

theorem EndAlike.completeFault (complete : Context → Diagnostic → Diagnostic)
    (h : EndAlike G J K (p m) (q n))
    (hsame : ∀ m n, K m n → complete m.context = complete n.context)
    (hfatal : ∀ d m n, J (.fatal d) → K m n → J' (.fatal (complete m.context d)))
    (hrest : ∀ e, J e → (∃ d, e = .fatal d) ∨ J' e) :
    EndAlike G J' K (Eval.completeFault complete p m) (Eval.completeFault complete q n) := by
  rw [completeFault_eq, completeFault_eq]
  refine h.handled (fun _ hv => hv) (fun e m n he hmn => ?_) fun _ => rfl
  refine ⟨by rw [hsame m n hmn], .inl ⟨_, rfl, ?_⟩⟩
  cases e with
  | fatal d => exact hfatal d m n he hmn
  | _ => exact (hrest _ he).resolve_left (by simp)

theorem EndAlike.returning (h : EndAlike G J K (p m) (q n))
    (hreturned : ∀ v, J (.returned v) → G v) :
    EndAlike G J K (Eval.returning p m) (Eval.returning q n) := by
  rw [returning_eq, returning_eq]
  refine h.handled (fun _ hv => hv) (fun e m n he hmn => ⟨rfl, ?_⟩) fun _ => rfl
  cases e with
  | returned v => exact .inr ⟨v, rfl, hreturned v he⟩
  | _ => exact .inl ⟨_, rfl, he⟩

theorem EndAlike.stoppedAtTop (h : EndAlike G J K (p m) (q n)) (hnull : G .null)
    (hrest : ∀ e, J e → (∃ label, e = .broke label ∨ e = .continued label) ∨ J' e) :
    EndAlike G J' K (Eval.stoppedAtTop p m) (Eval.stoppedAtTop q n) := by
  rw [stoppedAtTop_eq, stoppedAtTop_eq]
  refine h.handled (fun _ hv => hv) (fun e m n he hmn => ⟨rfl, ?_⟩) fun _ => rfl
  cases e with
  | broke label | continued label => exact .inr ⟨.null, rfl, hnull⟩
  | _ => exact .inl ⟨_, rfl, (hrest _ he).resolve_left (by simp)⟩

theorem EndAlike.runBody (label : Option Name) (h : EndAlike G J K (p m) (q n))
    (hpass : ∀ e, J e →
      (∃ signal, (e = .broke signal ∨ e = .continued signal) ∧ aimsAt label signal = true) ∨ J' e) :
    EndAlike (fun _ => True) J' K (Eval.runBody label p m) (Eval.runBody label q n) := by
  rw [runBody_eq, runBody_eq]
  refine h.handled (fun _ _ => trivial) (fun e m n he hmn => ⟨rfl, ?_⟩) fun _ => rfl
  have hrest := hpass e he
  cases e with
  | broke signal | continued signal =>
    dsimp only [Interrupt.afterBody]
    split
    · exact .inr ⟨_, rfl, trivial⟩
    · rename_i haims
      exact .inl ⟨_, rfl, hrest.resolve_left (by simpa using haims)⟩
  | _ => exact .inl ⟨_, rfl, hrest.resolve_left (by simp)⟩

/-! ### Where any fault may end a run -/

section
variable (hfault : ∀ d, J (.fatal d))

include hfault

theorem EndAlike.completed (complete : Context → Diagnostic → Diagnostic)
    (h : EndAlike G J K (p m) (q n))
    (hsame : ∀ k l, K k l → complete k.context = complete l.context) :
    EndAlike G J K (Eval.completeFault complete p m) (Eval.completeFault complete q n) :=
  h.completeFault complete hsame (fun _ _ _ _ _ => hfault _) fun _ he => .inr he

theorem EndAlike.sourced (h : EndAlike G J K (p m) (q n))
    (hscript : ∀ k l, K k l → k.context.script = l.context.script) :
    EndAlike G J K (Eval.sourced p m) (Eval.sourced q n) :=
  h.completed hfault (fun here d => d.withSource here.script.source) fun k l hkl => by
    rw [hscript k l hkl]

theorem EndAlike.duringCall (frame : TraceFrame) (hcalls : m.context.calls = n.context.calls)
    (h : ∀ calls, EndAlike G J K (p { m with context := { m.context with calls } })
      (q { n with context := { n.context with calls } }))
    (hinside : ∀ k l, K k l → k.context.calls = l.context.calls) (houtside : K' m n)
    (hleave : ∀ k l calls, K k l →
      K' { k with context := { k.context with calls } }
        { l with context := { l.context with calls } }) :
    EndAlike G J K' (Eval.duringCall frame p m) (Eval.duringCall frame q n) := by
  unfold Eval.duringCall
  rw [← hcalls]
  cases m.context.calls.push frame with
  | error d => exact .error (hfault d) houtside
  | ok calls =>
    have hcode := (h calls).completed hfault (fun here d => here.calls.attach d) fun k l hkl => by
      rw [hinside k l hkl]
    apply hcode.elsewhere
    intro k l hkl
    rw [hinside k l hkl]
    exact hleave k l _ hkl

theorem EndAlike.inFunction {f : Function}
    (h : EndAlike G J K
      (inChildOf f.closure p
        { m with
          context := { m.context with script := f.script, functions := m.context.functions + 1 } })
      (inChildOf f.closure q
        { n with
          context := { n.context with script := f.script, functions := n.context.functions + 1 } }))
    (hscript : ∀ k l, K k l → k.context.script = l.context.script)
    (hreturned : ∀ v, J (.returned v) → G v)
    (hleave : ∀ k l, K k l →
      K'
        { k with
          context :=
            { k.context with script := m.context.script, functions := k.context.functions - 1 } }
        { l with
          context :=
            { l.context with script := n.context.script, functions := l.context.functions - 1 } }) :
    EndAlike G J K' (Eval.inFunction f p m) (Eval.inFunction f q n) :=
  ((h.sourced hfault hscript).returning hreturned).elsewhere hleave

theorem EndAlike.inProgram {script : Script}
    (h : EndAlike G J K
      (p { m with context := { m.context with scope := .root, script, functions := 0 } })
      (q { n with context := { n.context with scope := .root, script, functions := 0 } }))
    (hscript : ∀ k l, K k l → k.context.script = l.context.script) (hnull : G .null)
    (hleave : ∀ k l, K k l →
      K' { k with context := { m.context with calls := k.context.calls } }
        { l with context := { n.context with calls := l.context.calls } }) :
    EndAlike G J K' (Eval.inProgram script p m) (Eval.inProgram script q n) :=
  ((h.sourced hfault hscript).stoppedAtTop hnull fun _ he => .inr he).elsewhere hleave

end

end
end Eval

/-- Where like interruptions are equal, runs in step are runs that end alike. -/
theorem Simulation.rel_iff {S : Simulation} [S.Strict] {region : S.Region} {setting : S.Setting}
    {α : Type} {G : α → Prop} {J : Interrupt → Prop} {p q : Eval α}
    (hinterrupt : ∀ e f, S.interrupt region setting e f ↔ e = f ∧ J e) :
    S.Rel region setting G p q ↔ ∀ m n, S.related region setting m n →
      Eval.EndAlike G J (S.related region setting) (p m) (q n) := by
  refine forall_congr' fun m => forall_congr' fun n => imp_congr_right fun _ => ?_
  refine ⟨fun h => ?_, fun h => h.inStep fun e he => (hinterrupt e e).mpr ⟨rfl, he⟩⟩
  generalize p m = r at h ⊢
  generalize q n = s at h ⊢
  cases h with
  | ok ha hmn => exact .ok ha hmn
  | error hef hmn =>
    obtain ⟨rfl, he⟩ := (hinterrupt _ _).mp hef
    exact .error he hmn
  | lost hforgiving _ => exact absurd hforgiving Strict.strict

end ExprScript
