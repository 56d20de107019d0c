import ExprScript.Proofs.Evaluation.Endings
import ExprScript.Proofs.Evaluation.Visits
import ExprScript.Proofs.Scopes
import ExprScript.Proofs.Token.Spans

/-!
# Sound machines

Whatever runs, a run ends in the context in which it started, never has more calls in progress than
the limit, and keeps variables in their types and code in its discipline. One simulation with one
machine on both sides says all of this.
-/
namespace ExprScript

/-! ## The limit of calls -/

namespace CallStack

/-- Whether the calls in progress stay within a limit, which is that of the stack. -/
structure Bounded (max : Option Nat) (stack : CallStack) : Prop where
  limit : stack.limit = max
  frames : ∀ bound ∈ max, stack.frames.length ≤ bound

theorem limit_of_push {stack grown : CallStack} {frame : TraceFrame}
    (h : stack.push frame = .ok grown) : grown.limit = stack.limit := by
  unfold push at h
  split at h
  · split at h
    · cases h
    · cases h
      rfl
  · cases h
    rfl

theorem error_of_push {stack : CallStack} {frame : TraceFrame} {d : Diagnostic}
    (h : stack.push frame = .error d) :
    ∃ message, d = Fault.illegalValue frame.callSpan message := by
  unfold push at h
  split at h
  · split at h
    · cases h
      exact ⟨_, rfl⟩
    · cases h
  · cases h

theorem Bounded.push {max : Option Nat} {stack grown : CallStack} {frame : TraceFrame}
    (h : stack.Bounded max) (hpush : stack.push frame = .ok grown) : grown.Bounded max where
  limit := by rw [limit_of_push hpush, h.limit]
  frames bound hbound := (frames_of_push hpush).2 bound (by rw [h.limit]; exact hbound)

end CallStack

/-! ## The invariant -/

variable {D : Discipline} {max : Option Nat}

structure Machine.Stands (D : Discipline) (max : Option Nat) (region : D.Region) (here : Context)
    (m : Machine) : Prop where
  context : m.context = here
  script : here.script = D.scriptOf region
  calls : here.calls.Bounded max
  scopes : m.scopes.Sound D.function
  files : ∀ path text, m.host.read? path = some (.ok text) → D.file ⟨path, text⟩
  notices : ∀ d ∈ m.notices, D.told d

/-- The invariant is about nothing but the context, the scopes, the files and the notices. -/
theorem Machine.Stands.of_eq {region : D.Region} {here : Context} {m n : Machine}
    (hm : m.Stands D max region here)
    (h : (n.context, n.scopes, n.host.read?, n.notices) =
      (m.context, m.scopes, m.host.read?, m.notices)) :
    n.Stands D max region here := by
  obtain ⟨hcontext, hscopes, hfiles, hnotices⟩ : _ ∧ _ ∧ _ ∧ _ := by simpa using h
  exact ⟨hcontext ▸ hm.context, hm.script, hm.calls, hscopes ▸ hm.scopes, hfiles ▸ hm.files,
    hnotices ▸ hm.notices⟩

theorem Machine.Stands.noteAll {region : D.Region} {here : Context} {m : Machine}
    (hm : m.Stands D max region here) {file : SourceFile} {ds : List Diagnostic}
    (hds : ∀ d ∈ ds, d.PointsAt (D.placed file)) :
    (m.noteAll file ds).Stands D max region here := by
  have heq := m.noteAll_eq file ds
  refine ⟨?_, hm.script, hm.calls, ?_, ?_, fun d hd => ?_⟩
  · rw [heq]
    exact hm.context
  · rw [heq]
    exact hm.scopes
  · rw [heq]
    exact hm.files
  · rcases Machine.mem_notices_noteAll hd with hbefore | ⟨noted, hnoted, rfl⟩
    · exact hm.notices d hbefore
    · exact D.told_of_pointsAt (hds noted hnoted)

theorem Machine.Stands.points {region : D.Region} {here : Context} {m : Machine}
    (hm : m.Stands D max region here) {ds : List Diagnostic}
    (hds : ∀ d ∈ ds, d.PointsAt (D.points region)) :
    (m.noteAll m.context.script.source ds).Stands D max region here := by
  refine hm.noteAll ?_
  rw [hm.context, hm.script]
  exact hds

theorem Machine.Stands.runningScript {region : D.Region} {here : Context} {m : Machine}
    (hm : m.Stands D max region here) : m.context.script = D.scriptOf region := by
  rw [hm.context, hm.script]

theorem Machine.Stands.leaveLoop {region : D.Region} {label : Option Name} {here : Context}
    {m : Machine} (hm : m.Stands D max (D.insideLoop label region) here)
    (hscript : D.scriptOf (D.insideLoop label region) = D.scriptOf region) :
    m.Stands D max region here :=
  ⟨hm.context, by rw [hm.script, hscript], hm.calls, hm.scopes, hm.files, hm.notices⟩

namespace Simulation

/-- The invariant of sound machines, as a simulation. -/
def sound (D : Discipline) (max : Option Nat) : Simulation where
  toDiscipline := D
  Setting := Context
  inScope scope here := { here with scope }
  inCall frame here :=
    match here.calls.push frame with
    | .ok calls => { here with calls }
    | .error _ => here
  inFunction f here := { here with script := f.script, functions := here.functions + 1 }
  inProgram script here := { here with scope := .root, script, functions := 0 }
  related region here m n := m = n ∧ m.Stands D max region here
  interrupt region _ e f := e = f ∧ D.allowed region e

instance : (sound D max).Strict := ⟨id⟩

theorem sound_isInvariant : (sound D max).IsInvariant where
  machine h := h.1
  interrupt h := h.1

variable {α : Type} {region : D.Region} {here : Context}

theorem sound_rel {G : α → Prop} {p q : Eval α} :
    (sound D max).Rel region here G p q ↔ ∀ m, m.Stands D max region here →
      Eval.EndAlike G (D.allowed region) (fun n k => n = k ∧ n.Stands D max region here)
        (p m) (q m) := by
  refine (rel_iff fun _ _ => Iff.rfl).trans ⟨fun h m hm => h m m ⟨rfl, hm⟩, ?_⟩
  rintro h m _ ⟨rfl, hm⟩
  exact h m hm

theorem sound_of_ok {G : α → Prop} {p : Eval α}
    (h : ∀ m, m.Stands D max region here →
      ∃ a n, p m = .ok a n ∧ G a ∧ n.Stands D max region here) :
    (sound D max).Rel region here G p p := by
  refine sound_rel.mpr fun m hm => ?_
  obtain ⟨a, n, hp, ha, hn⟩ := h m hm
  rw [hp]
  exact .ok ha ⟨rfl, hn⟩

/-! ## Every step keeps it -/

theorem sound_text (name : Name) :
    (sound D max).Rel region here (fun _ => True) (Eval.text name) (Eval.text name) :=
  sound_of_ok fun m hm => ⟨_, m, rfl, trivial, hm⟩

theorem sound_lookup (name : Name) :
    (sound D max).Rel region here (fun entry => ∀ e ∈ entry, D.value e.value)
      (Eval.entry? name) (Eval.entry? name) :=
  sound_of_ok fun m hm => ⟨_, m, rfl, fun _ he => (hm.scopes.lookup he).1, hm⟩

theorem sound_checked {G : α → Prop} {p : Checked α} (hp : p.Gives G)
    (hreports : p.Reports (D.points region)) :
    (sound D max).Rel region here G (Eval.checked p) (Eval.checked p) := by
  refine sound_rel.mpr fun m hm => ?_
  have hends := Eval.checked_ends (K := fun n k => n = k ∧ n.Stands D max region here) hp hreports
    rfl fun ds hds => ⟨rfl, hm.points hds⟩
  exact hends.allow fun _ he => he.allowed

theorem sound_declare {v : Variable} (name : Name) (hv : v.WellTyped) (hvalue : D.value v.value) :
    (sound D max).Rel region here (fun _ => True) (Eval.declare name v) (Eval.declare name v) :=
  sound_of_ok fun _ hm => ⟨_, _, rfl, trivial,
    ⟨hm.context, hm.script, hm.calls, hm.scopes.setVariable _ name hv hvalue, hm.files,
      hm.notices⟩⟩

theorem sound_fault {G : α → Prop} {d : Diagnostic} (hd : d.RaisedAt (D.points region)) :
    (sound D max).Rel region here G (Eval.fault d) (Eval.fault d) :=
  sound_rel.mpr fun _ hm => .error (D.allowed_of_raised hd) ⟨rfl, hm⟩

theorem sound_store (name : Name) {value : Value} {m : Machine}
    (hm : m.Stands D max region here)
    (hfits : value.fits ((m.scopes.type? m.context.scope name).getD .auto) = true)
    (hvalue : D.value value) {span : Span} (hspan : D.points region span) :
    Eval.EndAlike D.value (D.allowed region) (fun n k => n = k ∧ n.Stands D max region here)
      (Eval.store name value span m) (Eval.store name value span m) := by
  unfold Eval.store
  cases htarget : m.scopes.target m.context.scope name with
  | ok found =>
    have hscopes := hm.scopes.store htarget hfits hvalue
    exact .ok hvalue ⟨rfl, hm.context, hm.script, hm.calls, hscopes, hm.files, hm.notices⟩
  | error why =>
    cases why with
    | constant old => exact .ok (hm.scopes.constant_of_target htarget) ⟨rfl, hm⟩
    | undefined => exact .error (D.allowed_of_raised ⟨⟨hspan, rfl⟩, rfl⟩) ⟨rfl, hm⟩

/-- A value is stored in the type that its name has where it is stored, since converting it changes
no scope. -/
theorem sound_storeConverted (name : Name) {value : Value} (hvalue : D.value value) {span : Span}
    (hspan : D.points region span) :
    (sound D max).Rel region here D.value (Eval.storeConverted name value span)
      (Eval.storeConverted name value span) := by
  refine sound_rel.mpr fun m hm => ?_
  have hcoerced := Checked.Gives.and
    (Value.coerce_fits value ((m.scopes.type? m.context.scope name).getD .auto)
      (m.names.lookup name) span)
    (Value.coerce_holds hvalue ((m.scopes.type? m.context.scope name).getD .auto)
      (m.names.lookup name) span)
  have hreports := Value.coerce_reports value ((m.scopes.type? m.context.scope name).getD .auto)
    (m.names.lookup name) hspan
  have hchecked := Eval.checked_ends
    (K := fun n k => n = k ∧ n.Stands D max region here ∧ n = { m with notices := n.notices })
    hcoerced hreports rfl fun ds hds => ⟨rfl, hm.points hds, m.noteAll_eq _ ds⟩
  refine hchecked.bind (f := fun value => Eval.store name value span)
    (g := fun value => Eval.store name value span) ?_ (fun _ he => he.allowed) ?_
  · rintro coerced n _ ⟨hfits, hholds⟩ ⟨rfl, hn, hsame⟩
    refine sound_store name hn ?_ hholds hspan
    rw [hsame]
    exact hfits
  · rintro n _ ⟨rfl, hn, -⟩
    exact ⟨rfl, hn⟩

theorem sound_assign {operand : Operand} {span : Span} (name : Name) (op : AssignOp)
    (hoperand : D.value operand.value) (hright : D.points region operand.span)
    (hspan : D.points region span) :
    (sound D max).Rel region here D.value (Eval.assign name op operand span)
      (Eval.assign name op operand span) := by
  refine (sound_lookup name).bind fun entry hentry => ?_
  cases entry with
  | none => exact (sound_text name).bind fun text _ => sound_fault ⟨⟨hspan, rfl⟩, rfl⟩
  | some entry =>
    have hold := hentry entry rfl
    rcases entry with old | old
    · exact .pure hold
    · cases op with
      | none => exact sound_storeConverted name hoperand hspan
      | some op =>
        have hcombined : (Operate.binary (.arith op) ⟨old.value, span⟩ operand).Gives
            (Value.Holds D.function) := Operate.binary_holds _ hold hoperand
        have hreports : (Operate.binary (.arith op) ⟨old.value, span⟩ operand).Reports
            (D.points region) := Operate.binary_reports (D.placed_closed _) _ hspan hright
        exact (sound_checked hcombined hreports).bind fun updated hupdated =>
          sound_storeConverted name hupdated hspan

theorem sound_readFile (path : String) {span : Span} (hspan : D.points region span) :
    (sound D max).Rel region here (fun text => D.file ⟨path, text⟩) (Eval.readFile path span)
      (Eval.readFile path span) := by
  refine sound_rel.mpr fun m hm => ?_
  unfold Eval.readFile Host.readFile
  cases hread : m.host.read? path with
  | none => exact .error trivial ⟨rfl, hm⟩
  | some answer =>
    cases answer with
    | error cause => exact .error (D.allowed_of_raised ⟨⟨hspan, rfl⟩, rfl⟩) ⟨rfl, hm⟩
    | ok text => exact .ok (hm.files path text hread) ⟨rfl, hm⟩

theorem sound_readTokens {file : SourceFile} {start : Position}
    (hstart : file.positionAt start.offset = start) (hfile : D.blames file) :
    (sound D max).Rel region here (fun tokens => ∀ token ∈ tokens, D.placed file token.span)
      (Eval.readTokens file start) (Eval.readTokens file start) := by
  refine sound_rel.mpr fun m hm => ?_
  have hends := Eval.readTokens_ends (K := fun n k => n = k ∧ n.Stands D max region here) hstart
    (m := m) rfl rfl fun names ds logging hds => by
      have hnamed : Machine.Stands D max region here { m with names } := hm.of_eq rfl
      exact ⟨rfl, (hnamed.noteAll fun d hd => D.pointsAt_placed (hds d hd)).of_eq rfl⟩
  refine hends.mono (fun tokens h token htoken => .inr (h token htoken)) (fun e he => ?_)
    fun _ _ h => h
  have hplaced : e.Unread file (D.placed file) := he.mono fun d hd => D.pointsAt_placed hd
  exact hplaced.allowed hfile

theorem sound_readScript {file : SourceFile} {tokens : List Token}
    (htokens : ∀ token ∈ tokens, D.placed file token.span) (hfile : D.blames file) :
    (sound D max).Rel region here (fun _ => True) (Eval.readScript file tokens)
      (Eval.readScript file tokens) := by
  refine sound_rel.mpr fun m hm => ?_
  have hends := Eval.readScript_ends (K := fun n k => n = k ∧ n.Stands D max region here)
    (D.placed_closed file) file htokens rfl fun ds hds => ⟨rfl, hm.noteAll hds⟩
  exact hends.allow fun _ he => he.allowed hfile

theorem sound_readWhole {file : SourceFile} (hfile : D.file file) :
    (sound D max).Rel region here D.script (Eval.readWhole file) (Eval.readWhole file) := by
  have hstart : file.positionAt Position.start.offset = Position.start :=
    (Span.liesIn_closed file).none.start
  have hread : (sound D max).Rel region here (fun _ => True) (Eval.readWhole file)
      (Eval.readWhole file) :=
    (sound_readTokens hstart hfile.1).bind fun tokens htokens => sound_readScript htokens hfile.1
  refine sound_rel.mpr fun m hm => ?_
  have hends := sound_rel.mp hread m hm
  cases hrun : Eval.readWhole file m with
  | ok script n =>
    rw [hrun] at hends
    cases hends with
    | ok _ hn => exact .ok (hfile.2 m script n hrun) hn
  | error e n =>
    rw [hrun] at hends
    cases hends with
    | error he hn => exact .error he hn

theorem sound_loadScript (path : String) {span : Span} (hspan : D.points region span) :
    (sound D max).Rel region here D.script (Eval.loadScript path span)
      (Eval.loadScript path span) :=
  (sound_readFile path hspan).bind fun _ hfile => sound_readWhole hfile

theorem sound_readLine :
    (sound D max).Rel region here (fun _ => True) Eval.readLine Eval.readLine := by
  refine sound_rel.mpr fun m hm => ?_
  unfold Eval.readLine Host.takeLine
  cases m.host.lines with
  | cons line lines => exact .ok trivial ⟨rfl, hm.of_eq rfl⟩
  | nil =>
    cases m.host.ended with
    | true => exact .ok trivial ⟨rfl, hm.of_eq rfl⟩
    | false => exact .error trivial ⟨rfl, hm⟩

/-! ## The context is put back -/

section
variable {p q : Eval Value}

theorem sound_inChildOf (parent : ScopeId)
    (h : ∀ scope, (sound D max).Rel region { here with scope } D.value p q) :
    (sound D max).Rel region here D.value (Eval.inChildOf parent p) (Eval.inChildOf parent q) := by
  refine sound_rel.mpr fun m hm => ?_
  obtain rfl := hm.context
  have hends := sound_rel.mp (h (m.scopes.child parent).1)
    { m with
      context := { m.context with scope := (m.scopes.child parent).1 }
      scopes := (m.scopes.child parent).2 }
    ⟨rfl, hm.script, hm.calls, hm.scopes.child _, hm.files, hm.notices⟩
  unfold Eval.inChildOf Eval.inScope
  apply hends.elsewhere
  rintro n _ ⟨rfl, hn⟩
  exact ⟨rfl, by simp only [hn.context], hm.script, hm.calls, hn.scopes, hn.files, hn.notices⟩

theorem sound_inNewScope
    (h : ∀ scope, (sound D max).Rel region { here with scope } D.value p q) :
    (sound D max).Rel region here D.value (Eval.inNewScope p) (Eval.inNewScope q) :=
  sound_rel.mpr fun m hm => sound_rel.mp (sound_inChildOf m.context.scope h) m hm

theorem sound_duringCall {frame : TraceFrame} (hframe : D.points region frame.callSpan)
    (h : (sound D max).Rel region ((sound D max).inCall frame here) D.value p q) :
    (sound D max).Rel region here D.value (Eval.duringCall frame p) (Eval.duringCall frame q) := by
  refine sound_rel.mpr fun m hm => ?_
  obtain rfl := hm.context
  dsimp only [sound] at h
  unfold Eval.duringCall
  cases hpush : m.context.calls.push frame with
  | error d =>
    have hd : d.RaisedAt (D.points region) := by
      obtain ⟨message, rfl⟩ := CallStack.error_of_push hpush
      exact ⟨⟨hframe, rfl⟩, rfl⟩
    exact .error (D.allowed_of_raised hd) ⟨rfl, hm⟩
  | ok calls =>
    rw [hpush] at h
    have hends := sound_rel.mp h { m with context := { m.context with calls } }
      ⟨rfl, hm.script, hm.calls.push hpush, hm.scopes, hm.files, hm.notices⟩
    have hcode : Eval.EndAlike D.value (D.allowed region) _ _ _ :=
      hends.completeFault (fun here d => here.calls.attach d) (fun _ _ hnk => hnk.1 ▸ rfl)
        (fun d n _ hd _ => ⟨D.told_withFrames hd.1 n.context.calls.frames,
          D.blamed_withFrames hd.2 n.context.calls.frames⟩) fun _ he => .inr he
    apply hcode.elsewhere
    rintro n _ ⟨rfl, hn⟩
    refine ⟨rfl, ?_, hm.script, hm.calls, hn.scopes, hn.files, hn.notices⟩
    simp only [hn.context, CallStack.pop_of_push hpush]

/-- A fault of code that is run by itself is attached to the text of the code. -/
theorem sound_sourced (h : (sound D max).Rel region here D.value p q) {m : Machine}
    (hm : m.Stands D max region here) :
    Eval.EndAlike D.value (fun e => D.allowed region e ∧ ∀ d, e = .fatal d → D.told d)
      (fun n k => n = k ∧ n.Stands D max region here) (Eval.sourced p m) (Eval.sourced q m) := by
  have hends := sound_rel.mp h m hm
  apply hends.completeFault
  · rintro n _ ⟨rfl, -⟩
    rfl
  · rintro d n _ hd ⟨rfl, hn⟩
    have htold : D.told (d.withSource n.context.script.source) := by
      rw [hn.runningScript]
      exact hd.1
    refine ⟨⟨D.told_withSource htold _, D.blamed_withSource hd.2 _⟩, fun other hother => ?_⟩
    cases hother
    exact htold
  · intro e he
    cases e with
    | fatal d => exact .inl ⟨d, rfl⟩
    | _ => exact .inr ⟨he, fun d hd => by cases hd⟩

theorem sound_inFunction (law : D.Lawful) {f : Function}
    (h : ∀ scope, (sound D max).Rel (D.ofFunction f)
      { (sound D max).inFunction f here with scope } D.value p q) :
    (sound D max).Rel region here D.value (Eval.inFunction f p) (Eval.inFunction f q) := by
  refine sound_rel.mpr fun m hm => ?_
  obtain rfl := hm.context
  have hends := (sound_sourced (sound_inChildOf f.closure h)
    (m := { m with
      context := { m.context with script := f.script, functions := m.context.functions + 1 } })
    ⟨rfl, (law.ofFunction f).symm, hm.calls, hm.scopes, hm.files, hm.notices⟩).returning
    fun v hv => hv.1
  have hcall : Eval.EndAlike D.value (D.allowed region) _ _ _ :=
    hends.allow fun _ he =>
      D.allowed_elsewhere he.1 he.2 fun _ _ hsignal => law.passFunction hsignal
  apply hcall.elsewhere
  rintro n _ ⟨rfl, hn⟩
  refine ⟨rfl, ?_, hm.script, hm.calls, hn.scopes, hn.files, hn.notices⟩
  simp only [hn.context, sound, Nat.add_sub_cancel]

theorem sound_inProgram (law : D.Lawful) {script : Script}
    (h : (sound D max).Rel (D.ofScript script) ((sound D max).inProgram script here) D.value p q) :
    (sound D max).Rel region here D.value (Eval.inProgram script p) (Eval.inProgram script q) := by
  refine sound_rel.mpr fun m hm => ?_
  obtain rfl := hm.context
  have hends := sound_sourced h
    (m := { m with context := { m.context with scope := .root, script, functions := 0 } })
    ⟨rfl, (law.ofScript script).symm, hm.calls, hm.scopes, hm.files, hm.notices⟩
  have hstopped : Eval.EndAlike D.value (D.allowed region) _ _ _ :=
    hends.stoppedAtTop Value.holds_null fun e he => by
      by_cases hsignal : ∃ label, e = .broke label ∨ e = .continued label
      · exact .inl hsignal
      · exact .inr (D.allowed_elsewhere he.1 he.2 fun label hlabel _ =>
          absurd ⟨label, hlabel⟩ hsignal)
  apply hstopped.elsewhere
  rintro n _ ⟨rfl, hn⟩
  refine ⟨rfl, ?_, hm.script, hm.calls, hn.scopes, hn.files, hn.notices⟩
  simp only [hn.context, sound]

theorem sound_runBody (law : D.Lawful) (label : Option Name)
    (h : (sound D max).Rel (D.insideLoop label region) here D.value p q) :
    (sound D max).Rel region here (fun _ => True) (Eval.runBody label p)
      (Eval.runBody label q) := by
  refine sound_rel.mpr fun m hm => ?_
  have hscript := law.insideLoop label region
  have hends := sound_rel.mp h m
    ⟨hm.context, by rw [hm.script, hscript], hm.calls, hm.scopes, hm.files, hm.notices⟩
  have hbody : Eval.EndAlike _ (D.allowed region) _ _ _ :=
    hends.runBody label fun _ he => law.allowed_of_body he
  exact hbody.mono (fun _ ha => ha) (fun _ he => he) fun n k hnk => ⟨hnk.1, hnk.2.leaveLoop hscript⟩

end

theorem sound_lawful [D.Anywhere] (law : D.Lawful) : (sound D max).Lawful where
  discipline := law
  interrupt he := ⟨rfl, allowed_of_raises he⟩
  script h := by
    obtain ⟨rfl, hm⟩ := h
    exact ⟨hm.runningScript, hm.runningScript⟩
  text := sound_text
  lookup := sound_lookup
  outsideFunctions := sound_of_ok fun m hm => ⟨_, m, rfl, fun _ => trivial, hm⟩
  checked := sound_checked
  declare := sound_declare
  assign := sound_assign
  freshId := sound_of_ok fun m hm => ⟨_, _, rfl, trivial, hm.of_eq rfl⟩
  place := sound_of_ok fun m hm =>
    ⟨_, m, rfl, ⟨Discipline.Anywhere.stands (D := D) _ _, hm.runningScript⟩, hm⟩
  onConsole f := sound_of_ok fun m hm => ⟨_, _, rfl, trivial, hm.of_eq rfl⟩
  readLine := sound_readLine
  loadScript path hspan := sound_loadScript path hspan
  inNewScope := sound_inNewScope
  duringCall := sound_duringCall
  inFunction _ := sound_inFunction law
  inProgram _ := sound_inProgram law
  runBody := sound_runBody law

end Simulation
end ExprScript
