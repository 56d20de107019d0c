import ExprScript.Evaluation
import ExprScript.Proofs.Evaluation.Endings
import ExprScript.Proofs.Evaluation.Reports

/-!
# What runs ask for

A run does things on its own and asks for tasks, one after another, and what it asks for next
depends on how the tasks before have ended. If a task ends in an exit or in a fault, nothing else is
asked for and the run ends so as well. A fault that the run raises on its own carries no calls, and
one that leaves a call has the calls in progress put on it if it carries none.
-/
namespace ExprScript

/-- A call that is not let in is a fault of its own. -/
theorem CallStack.bare_of_push {stack : CallStack} {frame : TraceFrame} {d : Diagnostic}
    (h : stack.push frame = .error d) : d.frames = [] := by
  unfold push at h
  split at h
  · split at h
    · cases h
      rfl
    · cases h
  · cases h

/-- A text that cannot be read is at fault outside of all calls. -/
theorem Interrupt.Unread.bare {file : SourceFile} {P : Span → Prop} {e : Interrupt}
    (h : e.Unread file P) (d : Diagnostic) (hd : e = .fatal d) : d.frames = [] := by
  cases h with
  | fault hpoints =>
    cases hd
    exact hpoints.frames
  | unparsed why => cases hd

namespace Eval

abbrev Ending (α : Type) := EStateM.Result Interrupt Machine α

def Ending.calls {α : Type} : Ending α → CallStack
  | .ok _ m | .error _ m => m.context.calls

/-- The end of a run whose context is changed behind it. -/
def Ending.leaving {α : Type} (leave : Context → Context) : Ending α → Ending α
  | .ok a m => .ok a { m with context := leave m.context }
  | .error e m => .error e { m with context := leave m.context }

def Ending.next {α β : Type} (f : (Task → Eval Value) → α → Eval β) (r : Ending α)
    (run : Task → Eval Value) : Ending β :=
  match r with
  | .ok a m => f run a m
  | .error e m => .error e m

/-- The run ends in a fault that carries these calls. -/
def Ending.Fails {α : Type} (r : Ending α) (frames : List TraceFrame) : Prop :=
  ∃ d m, r = .error (.fatal d) m ∧ d.frames = frames

/-- What a fault carries once it has left some calls, around which there are others. -/
def carried (left around frames : List TraceFrame) : List TraceFrame :=
  if left = [] ∨ frames ≠ [] then frames else left ++ around

/-- The end of what a run does on its own: no call is left in progress and a fault carries none. -/
structure Own {α : Type} (calls : CallStack) (r : Ending α) : Prop where
  calls : Ending.calls r = calls
  bare : ∀ frames, r.Fails frames → frames = []

/-- A run that may ask for tasks while some calls are in progress. To do a task it enters the calls
that are given for the task. -/
inductive Asking {α : Type} (entered : Task → List TraceFrame) (calls : CallStack) :
    ((Task → Eval Value) → Ending α) → Prop
  | own {r : Ending α} (h : Own calls r) : Asking entered calls fun _ => r
  | ask (task : Task) (n : Machine) (rest : Ending Value → (Task → Eval Value) → Ending α)
      (hcalls : n.context.calls.frames = entered task ++ calls.frames)
      (hexited : ∀ status m, ∃ k, ∀ run,
        rest (.error (.exited status) m) run = .error (.exited status) k)
      (hfatal : ∀ d m, m.context.calls = n.context.calls → ∃ d' k,
        (∀ run, rest (.error (.fatal d) m) run = .error (.fatal d') k) ∧
          k.context.calls = calls ∧ d'.frames = carried (entered task) calls.frames d.frames)
      (hrest : ∀ r : Ending Value, r.calls = n.context.calls → (∀ frames, ¬r.Fails frames) →
        Asking entered calls (rest r)) :
      Asking entered calls fun run => rest (run task n) run

/-- From every machine a run asks for its tasks one after another. -/
def Asks {α : Type} (entered : Task → List TraceFrame) (p : (Task → Eval Value) → Eval α) : Prop :=
  ∀ m : Machine, Asking entered m.context.calls fun run => p run m

section
variable {α β : Type} {entered : Task → List TraceFrame} {calls : CallStack}
  {p : (Task → Eval Value) → Eval α} {f : (Task → Eval Value) → α → Eval β}

/-! ## Ends of runs -/

theorem Own.ok {a : α} {m : Machine} (h : m.context.calls = calls) : Own calls (.ok a m) :=
  ⟨h, by rintro _ ⟨_, _, ⟨⟩, _⟩⟩

theorem Own.error {e : Interrupt} {m : Machine} (h : m.context.calls = calls)
    (he : ∀ d, e = .fatal d → d.frames = []) : Own calls (.error e m : Ending α) := by
  refine ⟨h, ?_⟩
  rintro _ ⟨d, _, ⟨⟩, rfl⟩
  exact he d rfl

theorem Own.of_ends {G : α → Prop} {J : Interrupt → Prop} {r s : Ending α}
    (h : EndAlike G J (fun k _ => k.context.calls = calls) r s)
    (hJ : ∀ e d, J e → e = .fatal d → d.frames = []) : Own calls r := by
  cases h with
  | ok _ hcalls => exact .ok hcalls
  | error he hcalls => exact .error hcalls fun d hd => hJ _ d he hd

theorem Own.bind {p : Eval α} {f : α → Eval β} {m : Machine} (hp : Own calls (p m))
    (hf : ∀ a k, k.context.calls = calls → Own calls (f a k)) : Own calls ((p >>= f) m) := by
  rw [bind_apply]
  generalize p m = r at hp ⊢
  cases r with
  | ok a k => exact hf a k hp.calls
  | error e k => exact .error hp.calls fun d hd => hp.bare _ ⟨d, k, hd ▸ rfl, rfl⟩

/-- A run that goes on in some way after another one, unless that ends in an exit or a fault. -/
theorem Asking.andThen {F : (Task → Eval Value) → Ending α} (h : Asking entered calls F)
    (g : Ending α → (Task → Eval Value) → Ending β)
    (hexited : ∀ status m, ∃ k, ∀ run,
      g (.error (.exited status) m) run = .error (.exited status) k)
    (hfatal : ∀ d m, m.context.calls = calls → ∃ d' k,
      (∀ run, g (.error (.fatal d) m) run = .error (.fatal d') k) ∧
        k.context.calls = calls ∧ d'.frames = d.frames)
    (hrest : ∀ r : Ending α, r.calls = calls → (∀ frames, ¬r.Fails frames) →
      Asking entered calls (g r)) :
    Asking entered calls fun run => g (F run) run := by
  induction h with
  | @own r h =>
    by_cases hfails : ∃ frames, r.Fails frames
    · obtain ⟨frames, d, m, rfl, rfl⟩ := hfails
      obtain ⟨d', k, hrun, hcalls, hframes⟩ := hfatal d m h.calls
      have hsame : (fun run => g (.error (.fatal d) m) run) = fun _ => .error (.fatal d') k :=
        funext hrun
      rw [hsame]
      refine .own (.error hcalls ?_)
      rintro _ ⟨⟩
      exact hframes.trans (h.bare _ ⟨d, m, rfl, rfl⟩)
    · exact hrest r h.calls (not_exists.mp hfails)
  | ask task n rest hcalls hexited' hfatal' _ ih =>
    refine .ask task n (fun r run => g (rest r run) run) hcalls (fun status m => ?_)
      (fun d m hm => ?_) ih
    · obtain ⟨k, hk⟩ := hexited' status m
      obtain ⟨l, hl⟩ := hexited status k
      exact ⟨l, fun run => by rw [hk, hl]⟩
    · obtain ⟨d', k, hk, hcalls', hframes⟩ := hfatal' d m hm
      obtain ⟨d'', l, hl, hcalls'', hframes'⟩ := hfatal d' k hcalls'
      exact ⟨d'', l, fun run => by rw [hk, hl], hcalls'', hframes'.trans hframes⟩

theorem bind_eq_next (run : Task → Eval Value) (m : Machine) :
    (p run >>= f run) m = Ending.next f (p run m) run := by
  rw [bind_apply]
  cases p run m <;> rfl

theorem Asks.bind (hp : Asks entered p) (hf : ∀ a, Asks entered fun run => f run a) :
    Asks entered fun run => p run >>= f run := by
  intro m
  simp only [bind_eq_next]
  refine (hp m).andThen (Ending.next f) (fun status k => ⟨k, fun _ => rfl⟩)
    (fun d k hk => ⟨d, k, fun _ => rfl, hk, rfl⟩) fun r hr hfails => ?_
  cases r with
  | ok a k =>
    have hcalls : k.context.calls = m.context.calls := hr
    exact hcalls ▸ hf a k
  | error e k => exact .own (.error hr fun d hd => absurd ⟨d, k, hd ▸ rfl, rfl⟩ (hfails _))

/-! ## Steps without tasks -/

theorem asks_own {p : Eval α} (h : ∀ m, Own m.context.calls (p m)) : Asks entered fun _ => p :=
  fun m => .own (h m)

theorem asks_pure (a : α) : Asks entered fun _ => (pure a : Eval α) := asks_own fun _ => .ok rfl

theorem asks_throw {e : Interrupt} (he : ∀ d, e = .fatal d → d.frames = []) :
    Asks entered fun _ => (throw e : Eval α) := asks_own fun _ => .error rfl he

theorem asks_fault {d : Diagnostic} (hd : d.frames = []) :
    Asks entered fun _ => (fault d : Eval α) :=
  asks_throw fun _ h => by cases h; exact hd

theorem asks_giveUp (why : GivenUp) : Asks entered fun _ => (giveUp why : Eval α) :=
  asks_throw fun _ h => by cases h

theorem asks_ofExcept {e : Except Diagnostic α} (he : FaultsAt (fun _ => True) e) :
    Asks entered fun _ => ofExcept e := by
  cases e with
  | error d => exact asks_fault (he d rfl).frames
  | ok a => exact asks_pure a

theorem asks_checked {p : Checked α} (hp : p.Reports fun _ => True) :
    Asks entered fun _ => checked p := by
  refine asks_own fun m => ?_
  have hends := checked_ends (G := fun _ => True) (n := m)
    (K := fun k _ => k.context.calls = m.context.calls) (fun _ _ _ _ => trivial) hp rfl
    fun ds _ => by rw [Machine.noteAll_eq]
  refine .of_ends hends fun e d he hd => ?_
  subst hd
  obtain ⟨hd⟩ := he
  exact hd.frames

theorem asks_warn (code : Code) (span : Span) (args : List String) :
    Asks entered fun _ => warn code span args := by
  refine asks_own fun m => .ok ?_
  dsimp only
  rw [Machine.note_eq]

theorem asks_node (id : NodeId) : Asks entered fun _ => node id := by
  refine asks_own fun m => ?_
  unfold node
  split
  · exact .ok rfl
  · exact .error rfl fun _ h => by cases h

theorem asks_spanOf (id : NodeId) : Asks entered fun _ => spanOf id :=
  (asks_node id).bind fun _ => asks_pure _

theorem asks_entries (run : Run α) (table : Arena → Array α) :
    Asks entered fun _ => entries run table := by
  refine asks_own fun m => ?_
  unfold entries
  split
  · exact .ok rfl
  · exact .error rfl fun _ h => by cases h

theorem asks_text (name : Name) : Asks entered fun _ => text name := asks_own fun _ => .ok rfl

theorem asks_here : Asks entered fun _ => here := asks_own fun _ => .ok rfl

theorem asks_outsideFunctions : Asks entered fun _ => outsideFunctions := asks_own fun _ => .ok rfl

theorem asks_lookup (name : Name) : Asks entered fun _ => entry? name := asks_own fun _ => .ok rfl

theorem asks_declaredType (name : Name) : Asks entered fun _ => declaredType name :=
  asks_own fun _ => .ok rfl

theorem asks_store (name : Name) (value : Value) (span : Span) :
    Asks entered fun _ => store name value span := by
  refine asks_own fun m => ?_
  unfold store
  split
  · exact .ok rfl
  · exact .ok rfl
  · exact .error rfl fun _ h => by cases h; rfl

theorem asks_declare (name : Name) (v : Variable) : Asks entered fun _ => declare name v :=
  asks_own fun _ => .ok rfl

theorem asks_freshId : Asks entered fun _ => freshId := asks_own fun _ => .ok rfl

theorem asks_onConsole (f : Console → Console) : Asks entered fun _ => onConsole f :=
  asks_own fun _ => .ok rfl

theorem asks_readLine : Asks entered fun _ => readLine := by
  refine asks_own fun m => ?_
  unfold readLine
  split
  · exact .ok rfl
  · exact .error rfl fun _ h => by cases h

theorem asks_readFile (path : String) (span : Span) : Asks entered fun _ => readFile path span := by
  refine asks_own fun m => ?_
  unfold readFile
  split
  · exact .ok rfl
  · exact .error rfl fun _ h => by cases h; rfl
  · exact .error rfl fun _ h => by cases h

theorem own_readTokens {file : SourceFile} {start : Position}
    (hstart : file.positionAt start.offset = start) (m : Machine) :
    Own m.context.calls (readTokens file start m) := by
  refine .of_ends (readTokens_ends hstart rfl rfl fun names ds logging _ => ?_)
    fun e d he => he.bare d
  unfold Machine.lexed
  rw [Machine.noteAll_eq]

theorem own_readScript (file : SourceFile) (tokens : List Token) (m : Machine) :
    Own m.context.calls (readScript file tokens m) := by
  refine .of_ends (readScript_ends Span.closed_true file (fun _ _ => trivial) rfl fun ds _ => ?_)
    fun e d he => he.bare d
  rw [Machine.noteAll_eq]

theorem asks_loadScript (path : String) (span : Span) :
    Asks entered fun _ => loadScript path span := by
  refine (asks_readFile path span).bind fun content => Asks.bind ?_ fun tokens => ?_
  · exact asks_own (own_readTokens (Span.liesIn_closed _).none.start)
  · exact asks_own (own_readScript _ tokens)

/-! ## Being elsewhere -/

theorem elsewhere_apply (enter : Context → Context) (leave : Context → Context → Context)
    (q : Eval α) (m : Machine) :
    elsewhere enter leave q m =
      Ending.leaving (leave m.context) (q { m with context := enter m.context }) := by
  unfold elsewhere
  dsimp only
  cases q { m with context := enter m.context } <;> rfl

theorem Asks.elsewhere {enter : Context → Context} {leave : Context → Context → Context}
    (henter : ∀ here, (enter here).calls = here.calls)
    (hleave : ∀ before here, (leave before here).calls = here.calls) (hp : Asks entered p) :
    Asks entered fun run => Eval.elsewhere enter leave (p run) := by
  intro m
  have hinside := hp { m with context := enter m.context }
  rw [henter] at hinside
  simp only [elsewhere_apply]
  refine hinside.andThen (fun r _ => Ending.leaving (leave m.context) r)
    (fun status k => ⟨_, fun _ => rfl⟩)
    (fun d k hk => ⟨_, _, fun _ => rfl, (hleave _ _).trans hk, rfl⟩) fun r hr hfails => .own ?_
  cases r with
  | ok a k => exact .ok ((hleave _ _).trans hr)
  | error e k =>
    exact .error ((hleave _ _).trans hr) fun d hd => absurd ⟨d, k, hd ▸ rfl, rfl⟩ (hfails _)

theorem Asks.inScope (hp : Asks entered p) (scope : ScopeId) :
    Asks entered fun run => Eval.inScope scope (p run) :=
  hp.elsewhere (fun _ => rfl) fun _ _ => rfl

theorem Asks.inChildOf (hp : Asks entered p) (parent : ScopeId) :
    Asks entered fun run => Eval.inChildOf parent (p run) :=
  fun m => hp.inScope (m.scopes.child parent).1 { m with scopes := (m.scopes.child parent).2 }

theorem Asks.inNewScope (hp : Asks entered p) : Asks entered fun run => Eval.inNewScope (p run) :=
  fun m => hp.inChildOf m.context.scope m

/-- A handler lets exits and faults pass, of which it may tell more, and raises no faults itself. -/
structure Passes (handle : Context → Interrupt → Interrupt ⊕ β) : Prop where
  exited : ∀ here status, handle here (.exited status) = .inl (.exited status)
  fatal : ∀ here d, ∃ d', handle here (.fatal d) = .inl (.fatal d') ∧ d'.frames = d.frames
  other : ∀ here e d', handle here e = .inl (.fatal d') → ∃ d, e = .fatal d

theorem Asks.handled {value : α → β} {handle : Context → Interrupt → Interrupt ⊕ β}
    (h : Passes handle) (hp : Asks entered p) :
    Asks entered fun run => Eval.handled value handle (p run) := by
  intro m
  refine (hp m).andThen (fun r _ => Eval.handled value handle (fun _ => r) m) (fun status k => ?_)
    (fun d k hk => ?_) fun r hr hfails => .own ?_
  · exact ⟨k, fun _ => by simp [Eval.handled, h.exited]⟩
  · obtain ⟨d', hd', hframes⟩ := h.fatal k.context d
    exact ⟨d', k, fun _ => by simp [Eval.handled, hd'], hk, hframes⟩
  · unfold Eval.handled
    cases r with
    | ok a k => exact .ok hr
    | error e k =>
      dsimp only
      cases hhandle : handle k.context e with
      | inr b => exact .ok hr
      | inl e' =>
        refine .error hr fun d hd => ?_
        obtain ⟨d', rfl⟩ := h.other k.context e d (hd ▸ hhandle)
        exact absurd ⟨d', k, rfl, rfl⟩ (hfails d'.frames)

section
variable {q : (Task → Eval Value) → Eval Value}

theorem Asks.sourced (hq : Asks entered q) : Asks entered fun run => Eval.sourced (q run) := by
  unfold Eval.sourced
  simp only [completeFault_eq]
  exact hq.handled
    { exited := fun _ _ => rfl
      fatal := fun _ _ => ⟨_, rfl, rfl⟩
      other := fun _ e d h => by
        cases e with
        | fatal d => exact ⟨d, rfl⟩
        | _ => cases h }

theorem Asks.returning (hq : Asks entered q) : Asks entered fun run => Eval.returning (q run) := by
  simp only [returning_eq]
  exact hq.handled
    { exited := fun _ _ => rfl
      fatal := fun _ _ => ⟨_, rfl, rfl⟩
      other := fun _ e d h => by
        cases e with
        | fatal d => exact ⟨d, rfl⟩
        | _ => cases h }

theorem Asks.stoppedAtTop (hq : Asks entered q) :
    Asks entered fun run => Eval.stoppedAtTop (q run) := by
  simp only [stoppedAtTop_eq]
  exact hq.handled
    { exited := fun _ _ => rfl
      fatal := fun _ _ => ⟨_, rfl, rfl⟩
      other := fun _ e d h => by
        cases e with
        | fatal d => exact ⟨d, rfl⟩
        | _ => cases h }

theorem Asks.inFunction (hq : Asks entered q) (f : Function) :
    Asks entered fun run => Eval.inFunction f (q run) := by
  refine Asks.elsewhere ?_ ?_ (hq.inChildOf f.closure).sourced.returning
  · exact fun _ => rfl
  · exact fun _ _ => rfl

theorem Asks.inProgram (hq : Asks entered q) (script : Script) :
    Asks entered fun run => Eval.inProgram script (q run) := by
  refine Asks.elsewhere ?_ ?_ hq.sourced.stoppedAtTop
  · exact fun _ => rfl
  · exact fun _ _ => rfl

theorem Asks.runBody (hq : Asks entered q) (label : Option Name) :
    Asks entered fun run => Eval.runBody label (q run) := by
  simp only [runBody_eq]
  exact hq.handled
    { exited := fun _ _ => rfl
      fatal := fun _ _ => ⟨_, rfl, rfl⟩
      other := fun _ e d h => by
        cases e with
        | fatal d => exact ⟨d, rfl⟩
        | broke signal | continued signal =>
          dsimp only [Interrupt.afterBody] at h
          split at h <;> cases h
        | _ => cases h }

end

/-! ## Tasks -/

/-- A task that enters no call ends the run that asks for it as it ends itself. -/
theorem asks_task {task : Task} (h : entered task = []) : Asks entered fun run => run task := by
  refine fun m => .ask task m (fun r _ => r) (by simp [h]) (fun status k => ⟨k, fun _ => rfl⟩)
    (fun d k hk => ⟨d, k, fun _ => rfl, hk, by simp [carried, h]⟩) fun r hr hfails => .own ⟨hr, ?_⟩
  exact fun frames hframes => absurd hframes (hfails frames)

/-- A task in a call: a fault that leaves it carries at least the call. -/
theorem asks_duringCall {task : Task} {frame : TraceFrame} (h : entered task = [frame]) :
    Asks entered fun run => duringCall frame (run task) := by
  intro m
  unfold duringCall
  dsimp only
  cases hpush : m.context.calls.push frame with
  | error d =>
    refine .own (.error rfl ?_)
    rintro _ ⟨⟩
    exact CallStack.bare_of_push hpush
  | ok calls =>
    have hpop : calls.pop = m.context.calls := CallStack.pop_of_push hpush
    have hframes : calls.frames = [frame] ++ m.context.calls.frames :=
      (CallStack.frames_of_push hpush).1
    simp only [elsewhere_apply]
    refine .ask task { m with context := { m.context with calls } }
      (fun r _ => Ending.leaving (fun here => { here with calls := here.calls.pop })
        (completeFault (fun here d => here.calls.attach d) (fun _ => r) m)) ?_ ?_ ?_ ?_
    · rw [h]
      exact hframes
    · exact fun status k => ⟨_, fun _ => rfl⟩
    · intro d k hk
      refine ⟨_, _, fun _ => rfl, ?_, ?_⟩
      · change k.context.calls.pop = _
        rw [hk]
        exact hpop
      · change (d.withFrames k.context.calls.frames).frames = _
        rw [hk]
        by_cases hbare : d.frames = []
        · simp [Diagnostic.withFrames, carried, h, hbare, hframes]
        · simp [Diagnostic.withFrames, carried, hbare]
    · intro r hr hfails
      cases r with
      | ok v k => exact .own (.ok ((congrArg CallStack.pop hr).trans hpop))
      | error e k =>
        cases e with
        | fatal d => exact absurd ⟨d, k, rfl, rfl⟩ (hfails d.frames)
        | _ => exact .own (.error ((congrArg CallStack.pop hr).trans hpop) fun d hd => by cases hd)

end
end Eval
end ExprScript
