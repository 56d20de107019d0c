import ExprScript.Proofs.Evaluation.Soundness
import ExprScript.Proofs.Session.History

/-!
# Sound sessions

Whatever is fed, a session stays sound between inputs, and every run of an input comes only to
machines that are sound. What a run tells and what it leaves waiting lies in the text it comes from,
if that is so of what the front end hands back.
-/
namespace ExprScript

/-- The tokens of an input that waits lie in its text, whatever the source is called. -/
def PendingInput.Placed (pending : PendingInput) : Prop :=
  ∀ token ∈ pending.tokens, ∀ name, token.span.LiesIn ⟨name, pending.text⟩

namespace Discipline

variable (D : Discipline)

def waiting (pending : PendingInput) : Prop := D.strays ∨ pending.Placed

def outcome : RunOutcome → Prop
  | .failed d => D.told d
  | .waiting pending => D.waiting pending
  | .givenUp .outsideArena => D.misses
  | _ => True

def takes : Session.Event → Prop
  | .input input => ∀ pending ∈ input.pending, D.waiting pending
  | .report d => D.told d
  | _ => True

theorem Lax.takes [D.Lax] (event : Session.Event) : D.takes event := by
  cases event with
  | input input => exact fun _ _ => .inl Lax.strays
  | report d => exact .inl Lax.strays
  | _ => trivial

variable {D}

/-- How a run ends that was interrupted, if a fault that leaves it is attached to a text. -/
theorem outcome_ofInterrupt {region : D.Region} {e : Interrupt} (he : D.lenient.allowed region e)
    (hsource : ∀ d, e = .fatal d → d.source.isSome) : D.outcome (.ofInterrupt e) := by
  cases e with
  | fatal d =>
    obtain ⟨file, hfile⟩ := Option.isSome_iff_exists.mp (hsource d rfl)
    refine he.1.imp_right fun ⟨own, hown, hspan⟩ => ⟨own, ?_, hspan⟩
    simpa [Diagnostic.withSource, hfile] using hown
  | givenUp why => cases why <;> exact he
  | _ => trivial

end Discipline

namespace Machine.Stands

variable {D : Discipline} {max : Option Nat} {region : D.Region} {here : Context} {m n : Machine}

theorem lenient (hm : m.Stands D max region here) : m.Stands D.lenient max region here :=
  ⟨hm.context, hm.script, hm.calls, hm.scopes,
    fun path text hread => D.file_lenient (hm.files path text hread), hm.notices⟩

/-- With the files of before a machine is as sound as before. -/
theorem strict (hn : n.Stands D.lenient max region here) (hm : m.Stands D max region here)
    (hhost : n.host = m.host) : n.Stands D max region here :=
  ⟨hn.context, hn.script, hn.calls, hn.scopes, hhost ▸ hm.files, hn.notices⟩

end Machine.Stands

/-! ## Faults are attached -/

namespace Eval

/-- Whether every fault that leaves a computation is attached to a text. -/
def Attaches {α : Type} (p : Eval α) : Prop :=
  ∀ m d n, p m = .error (.fatal d) n → d.source.isSome

theorem attaches_readTokens (file : SourceFile) (start : Position) :
    Attaches (readTokens file start) := by
  intro m d n h
  unfold readTokens at h
  dsimp only at h
  split at h
  · cases h
    exact Diagnostic.source_withSource_isSome _ _
  · cases h

theorem attaches_readScript (file : SourceFile) (tokens : List Token) :
    Attaches (readScript file tokens) := by
  intro m d n h
  unfold readScript at h
  split at h
  · cases h
  · dsimp only at h
    split at h
    · cases h
      exact Diagnostic.source_withSource_isSome _ _
    · cases h

theorem attaches_sourced {p : Eval Value} : Attaches (sourced p) := by
  intro m d n h
  unfold sourced completeFault at h
  split at h
  · cases h
    exact Diagnostic.source_withSource_isSome _ _
  · rename_i hother
    exact absurd h (hother d n)

theorem Attaches.stoppedAtTop {p : Eval Value} (h : Attaches p) : Attaches (stoppedAtTop p) := by
  intro m d n hrun
  unfold Eval.stoppedAtTop at hrun
  split at hrun
  · cases hrun
  · cases hrun
  · exact h m d n hrun

theorem Attaches.elsewhere {p : Eval Value} {enter : Context → Context}
    {leave : Context → Context → Context} (h : Attaches p) :
    Attaches (elsewhere enter leave p) := by
  intro m d n hrun
  unfold Eval.elsewhere at hrun
  dsimp only at hrun
  split at hrun
  · cases hrun
  · rename_i hinner
    cases hrun
    exact h _ _ _ hinner

theorem attaches_program (level : Nat) (script : Script) :
    Attaches (eval level (.program script)) := by
  intro m d n hrun
  cases level with
  | zero => cases hrun
  | succ level =>
    have hprogram :
        runProgram (fun id => eval level (.node id)) script m = .error (.fatal d) n := by
      simpa [eval, runTask] using hrun
    unfold runProgram inProgram at hprogram
    exact attaches_sourced.stoppedAtTop.elsewhere m d n hprogram

end Eval

/-! ## Hosts -/

namespace Eval

/-- Whether a computation leaves the host as it is. -/
def KeepsHost {α : Type} (p : Eval α) : Prop := ∀ m, (after p m).host = m.host

variable {α β : Type}

theorem KeepsHost.pure (a : α) : KeepsHost (Pure.pure a) := fun _ => rfl

theorem KeepsHost.bind {p : Eval α} {f : α → Eval β} (hp : KeepsHost p)
    (hf : ∀ a, KeepsHost (f a)) : KeepsHost (p >>= f) := by
  intro m
  have hfirst := hp m
  unfold after at hfirst ⊢
  rw [bind_apply]
  cases hrun : p m with
  | ok a n =>
    rw [hrun] at hfirst
    exact (hf a n).trans hfirst
  | error e n =>
    rw [hrun] at hfirst
    exact hfirst

theorem keepsHost_readTokens (file : SourceFile) (start : Position) :
    KeepsHost (readTokens file start) := by
  intro m
  unfold after readTokens
  dsimp only
  rw [Machine.noteAll_eq]
  cases (lexFrom file start m.names).outcome <;> rfl

theorem keepsHost_readScript (file : SourceFile) (tokens : List Token) :
    KeepsHost (readScript file tokens) := by
  intro m
  unfold after readScript
  cases parse tokens m.names with
  | error why => rfl
  | ok parsed =>
    dsimp only
    rw [Machine.noteAll_eq]
    cases parsed.error <;> rfl

end Eval

namespace Session

/-! ## Reading -/

variable {D : Discipline} {pending : Option PendingInput}

/-- The tokens of the input that is continued lie in the whole text. -/
theorem placed_earlierTokens (name text : String) (hpending : ∀ p ∈ pending, D.waiting p) :
    ∀ token ∈ earlierTokens pending, D.placed (inputSource name text pending).1 token.span := by
  intro token htoken
  cases pending with
  | none => simp [earlierTokens] at htoken
  | some p =>
    refine (hpending p rfl).imp_right fun hplaced => ?_
    have hline : token.span.LiesIn ⟨name, p.text ++ "\n"⟩ := (hplaced token htoken name).append
    exact hline.append

theorem mem_of_mem_withoutEof {tokens : List Token} {token : Token}
    (h : token ∈ withoutEof tokens) : token ∈ tokens := by
  unfold withoutEof at h
  split at h
  · split at h
    · exact List.dropLast_subset _ h
    · exact h
  · exact h

theorem waiting_of_placed {file : SourceFile} {tokens : List Token}
    (htokens : ∀ token ∈ tokens, D.placed file token.span) :
    D.waiting ⟨withoutEof tokens, file.text⟩ := by
  by_cases hstrays : D.strays
  · exact .inl hstrays
  · refine .inr fun token htoken name => ?_
    exact ((htokens token (mem_of_mem_withoutEof htoken)).resolve_left hstrays).rename

theorem sound_readInput {max : Option Nat} {region : D.Region} {here : Context}
    (name text : String) (mayWait : Bool) (hpending : ∀ p ∈ pending, D.waiting p)
    (hsource : D.blames (inputSource name text pending).1) :
    (Simulation.sound D max).Rel region here (fun read => ∀ p, read = .inl p → D.waiting p)
      (readInput name text pending mayWait) (readInput name text pending mayWait) := by
  have hstart := positionAt_inputSource name text pending
  have hearlier := placed_earlierTokens name text hpending
  unfold readInput
  generalize inputSource name text pending = source at hstart hearlier hsource
  refine (Simulation.sound_readTokens hstart hsource).bind fun tokens htokens => ?_
  have hall : ∀ token ∈ earlierTokens pending ++ tokens, D.placed source.1 token.span := by
    intro token htoken
    rcases List.mem_append.mp htoken with htoken | htoken
    · exact hearlier token htoken
    · exact htokens token htoken
  dsimp only
  split
  · refine Simulation.Rel.pure fun p hp => ?_
    cases hp
    exact waiting_of_placed hall
  · refine (Simulation.sound_readScript hall hsource).bind fun script _ => ?_
    exact Simulation.Rel.pure fun p hp => by cases hp

theorem keepsHost_readInput (name text : String) (pending : Option PendingInput) (mayWait : Bool) :
    Eval.KeepsHost (readInput name text pending mayWait) := by
  unfold readInput
  apply (Eval.keepsHost_readTokens _ _).bind
  intro tokens
  dsimp only
  split
  · exact .pure _
  · exact (Eval.keepsHost_readScript _ _).bind fun script => .pure _

theorem attaches_readInput (name text : String) (pending : Option PendingInput) (mayWait : Bool) :
    Eval.Attaches (readInput name text pending mayWait) := by
  intro m d n h
  rw [readInput_eq] at h
  dsimp only at h
  split at h
  · rename_i hread
    cases h
    exact Eval.attaches_readTokens _ _ _ _ _ hread
  · split at h
    · cases h
    · split at h
      · rename_i hread
        cases h
        exact Eval.attaches_readScript _ _ _ _ _ hread
      · cases h

/-! ## Sound sessions -/

def idleContext (config : SessionConfig) (host : Host) : Context :=
  (Machine.idle config host).context

def Sound (D : Discipline) (config : SessionConfig) (host : Host) (session : Session) : Prop :=
  session.machine.Stands D config.maxCalls (D.ofScript (idleContext config host).script)
    (idleContext config host)

variable {config : SessionConfig} {host : Host} {session : Session}

theorem read?_of_takeLine {host : Host} {taken : Option String × Host}
    (h : host.takeLine = .ok taken) : taken.2.read? = host.read? := by
  unfold Host.takeLine at h
  split at h
  · cases h
    rfl
  · split at h <;> cases h
    rfl

theorem stands_defineConstant {max : Option Nat} {region : D.Region} {here : Context} {m : Machine}
    (h : m.Stands D max region here) (name : String) {value : Value} (hvalue : D.value value) :
    (m.defineConstant name value).Stands D max region here :=
  ⟨h.context, h.script, h.calls, h.scopes.setConstant _ _ hvalue, h.files, h.notices⟩

theorem stands_defineBuiltins {max : Option Nat} {region : D.Region} {here : Context} {m : Machine}
    (h : m.Stands D max region here) (actions : List Action) :
    (actions.foldl Machine.defineBuiltin m).Stands D max region here := by
  induction actions generalizing m with
  | nil => exact h
  | cons action actions ih =>
    have hnumbered : Machine.Stands D max region here { m with nextId := m.nextId + 1 } :=
      h.of_eq rfl
    exact ih (stands_defineConstant hnumbered action.name (Value.holds_builtin ⟨m.nextId, action⟩))

theorem sound_new (law : D.Lawful)
    (hfiles : ∀ path text, host.read? path = some (.ok text) → D.file ⟨path, text⟩) :
    (new config host).Sound D config host := by
  refine stands_defineBuiltins ?_ _
  refine stands_defineConstant ?_ "null" Value.holds_null
  refine stands_defineConstant ?_ "false" (Value.holds_bool _)
  refine stands_defineConstant ?_ "true" (Value.holds_bool _)
  exact ⟨rfl, (law.ofScript _).symm, ⟨rfl, fun _ _ => Nat.zero_le _⟩, Scopes.sound_initial, hfiles,
    by simp [Machine.idle]⟩

/-- Reading an input leaves a sound machine, whatever is wrong with its brackets. -/
theorem Sound.read (h : session.Sound D config host) {input : Input}
    (htakes : D.takes (.input input)) :
    Eval.EndAlike (fun read => ∀ p, read = .inl p → D.waiting p)
      (D.lenient.allowed (D.ofScript (idleContext config host).script))
      (fun n k => n = k ∧ n.Stands D config.maxCalls
        (D.ofScript (idleContext config host).script) (idleContext config host))
      (readInput input.name input.text input.pending input.mayWait session.machine)
      (readInput input.name input.text input.pending input.mayWait session.machine) := by
  have hread := Simulation.sound_rel.mp
    (sound_readInput (D := D.lenient) input.name input.text input.mayWait htakes trivial)
    session.machine h.lenient
  have hhost := keepsHost_readInput input.name input.text input.pending input.mayWait
    session.machine
  unfold Eval.after at hhost
  cases hrun : readInput input.name input.text input.pending input.mayWait session.machine with
  | ok read m =>
    rw [hrun] at hread hhost
    cases hread with
    | ok hwaits hm => exact .ok hwaits ⟨rfl, hm.2.strict h hhost⟩
  | error e m =>
    rw [hrun] at hread hhost
    cases hread with
    | error he hm => exact .error he ⟨rfl, hm.2.strict h hhost⟩

theorem Sound.begins (h : session.Sound D config host) {input : Input}
    (htakes : D.takes (.input input)) {script : Script} {m : Machine}
    (hbegins : session.Begins input script m) :
    m.Stands D config.maxCalls (D.ofScript (idleContext config host).script)
      (idleContext config host) := by
  have hread := h.read htakes
  rw [hbegins] at hread
  cases hread with
  | ok _ hm => exact hm.2

/-- A sound session stays sound when it is fed, and the run ends as runs may. -/
theorem Sound.fed [D.Anywhere] (law : D.Lawful) (h : session.Sound D config host) {input : Input}
    (htakes : D.takes (.input input)) (hscript : session.Reads D.script input) :
    D.outcome (session.feed input).1 ∧ (session.feed input).2.Sound D config host := by
  have hread := h.read htakes
  unfold Sound
  rw [feed_eq]
  cases hrun : readInput input.name input.text input.pending input.mayWait session.machine with
  | error e m =>
    rw [hrun] at hread
    cases hread with
    | error he hm =>
      refine ⟨Discipline.outcome_ofInterrupt he fun d hd => ?_, hm.2⟩
      cases hd
      exact attaches_readInput _ _ _ _ _ _ _ hrun
  | ok read m =>
    cases read with
    | inl waits =>
      rw [hrun] at hread
      cases hread with
      | ok hwaits hm => exact ⟨hwaits waits rfl, hm.2⟩
    | inr script =>
      have htask : D.task (D.ofScript (idleContext config host).script) (.program script) :=
        hscript script m hrun
      have hstart := h.begins htakes hrun
      have hends := Simulation.ends (Simulation.sound_lawful law) htask ⟨rfl, hstart⟩
        (maxLevels script)
      dsimp only [ended]
      cases hvalue : Eval.eval (maxLevels script) (.program script) m with
      | ok value n =>
        rw [hvalue] at hends
        exact ⟨trivial, hends.2.2⟩
      | error e n =>
        rw [hvalue] at hends
        refine ⟨Discipline.outcome_ofInterrupt (D.allowed_lenient hends.1.2) fun d hd => ?_,
          hends.2.2⟩
        cases hd
        exact Eval.attaches_program _ _ _ _ _ hvalue

theorem Sound.react [D.Anywhere] (law : D.Lawful) (h : session.Sound D config host) {event : Event}
    (htakes : D.takes event)
    (hscript : ∀ input, event = .input input → session.Reads D.script input) :
    (session.react event).Sound D config host := by
  cases event with
  | input input => exact (h.fed law htakes (hscript input rfl)).2
  | takeLine =>
    cases htake : session.machine.host.takeLine with
    | error need =>
      simp only [Session.react, htake]
      exact h
    | ok taken =>
      simp only [Session.react, htake]
      exact h.of_eq (by rw [read?_of_takeLine htake])
  | takeNotices =>
    exact ⟨h.context, h.script, h.calls, h.scopes, h.files, by simp [Session.react, takeNotices]⟩
  | print text => exact h.of_eq rfl
  | report d =>
    refine ⟨h.context, h.script, h.calls, h.scopes, h.files, fun other hother => ?_⟩
    rcases Array.mem_push.mp hother with hother | rfl
    · exact h.notices other hother
    · exact htakes

/-! ## Whatever the front end does -/

section
variable [D.Lax] [D.Anywhere]

theorem Sound.afterAll (law : D.Lawful) (h : session.Sound D config host) {events : List Event}
    (hobeys : session.Obeys D.script events) : (session.afterAll events).Sound D config host := by
  induction events generalizing session with
  | nil => exact h
  | cons event events ih =>
    exact ih (h.react law (Discipline.Lax.takes D event) hobeys.1) hobeys.2

/-- What the run of an input comes to. -/
theorem Sound.admits_of_visits (law : D.Lawful) (h : session.Sound D config host) {input : Input}
    (hscript : session.Reads D.script input) {level : Nat} {task : Task} {m : Machine}
    (hvisits : session.Visits input level task m) :
    (Simulation.sound D config.maxCalls).Admits task m := by
  obtain ⟨script, start, hbegins, hvisits⟩ := hvisits
  have hstart : (Simulation.sound D config.maxCalls).Admits (.program script) start :=
    ⟨D.ofScript (idleContext config host).script, idleContext config host,
      hscript script start hbegins, rfl, h.begins (Discipline.Lax.takes D _) hbegins⟩
  exact Simulation.admits_of_visits (Simulation.sound_lawful law) Simulation.sound_isInvariant
    hstart hvisits

end

theorem obeys_any (session : Session) (events : List Event) :
    session.Obeys Discipline.any.script events := by
  induction events generalizing session with
  | nil => trivial
  | cons event events ih => exact ⟨fun _ _ _ _ _ => trivial, ih _⟩

theorem sound_any (config : SessionConfig) (host : Host) (events : List Event) :
    ((new config host).afterAll events).Sound .any config host :=
  (sound_new Discipline.any_lawful fun _ _ _ => Discipline.any_file _).afterAll
    Discipline.any_lawful (obeys_any _ _)

end Session
end ExprScript
