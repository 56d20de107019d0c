import ExprScript.Proofs.Evaluation.Contained
import ExprScript.Proofs.Session.Soundness

/-!
# No node outside its script

Functions outlive the input that defines them, are passed around and are called from other scripts,
and files are run in between. Still all code that a session runs is part of the script that is
current then, and that script is one that the session has read from the current source.
-/
namespace ExprScript

/-- Whether the code of a task is part of a known script: of the current one, or of that of the
function or program that is to run. -/
def Task.StandsIn (known : Script → Prop) (current : Script) : Task → Prop
  | .node id => known current ∧ current.Contains id
  | .body f _ =>
    known f.script ∧ f.script.Contains f.body ∧
      ∀ param ∈ f.params, ∀ default ∈ param.default, f.script.Contains default
  | .native _ _ _ => True
  | .program script => known script

namespace Session

/-- The scripts that a session has read, each with the source that it comes from: an input with the
text that it continues, or a file that the session can see. -/
inductive HasRead (config : SessionConfig) (host : Host) (events : List Event) :
    SourceFile → Script → Prop
  | input {earlier later : List Event} {input : Input} {script : Script} {m : Machine}
      (hevents : events = earlier ++ .input input :: later)
      (hbegins : ((new config host).afterAll earlier).Begins input script m) :
      HasRead config host events (inputSource input.name input.text input.pending).1 script
  | file {path text : String} {script : Script} {m n : Machine}
      (hfile : host.read? path = some (.ok text))
      (hread : Eval.readWhole ⟨path, text⟩ m = .ok script n) :
      HasRead config host events ⟨path, text⟩ script

variable {config : SessionConfig} {host : Host} {events : List Event} {session : Session}

/-- The scripts of all inputs have a property if that of each has it when the events before it are
over. -/
theorem obeys_of_split {P : Script → Prop}
    (h : ∀ earlier input later, events = earlier ++ .input input :: later →
      (session.afterAll earlier).Reads P input) : session.Obeys P events := by
  induction events generalizing session with
  | nil => trivial
  | cons event events ih =>
    refine ⟨fun input hinput => ?_, ih fun earlier input later hevents => ?_⟩
    · exact h [] input events (hinput ▸ rfl)
    · exact h (event :: earlier) input later (hevents ▸ rfl)

/-- Whether a session has read a script from the source that the script has, and nothing that the
script contains is missing. -/
def IsRead (config : SessionConfig) (host : Host) (events : List Event) (script : Script) : Prop :=
  HasRead config host events script.source script ∧ script.Whole

theorem isRead_of_begins {earlier later : List Event} {input : Input} {script : Script}
    {m : Machine} (hevents : events = earlier ++ .input input :: later)
    (hbegins : ((new config host).afterAll earlier).Begins input script m) :
    IsRead config host events script := by
  obtain ⟨tokens, n, -, hparsed⟩ := hbegins.read
  refine ⟨?_, Eval.whole_of_readScript hparsed⟩
  rw [Eval.source_of_readScript hparsed]
  exact .input hevents hbegins

theorem isRead_of_file {path text : String} {script : Script} {m n : Machine}
    (hfile : host.read? path = some (.ok text))
    (hread : Eval.readWhole ⟨path, text⟩ m = .ok script n) :
    IsRead config host events script := by
  obtain ⟨tokens, k, -, hparsed⟩ := Eval.readScript_of_readWhole hread
  refine ⟨?_, Eval.whole_of_readScript hparsed⟩
  rw [Eval.source_of_readScript hparsed]
  exact .file hfile hread

abbrev readDiscipline (config : SessionConfig) (host : Host) (events : List Event) : Discipline :=
  .contained (IsRead config host events) True

theorem readDiscipline_lawful : (readDiscipline config host events).Lawful :=
  Discipline.contained_lawful (fun _ h => h.2) fun _ _ => .inl trivial

/-- A session keeps to the scripts that it has read by then, and so to those of any later time. -/
theorem sound_read (config : SessionConfig) (host : Host) (events later : List Event) :
    ((new config host).afterAll events).Sound (readDiscipline config host (events ++ later)) config
      host := by
  have hnew : (new config host).Sound (readDiscipline config host (events ++ later)) config host :=
    sound_new readDiscipline_lawful fun path text hfile => ⟨trivial, fun m script n hread =>
      Discipline.contained_script (isRead_of_file hfile hread)⟩
  refine hnew.afterAll readDiscipline_lawful (obeys_of_split fun earlier input rest hevents => ?_)
  intro script m hbegins
  have hsplit : events ++ later = earlier ++ .input input :: (rest ++ later) := by
    rw [hevents, List.append_assoc, List.cons_append]
  exact Discipline.contained_script (isRead_of_begins hsplit hbegins)

theorem standsIn_of_task {script : Script} {task : Task}
    (h : (readDiscipline config host events).task script task) :
    task.StandsIn (IsRead config host events) script := by
  cases task with
  | node id => exact h
  | body f values =>
    obtain ⟨⟨⟨hread, hbody⟩, hdefaults⟩, -⟩ := h
    exact ⟨hread, hbody, fun param hparam id hid => (hdefaults param hparam id hid).2⟩
  | native action value span => trivial
  | program script => exact h.1

/-- Wherever the run of an input comes to, the code that is to run is part of the current script, or
of that of the function or program that is called, and this script was read from its own source and
has all its nodes and their lists. Nothing is ever looked for outside of the current arena. -/
theorem code_contained (config : SessionConfig) (host : Host) (events : List Event)
    (input : Input) :
    let session := (new config host).afterAll events
    (session.feed input).1 ≠ .givenUp .outsideArena ∧
    ∀ level task m, session.Visits input level task m →
      task.StandsIn (IsRead config host (events ++ [.input input])) m.context.script ∧
        ∀ n, Eval.eval level task m ≠ .error (.givenUp .outsideArena) n := by
  intro session
  have hlawful : (readDiscipline config host (events ++ [.input input])).Lawful :=
    readDiscipline_lawful
  have hsound : session.Sound (readDiscipline config host (events ++ [.input input])) config host :=
    sound_read config host events [.input input]
  have hscript : session.Reads (readDiscipline config host (events ++ [.input input])).script
      input :=
    fun script m hbegins => Discipline.contained_script (isRead_of_begins rfl hbegins)
  constructor
  · intro houtcome
    have hended := (hsound.fed hlawful (Discipline.Lax.takes _ _) hscript).1
    rw [houtcome] at hended
    exact hended
  · intro level task m hvisits
    obtain ⟨script, here, htask, -, hm⟩ := hsound.admits_of_visits hlawful hscript hvisits
    constructor
    · rw [hm.runningScript]
      exact standsIn_of_task htask
    · intro n hrun
      have hends := Simulation.ends (Simulation.sound_lawful hlawful) htask ⟨rfl, hm⟩ level
      rw [hrun] at hends
      exact hends.1.2

end Session
end ExprScript
