import ExprScript.Proofs.Evaluation.Contained
import ExprScript.Proofs.Session.Soundness

/-!
# Diagnostics and their texts

A span and the text that it points into go separate ways until a fault or warning leaves the code
that it is about. Whatever a session shows and whatever its runs fail with is attached to a text in
the end, and it is the text in which the span lies. Tokens of an input that waits come back with the
next one; so the front end must not make any up.
-/
namespace ExprScript.Session

/-- How the run of an input ends; other events run nothing. -/
def answers (session : Session) : Event → List RunOutcome
  | .input input => [(session.feed input).1]
  | _ => []

def outcomes : Session → List Event → List RunOutcome
  | _, [] => []
  | session, event :: events => session.answers event ++ (session.react event).outcomes events

/-- Whether earlier runs have led to an event: what is continued was waiting, and what is reported
is how a run failed. -/
def Event.FollowsFrom (outcomes : List RunOutcome) : Event → Prop
  | .input next => ∀ pending ∈ next.pending, .waiting pending ∈ outcomes
  | .report d => .failed d ∈ outcomes
  | _ => True

/-- Whether a front end hands back to a session only what the session has handed to it. -/
def HandsBack (session : Session) (events : List Event) : Prop :=
  ∀ earlier event later, events = earlier ++ event :: later →
    event.FollowsFrom (session.outcomes earlier)

variable {config : SessionConfig} {host : Host} {session : Session} {events : List Event}
  {event : Event}

theorem afterAll_concat (session : Session) (events : List Event) (event : Event) :
    session.afterAll (events ++ [event]) = (session.afterAll events).react event := by
  simp [afterAll]

theorem outcomes_concat (session : Session) (events : List Event) (event : Event) :
    session.outcomes (events ++ [event]) =
      session.outcomes events ++ (session.afterAll events).answers event := by
  induction events generalizing session with
  | nil => simp [outcomes, afterAll]
  | cons first events ih =>
    rw [List.cons_append, outcomes, outcomes, ih, List.append_assoc]
    rfl

theorem handsBack_nil (session : Session) : session.HandsBack [] := by
  intro earlier event later h
  simp at h

theorem handsBack_concat : session.HandsBack (events ++ [event]) ↔
    session.HandsBack events ∧ event.FollowsFrom (session.outcomes events) := by
  constructor
  · intro h
    refine ⟨fun earlier other later hevents => ?_, h events event [] rfl⟩
    apply h earlier other (later ++ [event])
    rw [hevents, List.append_assoc, List.cons_append]
  · rintro ⟨hbefore, hlast⟩ earlier other later hevents
    rcases List.eq_nil_or_concat later with rfl | ⟨later, final, rfl⟩
    · obtain ⟨rfl, hsame⟩ := List.append_inj' hevents rfl
      cases hsame
      exact hlast
    · rw [List.concat_eq_append, ← List.cons_append, ← List.append_assoc] at hevents
      obtain ⟨hsplit, -⟩ := List.append_inj' hevents rfl
      exact hbefore earlier other later hsplit

/-! ## Texts that are read -/

/-- Scripts miss nothing, and their spans lie in their texts. -/
abbrev placing : Discipline := .contained (fun script => script.Whole ∧ script.Placed) False

theorem placing_lawful : placing.Lawful :=
  Discipline.contained_lawful (fun _ h => h.1) fun _ h => .inr h.2

theorem placing_file (source : SourceFile) : placing.file source := by
  refine ⟨trivial, fun m script n hread => ?_⟩
  obtain ⟨tokens, k, htokens, hparsed⟩ := Eval.readScript_of_readWhole hread
  have hplaced := Eval.placed_of_readTokens (Span.liesIn_closed source).none.start htokens
  exact Discipline.contained_script
    ⟨Eval.whole_of_readScript hparsed, Eval.placed_of_readScript hplaced hparsed⟩

theorem placing_reads {input : Input} (htakes : placing.takes (.input input)) :
    session.Reads placing.script input := by
  intro script m hbegins
  obtain ⟨tokens, n, htokens, hparsed⟩ := hbegins.read
  have hearlier := placed_earlierTokens input.name input.text htakes
  have hnew := Eval.placed_of_readTokens (positionAt_inputSource ..) htokens
  refine Discipline.contained_script
    ⟨Eval.whole_of_readScript hparsed, Eval.placed_of_readScript (fun token htoken => ?_) hparsed⟩
  rcases List.mem_append.mp htoken with htoken | htoken
  · exact (hearlier token htoken).resolve_left id
  · exact hnew token htoken

/-! ## Runs -/

/-- One event after others: what the front end may do is what the outcomes so far allow. -/
theorem takes_of_followsFrom {earlier : List RunOutcome}
    (houtcomes : ∀ outcome ∈ earlier, placing.outcome outcome) (h : event.FollowsFrom earlier) :
    placing.takes event := by
  cases event with
  | input input => exact fun pending hpending => houtcomes _ (h pending hpending)
  | report d => exact houtcomes _ h
  | _ => trivial

theorem sound_placing (h : (new config host).HandsBack events) :
    ((new config host).afterAll events).Sound placing config host ∧
      ∀ outcome ∈ (new config host).outcomes events, placing.outcome outcome := by
  induction events using List.reverseRecOn with
  | nil => exact ⟨sound_new placing_lawful fun _ _ _ => placing_file _, by simp [outcomes]⟩
  | append_singleton events event ih =>
    obtain ⟨hbefore, hfollows⟩ := handsBack_concat.mp h
    obtain ⟨hsound, houtcomes⟩ := ih hbefore
    have htakes := takes_of_followsFrom houtcomes hfollows
    rw [afterAll_concat, outcomes_concat]
    refine ⟨hsound.react placing_lawful htakes ?_, fun outcome houtcome => ?_⟩
    · rintro input rfl
      exact placing_reads htakes
    · rcases List.mem_append.mp houtcome with houtcome | houtcome
      · exact houtcomes outcome houtcome
      · cases event with
        | input input =>
          obtain rfl := List.mem_singleton.mp houtcome
          exact (hsound.fed placing_lawful htakes (placing_reads htakes)).1
        | _ => cases houtcome

/-- All that a session shows and all that its runs fail with is attached to a text in which its span
lies: the ends are in order and inside the text, and are the places of their offsets there. -/
theorem diagnostics_placed (config : SessionConfig) (host : Host) (events : List Event)
    (hevents : (new config host).HandsBack events) :
    (∀ d ∈ ((new config host).afterAll events).machine.notices, d.Placed) ∧
      ∀ d, .failed d ∈ (new config host).outcomes events → d.Placed := by
  obtain ⟨hsound, houtcomes⟩ := sound_placing hevents
  exact ⟨fun d hd => (hsound.notices d hd).resolve_left id,
    fun d hd => (houtcomes _ hd).resolve_left id⟩

/-! ## A fault in two lines -/

/-- A line that opens a list. -/
def opening : Input := ⟨"", "[", none, true⟩

/-- A line that goes on with a list, in which a number is called. -/
def closing (waits : PendingInput) : Input := ⟨"", "1()]", some waits, true⟩

/-- Whether the first line comes back waiting and the run of both fails. -/
def closingFails : Bool :=
  match (new {} noHost).feed opening with
  | (.waiting waits, session) =>
    match (session.feed (closing waits)).1 with
    | .failed _ => true
    | _ => false
  | _ => false

/-- A number that is called is found in the text of both lines. -/
theorem called_number_placed :
    ∃ waits d, (new {} noHost).HandsBack [.input opening, .input (closing waits)] ∧
      .failed d ∈ (new {} noHost).outcomes [.input opening, .input (closing waits)] ∧
      d.Placed := by
  have hfails : closingFails = true := by decide +kernel
  unfold closingFails at hfails
  split at hfails
  · rename_i waits session hopening
    split at hfails
    · rename_i d hclosing
      have hfailed :
          .failed d ∈ (new {} noHost).outcomes [.input opening, .input (closing waits)] := by
        simp [outcomes, answers, react, hopening, hclosing]
      have hfirst : (new {} noHost).HandsBack ([] ++ [.input opening]) :=
        handsBack_concat.mpr ⟨handsBack_nil _, fun pending hpending => by cases hpending⟩
      have hboth : (new {} noHost).HandsBack ([.input opening] ++ [.input (closing waits)]) := by
        refine handsBack_concat.mpr ⟨hfirst, fun pending hpending => ?_⟩
        cases hpending
        simp [outcomes, answers, hopening]
      exact ⟨waits, d, hboth, hfailed, (diagnostics_placed {} noHost _ hboth).2 d hfailed⟩
    · cases hfails
  · cases hfails

end ExprScript.Session
