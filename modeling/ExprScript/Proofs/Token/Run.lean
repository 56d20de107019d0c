import ExprScript.Proofs.Text.Position
import ExprScript.Proofs.Token.Lexeme
import ExprScript.Token.Lexer

/-!
# Runs of the lexer

A run takes lexemes off the text as long as they can be read. It does not look at what was found
before, and what it finds starts where the lexemes are.
-/
namespace ExprScript

/-- Whether the token before a text has attributes once a lexeme is taken off. -/
def Lexeme.attributed (before : Bool) : Lexeme → Bool
  | .word _ => true
  | .str .. => false
  | .token kind => Scan.hasAttributes (some kind)
  | .skipped | .pragma .. | .fault _ => before

namespace Lexing

/-! ## One lexeme -/

def attributed (s : Lexing) : Bool := Scan.hasAttributes s.previous

def scan (s : Lexing) (c : Char) (cs : List Char) : Scan := Scan.next s.attributed c cs

def taken (s : Lexing) (c : Char) (cs : List Char) : List Char :=
  (c :: cs).take (s.scan c cs).length

def past (s : Lexing) (c : Char) (cs : List Char) : Lexing :=
  { s with
    rest := (c :: cs).drop (s.scan c cs).length
    place := s.place.advanceAll (s.taken c cs) }

def after (s : Lexing) (c : Char) (cs : List Char) : Lexing :=
  (s.past c cs).accept (s.scan c cs).lexeme (s.taken c cs) ⟨s.place, (s.past c cs).place⟩

variable {s t : Lexing} {c : Char} {cs : List Char}

theorem step_of_readable (h : (s.scan c cs).lexeme.Readable) :
    s.step c cs = (s.after c cs, none) := by
  unfold step after past taken scan attributed at *
  simp only [List.splitAt_eq]
  split
  · rename_i cause hfault
    exact absurd hfault (h cause)
  · rfl

theorem step_of_fault {cause : LexFault} (h : (s.scan c cs).lexeme = .fault cause) :
    s.step c cs = (s.past c cs, some (cause.diagnostic ⟨s.place, (s.past c cs).place⟩)) := by
  unfold step past taken scan attributed at *
  simp only [List.splitAt_eq, h]

theorem readable_or_fault (lexeme : Lexeme) : lexeme.Readable ∨ ∃ cause, lexeme = .fault cause := by
  by_cases h : ∃ cause, lexeme = .fault cause
  · exact .inr h
  · exact .inl (not_exists.mp h)

/-- Taking a lexeme in changes neither the text ahead nor its place. -/
theorem accept_frame (s : Lexing) (lexeme : Lexeme) (chars : List Char) (span : Span) :
    (s.accept lexeme chars span).rest = s.rest ∧ (s.accept lexeme chars span).place = s.place := by
  unfold accept
  cases lexeme with
  | pragma name shown =>
    dsimp only
    split <;> exact ⟨rfl, rfl⟩
  | str value delimiter closed => cases closed <;> exact ⟨rfl, rfl⟩
  | _ => exact ⟨rfl, rfl⟩

@[simp] theorem after_rest (s : Lexing) (c : Char) (cs : List Char) :
    (s.after c cs).rest = (c :: cs).drop (s.scan c cs).length := (accept_frame ..).1

@[simp] theorem after_place (s : Lexing) (c : Char) (cs : List Char) :
    (s.after c cs).place = s.place.advanceAll (s.taken c cs) := (accept_frame ..).2

theorem attributed_accept (s : Lexing) (lexeme : Lexeme) (chars : List Char) (span : Span) :
    (s.accept lexeme chars span).attributed = lexeme.attributed s.attributed := by
  unfold accept
  cases lexeme with
  | pragma name shown =>
    dsimp only
    split <;> rfl
  | str value delimiter closed => cases closed <;> rfl
  | _ => rfl

theorem length_after_rest (s : Lexing) (c : Char) (cs : List Char) :
    (s.after c cs).rest.length < cs.length + 1 := by
  have hpos := (Scan.next_length s.attributed c cs).1
  rw [after_rest, List.length_drop, List.length_cons]
  unfold scan
  omega

/-! ## Many lexemes -/

/-- Whether taking readable lexemes off the text goes from one state to another. -/
inductive Reads : Lexing → Lexing → Prop
  | done (s : Lexing) : Reads s s
  | next {s t : Lexing} {c : Char} {cs : List Char} (hrest : s.rest = c :: cs)
      (hreadable : (s.scan c cs).lexeme.Readable) (hreads : Reads (s.after c cs) t) : Reads s t

theorem run_of_nil (steps : Nat) (h : s.rest = []) :
    run (steps + 1) s = (s.emit (.mark .eof) (Span.point s.place), none) := by
  simp only [run, h]

theorem run_of_readable (steps : Nat) (h : s.rest = c :: cs)
    (hreadable : (s.scan c cs).lexeme.Readable) : run (steps + 1) s = run steps (s.after c cs) := by
  simp only [run, h, step_of_readable hreadable]

theorem run_of_fault (steps : Nat) {cause : LexFault} (h : s.rest = c :: cs)
    (hfault : (s.scan c cs).lexeme = .fault cause) :
    run (steps + 1) s =
      (s.past c cs, some (cause.diagnostic ⟨s.place, (s.past c cs).place⟩)) := by
  simp only [run, h, step_of_fault hfault]

/-- A run has enough steps if there are more of them than characters. -/
theorem run_steps {steps more : Nat} (hsteps : s.rest.length < steps)
    (hmore : s.rest.length < more) : run steps s = run more s := by
  induction steps generalizing s more with
  | zero => omega
  | succ steps ih =>
    obtain ⟨more, rfl⟩ : ∃ n, more = n + 1 := ⟨more - 1, by omega⟩
    cases hrest : s.rest with
    | nil => rw [run_of_nil _ hrest, run_of_nil _ hrest]
    | cons c cs =>
      rcases readable_or_fault (s.scan c cs).lexeme with hreadable | ⟨cause, hfault⟩
      · have hlt := length_after_rest s c cs
        rw [hrest, List.length_cons] at hsteps hmore
        rw [run_of_readable _ hrest hreadable, run_of_readable _ hrest hreadable]
        exact ih (by omega) (by omega)
      · rw [run_of_fault _ hrest hfault, run_of_fault _ hrest hfault]

/-- A run goes on from wherever lexemes are read to. -/
theorem Reads.run_eq (h : s.Reads t) {steps more : Nat} (hsteps : s.rest.length < steps)
    (hmore : t.rest.length < more) : run steps s = run more t := by
  induction h generalizing steps with
  | done s => exact run_steps hsteps hmore
  | @next s t c cs hrest hreadable _ ih =>
    have hlt := length_after_rest s c cs
    obtain ⟨steps, rfl⟩ : ∃ n, steps = n + 1 := ⟨steps - 1, by omega⟩
    rw [hrest, List.length_cons] at hsteps
    rw [run_of_readable _ hrest hreadable]
    exact ih (by omega) hmore

theorem reads_of_run {steps : Nat} {u : Lexing} (hsteps : s.rest.length < steps)
    (h : run steps s = (u, none)) :
    ∃ t, s.Reads t ∧ t.rest = [] ∧ u = t.emit (.mark .eof) (Span.point t.place) := by
  induction steps generalizing s with
  | zero => omega
  | succ steps ih =>
    cases hrest : s.rest with
    | nil =>
      rw [run_of_nil _ hrest] at h
      cases h
      exact ⟨s, .done s, hrest, rfl⟩
    | cons c cs =>
      rcases readable_or_fault (s.scan c cs).lexeme with hreadable | ⟨cause, hfault⟩
      · have hlt := length_after_rest s c cs
        rw [hrest, List.length_cons] at hsteps
        rw [run_of_readable _ hrest hreadable] at h
        obtain ⟨t, hreads, ht⟩ := ih (by omega) h
        exact ⟨t, .next hrest hreadable hreads, ht⟩
      · rw [run_of_fault _ hrest hfault] at h
        cases h

/-! ## What was found before -/

def behind (first s : Lexing) : Lexing :=
  { s with
    tokens := first.tokens ++ s.tokens
    pragmas := first.pragmas ++ s.pragmas
    warnings := first.warnings ++ s.warnings }

theorem accept_behind (first s : Lexing) (lexeme : Lexeme) (chars : List Char) (span : Span) :
    (first.behind s).accept lexeme chars span = first.behind (s.accept lexeme chars span) := by
  unfold accept
  cases lexeme with
  | pragma name shown =>
    dsimp only
    split <;> simp [behind, warn]
  | str value delimiter closed => cases closed <;> simp [behind, warn, emitNamed, emit]
  | _ => simp [behind, emitNamed, emit]

theorem after_behind (first s : Lexing) (c : Char) (cs : List Char) :
    (first.behind s).after c cs = first.behind (s.after c cs) :=
  accept_behind first (s.past c cs) ..

/-- A run does not look at what was found before it. -/
theorem run_behind (steps : Nat) (first s : Lexing) :
    run steps (first.behind s) = (first.behind (run steps s).1, (run steps s).2) := by
  induction steps generalizing s with
  | zero => rfl
  | succ steps ih =>
    cases hrest : s.rest with
    | nil =>
      have hbehind : (first.behind s).rest = [] := hrest
      rw [run_of_nil _ hrest, run_of_nil _ hbehind]
      simp [behind, emit]
    | cons c cs =>
      have hbehind : (first.behind s).rest = c :: cs := hrest
      rcases readable_or_fault (s.scan c cs).lexeme with hreadable | ⟨cause, hfault⟩
      · have hreadable' : ((first.behind s).scan c cs).lexeme.Readable := hreadable
        rw [run_of_readable _ hrest hreadable, run_of_readable _ hbehind hreadable',
          after_behind, ih]
      · have hfault' : ((first.behind s).scan c cs).lexeme = .fault cause := hfault
        rw [run_of_fault _ hrest hfault, run_of_fault _ hbehind hfault']
        rfl

/-! ## Names -/

section
variable {P : Interner → Prop} (hP : ∀ table text, P table → P (table.intern text).2)

include hP

theorem names_accept (h : P s.names) (lexeme : Lexeme) (chars : List Char) (span : Span) :
    P (s.accept lexeme chars span).names := by
  unfold accept
  cases lexeme with
  | pragma name shown =>
    dsimp only
    split <;> exact h
  | word text => exact hP s.names text h
  | str value delimiter closed => cases closed <;> exact hP s.names value h
  | _ => exact h

theorem names_after (h : P s.names) (c : Char) (cs : List Char) : P (s.after c cs).names :=
  names_accept (s := s.past c cs) hP h ..

theorem Reads.names (h : s.Reads t) (hs : P s.names) : P t.names := by
  induction h with
  | done s => exact hs
  | next _ _ _ ih => exact ih (names_after hP hs ..)

/-- What interning keeps of a table of names is kept by a run, also by one with a fault. -/
theorem names_run (h : P s.names) (steps : Nat) : P (run steps s).1.names := by
  induction steps generalizing s with
  | zero => exact h
  | succ steps ih =>
    cases hrest : s.rest with
    | nil =>
      rw [run_of_nil _ hrest]
      exact h
    | cons c cs =>
      rcases readable_or_fault (s.scan c cs).lexeme with hreadable | ⟨cause, hfault⟩
      · rw [run_of_readable _ hrest hreadable]
        exact ih (names_after hP h ..)
      · rw [run_of_fault _ hrest hfault]
        exact h

theorem names_lexFrom {names : Interner} (h : P names) (file : SourceFile) (start : Position) :
    P (lexFrom file start names).names := by
  unfold lexFrom lexText
  generalize (splitBytes start.offset file.text.toList).2 = text
  have hkept := names_run (s := ofText text start names) hP h (text.length + 1)
  cases hrun : run (text.length + 1) (ofText text start names) with
  | mk t fault =>
    rw [hrun] at hkept
    exact hkept

end

/-! ## Where tokens are -/

theorem taken_append (s : Lexing) (c : Char) (cs : List Char) :
    s.taken c cs ++ (s.after c cs).rest = c :: cs := by
  rw [after_rest]
  exact List.take_append_drop ..

theorem Reads.place (h : s.Reads t) :
    ∃ chars, s.rest = chars ++ t.rest ∧ t.place = s.place.advanceAll chars := by
  induction h with
  | done s => exact ⟨[], rfl, rfl⟩
  | @next s t c cs hrest _ _ ih =>
    obtain ⟨chars, hchars, hplace⟩ := ih
    refine ⟨s.taken c cs ++ chars, ?_, ?_⟩
    · rw [hrest, List.append_assoc, ← hchars, taken_append]
    · rw [hplace, after_place, Position.advanceAll_append]

theorem accept_tokens (s : Lexing) (lexeme : Lexeme) (chars : List Char) (span : Span) :
    ∃ found, (s.accept lexeme chars span).tokens = s.tokens ++ found ∧
      ∀ token ∈ found, token.span = span := by
  unfold accept
  cases lexeme with
  | pragma name shown =>
    dsimp only
    split <;> exact ⟨#[], by simp [warn], by simp⟩
  | str value delimiter closed =>
    cases closed <;> exact ⟨#[_], by simp [emitNamed, emit, warn]; rfl, by simp⟩
  | word text => exact ⟨#[_], rfl, by simp⟩
  | token kind => exact ⟨#[_], rfl, by simp⟩
  | skipped => exact ⟨#[], by simp, by simp⟩
  | fault cause => exact ⟨#[], by simp, by simp⟩

theorem Reads.le_place (h : s.Reads t) : s.place.offset ≤ t.place.offset := by
  obtain ⟨chars, -, hplace⟩ := h.place
  rw [hplace, Position.offset_advanceAll]
  exact Nat.le_add_right ..

theorem lt_after_place (s : Lexing) (c : Char) (cs : List Char) :
    s.place.offset < (s.after c cs).place.offset := by
  obtain ⟨n, hn⟩ : ∃ n, (s.scan c cs).length = n + 1 :=
    Nat.exists_eq_succ_of_ne_zero
      (Nat.ne_of_gt (Scan.next_length s.attributed c cs).1)
  have hpos := c.utf8Size_pos
  rw [after_place, Position.offset_advanceAll, taken, hn, List.take_succ_cons, byteLength_cons]
  omega

theorem Reads.tokens (h : s.Reads t) :
    ∃ found, t.tokens = s.tokens ++ found ∧ ∀ token ∈ found,
      s.place.offset ≤ token.span.start.offset ∧ token.span.start.offset < t.place.offset := by
  induction h with
  | done s => exact ⟨#[], by simp, by simp⟩
  | @next s t c cs _ _ hreads ih =>
    obtain ⟨first, hfirst, hspan⟩ := accept_tokens (s.past c cs) (s.scan c cs).lexeme
      (s.taken c cs) ⟨s.place, (s.past c cs).place⟩
    obtain ⟨found, hfound, hplaces⟩ := ih
    have hlt := lt_after_place s c cs
    have hle := hreads.le_place
    refine ⟨first ++ found, ?_, fun token htoken => ?_⟩
    · rw [hfound, ← Array.append_assoc]
      exact congrArg (· ++ found) hfirst
    · rcases Array.mem_append.mp htoken with hmem | hmem
      · rw [hspan token hmem]
        exact ⟨Nat.le_refl _, Nat.lt_of_lt_of_le hlt hle⟩
      · have hplace := hplaces token hmem
        omega

/-- The tokens that a run finds start where it starts or behind. -/
theorem tokens_of_run {steps : Nat} {u : Lexing} (hsteps : s.rest.length < steps)
    (h : run steps s = (u, none)) :
    ∃ found, u.tokens = s.tokens ++ found ∧
      ∀ token ∈ found, s.place.offset ≤ token.span.start.offset := by
  obtain ⟨t, hreads, -, rfl⟩ := reads_of_run hsteps h
  obtain ⟨found, hfound, hplaces⟩ := hreads.tokens
  refine ⟨found.push ⟨.mark .eof, Span.point t.place⟩, by simp [emit, hfound], ?_⟩
  intro token htoken
  rcases Array.mem_push.mp htoken with hmem | rfl
  · exact (hplaces token hmem).1
  · exact hreads.le_place

end Lexing
end ExprScript
