import ExprScript.Proofs.Text.Spans
import ExprScript.Proofs.Token.Run

/-!
# Where the lexer points

Lexing goes through the characters of a text, so the spans of all tokens, warnings and faults lie in
that text.
-/
namespace ExprScript

namespace Lexing

variable {file : SourceFile} {s : Lexing} {c : Char} {cs : List Char}

/-- A state somewhere in a text, and what was found before lies in that text. -/
structure Placed (file : SourceFile) (s : Lexing) : Prop where
  text : ∃ before, file.text.toList = before ++ s.rest ∧
    s.place = Position.start.advanceAll before
  tokens : ∀ token ∈ s.tokens, token.span.LiesIn file
  warnings : ∀ d ∈ s.warnings, d.PointsAt (Span.LiesIn file)

theorem Placed.span (h : s.Placed file) {inside more : List Char}
    (hrest : s.rest = inside ++ more) :
    Span.LiesIn file ⟨s.place, s.place.advanceAll inside⟩ := by
  obtain ⟨before, htext, hplace⟩ := h.text
  rw [hplace, ← Position.advanceAll_append]
  apply Span.liesIn_of_append
  rw [htext, hrest, List.append_assoc]

theorem Placed.emit (h : s.Placed file) (kind : TokenKind) {span : Span}
    (hspan : span.LiesIn file) : (s.emit kind span).Placed file where
  text := h.text
  warnings := h.warnings
  tokens token htoken := by
    rcases Array.mem_push.mp htoken with htoken | rfl
    · exact h.tokens token htoken
    · exact hspan

theorem Placed.emitNamed (h : s.Placed file) (kind : Name → TokenKind) (text : String)
    {span : Span} (hspan : span.LiesIn file) : (s.emitNamed kind text span).Placed file :=
  have hnamed : Placed file { s with names := (s.names.intern text).2 } :=
    ⟨h.text, h.tokens, h.warnings⟩
  hnamed.emit _ hspan

theorem Placed.warn (h : s.Placed file) (code : Code) {span : Span} (args : List String)
    (hspan : span.LiesIn file) : (s.warn code span args).Placed file where
  text := h.text
  tokens := h.tokens
  warnings d hd := by
    rcases Array.mem_push.mp hd with hd | rfl
    · exact h.warnings d hd
    · exact ⟨hspan, rfl⟩

/-- A lexeme that is taken in leaves tokens and warnings at the characters taken. -/
theorem Placed.accept (h : s.Placed file) (lexeme : Lexeme) {chars : List Char} {span : Span}
    (hspan : span.LiesIn file)
    (hpart : ∀ n, Span.LiesIn file ⟨span.start, span.start.advanceAll (chars.take n)⟩) :
    (s.accept lexeme chars span).Placed file := by
  unfold Lexing.accept
  cases lexeme with
  | skipped => exact h
  | pragma name shown =>
    dsimp only
    split
    · exact ⟨h.text, h.tokens, h.warnings⟩
    · exact h.warn _ _ (hpart shown)
  | word text => exact h.emitNamed _ _ hspan
  | str value delimiter closed =>
    cases closed with
    | true => exact h.emitNamed _ _ hspan
    | false => exact (h.warn _ _ hspan).emitNamed _ _ hspan
  | token kind => exact h.emit _ hspan
  | fault cause => exact h

theorem Placed.past (h : s.Placed file) (hrest : s.rest = c :: cs) :
    (s.past c cs).Placed file where
  text := by
    obtain ⟨before, htext, hplace⟩ := h.text
    refine ⟨before ++ s.taken c cs, ?_, ?_⟩
    · rw [htext, hrest, List.append_assoc]
      exact congrArg (before ++ ·) (List.take_append_drop ..).symm
    · rw [Position.advanceAll_append, ← hplace]
      rfl
  tokens := h.tokens
  warnings := h.warnings

theorem Placed.after (h : s.Placed file) (hrest : s.rest = c :: cs) :
    (s.after c cs).Placed file := by
  have htaken : s.rest = s.taken c cs ++ (s.after c cs).rest := by rw [hrest, taken_append]
  refine (h.past hrest).accept _ (h.span htaken) fun n => ?_
  apply h.span
  rw [htaken, ← List.append_assoc (List.take n _), List.take_append_drop]

/-- A run leaves tokens and warnings in the text, and so does the fault that ends it. -/
theorem Placed.run (h : s.Placed file) (steps : Nat) :
    (run steps s).1.Placed file ∧ ∀ d ∈ (run steps s).2, d.PointsAt (Span.LiesIn file) := by
  induction steps generalizing s with
  | zero => exact ⟨h, by simp [Lexing.run]⟩
  | succ steps ih =>
    cases hrest : s.rest with
    | nil =>
      rw [run_of_nil _ hrest]
      have hnothing : s.rest = [] ++ s.rest := rfl
      exact ⟨h.emit _ (h.span hnothing), by simp⟩
    | cons c cs =>
      rcases readable_or_fault (s.scan c cs).lexeme with hreadable | ⟨cause, hfault⟩
      · rw [run_of_readable _ hrest hreadable]
        exact ih (h.after hrest)
      · rw [run_of_fault _ hrest hfault]
        refine ⟨h.past hrest, fun d hd => ?_⟩
        obtain rfl := Option.mem_some_iff.mp hd
        have hspan := h.span (hrest.trans (taken_append s c cs).symm)
        cases cause <;> exact ⟨hspan, rfl⟩

end Lexing

structure LexResult.Placed (file : SourceFile) (result : LexResult) : Prop where
  warnings : ∀ d ∈ result.warnings, d.PointsAt (Span.LiesIn file)
  fault : ∀ d, result.outcome = .error d → d.PointsAt (Span.LiesIn file)
  tokens : ∀ lexed, result.outcome = .ok lexed → ∀ token ∈ lexed.tokens, token.span.LiesIn file

theorem lexText_placed {file : SourceFile} {first text : List Char} (names : Interner)
    (h : file.text.toList = first ++ text) :
    (lexText text (Position.start.advanceAll first) names).Placed file := by
  have hstart : (Lexing.ofText text (Position.start.advanceAll first) names).Placed file :=
    ⟨⟨first, h, rfl⟩, by simp [Lexing.ofText], by simp [Lexing.ofText]⟩
  obtain ⟨hend, hfault⟩ := hstart.run (text.length + 1)
  unfold lexText
  generalize Lexing.run _ _ = result at hend hfault
  obtain ⟨s, fault⟩ := result
  have hwarnings : ∀ d ∈ s.warnings.toList, d.PointsAt (Span.LiesIn file) := by
    simpa using hend.warnings
  cases fault with
  | some d =>
    refine ⟨hwarnings, fun other hother => ?_, fun lexed hlexed => by cases hlexed⟩
    cases hother
    exact hfault d rfl
  | none =>
    refine ⟨hwarnings, fun d hd => (by cases hd), fun lexed hlexed => ?_⟩
    cases hlexed
    simpa using hend.tokens

/-- From a place of a text on, lexing leaves nothing outside of the text. -/
theorem lexFrom_placed {file : SourceFile} {start : Position} (names : Interner)
    (hstart : file.positionAt start.offset = start) : (lexFrom file start names).Placed file := by
  have hplace : start =
      Position.start.advanceAll (splitBytes start.offset file.text.toList).1 := by
    rw [Position.advanceAll_start, ← SourceFile.positionAt_eq, hstart]
  have hsplit := splitBytes_append start.offset file.text.toList
  unfold lexFrom
  generalize splitBytes start.offset file.text.toList = parts at hplace hsplit ⊢
  rw [hplace]
  exact lexText_placed names hsplit.symm

end ExprScript
