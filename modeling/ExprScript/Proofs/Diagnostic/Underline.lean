import ExprScript.Diagnostic.Terminal
import ExprScript.Proofs.Text.Lines
import Mathlib.Data.List.TakeWhile

/-!
# The lines below which carets stand

Under each line that a span touches, a caret stands below each character that the span covers. A
line of which nothing is covered has a single caret. The lines end early where a line in the middle
of the span is blank.
-/
namespace ExprScript

namespace Span

/-- Whether a span covers what stands at a column of a line. -/
def Covers (span : Span) (line column : Nat) : Prop :=
  (span.start.line < line ∨ span.start.line = line ∧ span.start.column ≤ column) ∧
    (line < span.stop.line ∨ line = span.stop.line ∧ column < span.stop.column)

instance (span : Span) (line column : Nat) : Decidable (span.Covers line column) :=
  inferInstanceAs (Decidable (_ ∧ _))

def covered (span : Span) (line width : Nat) : List Nat :=
  (List.range width).filter (span.Covers line)

/-- Whether a span comes from a line before and ends at the beginning of this one. -/
def EndsBefore (span : Span) (line : Nat) : Prop :=
  span.start.line < line ∧ line = span.stop.line ∧ span.stop.column = 0

instance (span : Span) (line : Nat) : Decidable (span.EndsBefore line) :=
  inferInstanceAs (Decidable (_ ∧ _))

def touched (span : Span) : List Nat :=
  (List.range' span.start.line (span.stop.line + 1 - span.start.line)).filter (¬span.EndsBefore ·)

def entry (span : Span) (line : Nat) : Nat :=
  if line = span.start.line then span.start.column else 0

/-- The carets below a line of a given width: one below each covered column, or else a single one
where the span comes to the line. -/
def marker (span : Span) (line width : Nat) : String :=
  let columns := span.covered line width
  repeatChar ' ' (columns.head?.getD (span.entry line)) ++ repeatChar '^' (max columns.length 1)

def marked (file : SourceFile) (span : Span) (line : Nat) : List String :=
  let text := (file.line line).getD ""
  [text, span.marker line text.length]

end Span

variable {file : SourceFile} {span : Span}

/-! ## Covered columns -/

theorem filter_range_between {lo hi width : Nat} (hle : lo ≤ hi) (hwidth : hi ≤ width) :
    (List.range width).filter (fun column => lo ≤ column ∧ column < hi) =
      List.range' lo (hi - lo) := by
  have hsplit : List.range width =
      List.range' 0 lo ++ List.range' lo (hi - lo) ++ List.range' hi (width - hi) := by
    obtain ⟨n, rfl⟩ := Nat.exists_eq_add_of_le hle
    obtain ⟨k, rfl⟩ := Nat.exists_eq_add_of_le hwidth
    rw [List.range_eq_range', ← List.range'_append_1, ← List.range'_append_1]
    simp
  have hbefore : (List.range' 0 lo).filter (fun column => lo ≤ column ∧ column < hi) = [] := by
    simp [List.filter_eq_nil_iff, List.mem_range'_1]
    omega
  have hinside : (List.range' lo (hi - lo)).filter (fun column => lo ≤ column ∧ column < hi) =
      List.range' lo (hi - lo) := by
    simp [List.filter_eq_self, List.mem_range'_1]
    omega
  have hbehind : (List.range' hi (width - hi)).filter (fun column => lo ≤ column ∧ column < hi) =
      [] := by
    simp [List.filter_eq_nil_iff, List.mem_range'_1]
    omega
  rw [hsplit, List.filter_append, List.filter_append, hbefore, hinside, hbehind]
  simp

/-- The column at which a span goes on from a line of a given width. -/
def Span.exit (span : Span) (line width : Nat) : Nat :=
  if line = span.stop.line then span.stop.column else width

/-- What a span covers of a line is a stretch of it. -/
theorem Span.covered_eq {line width : Nat} (hfirst : span.start.line ≤ line)
    (hlast : line ≤ span.stop.line) (hentry : span.entry line ≤ span.exit line width)
    (hexit : span.exit line width ≤ width) :
    span.covered line width =
      List.range' (span.entry line) (span.exit line width - span.entry line) := by
  rw [← filter_range_between hentry hexit]
  refine List.filter_congr fun column hcolumn => ?_
  have hwidth := List.mem_range.mp hcolumn
  refine decide_eq_decide.mpr ?_
  unfold Covers entry exit
  split <;> split <;> omega

theorem Span.marker_eq {line width : Nat} (hfirst : span.start.line ≤ line)
    (hlast : line ≤ span.stop.line) (hentry : span.entry line ≤ span.exit line width)
    (hexit : span.exit line width ≤ width) :
    span.marker line width = repeatChar ' ' (span.entry line) ++
      repeatChar '^' (max (span.exit line width - span.entry line) 1) := by
  simp only [marker, covered_eq hfirst hlast hentry hexit, List.length_range']
  cases span.exit line width - span.entry line <;> rfl

namespace Span.LiesIn

variable {line : Nat} {text : String}

/-- A span does not leave a line behind its end. -/
theorem exit_le (h : span.LiesIn file) (hline : file.line line = some text) :
    span.exit line text.length ≤ text.length := by
  unfold exit
  split
  · obtain ⟨stopped, hstopped, hcolumn⟩ := SourceFile.exists_line h.stop
    subst line
    rw [hline, Option.some.injEq] at hstopped
    rwa [hstopped]
  · exact Nat.le_refl _

/-- A span does not leave a line before it comes there. -/
theorem entry_le (h : span.LiesIn file) (hline : file.line line = some text) :
    span.entry line ≤ span.exit line text.length := by
  unfold entry
  split
  · subst line
    unfold exit
    split
    · exact h.column_le (Eq.symm ‹_›)
    · obtain ⟨started, hstarted, hcolumn⟩ := SourceFile.exists_line h.start
      rw [hline, Option.some.injEq] at hstarted
      rwa [hstarted]
  · exact Nat.zero_le _

theorem marker_eq (h : span.LiesIn file) (hline : file.line line = some text)
    (hfirst : span.start.line ≤ line) (hlast : line ≤ span.stop.line) :
    span.marker line text.length = repeatChar ' ' (span.entry line) ++
      repeatChar '^' (max (span.exit line text.length - span.entry line) 1) :=
  Span.marker_eq hfirst hlast (h.entry_le hline) (h.exit_le hline)

/-- Every line from the start to the end is a line of the text. -/
theorem isSome_line (h : span.LiesIn file) (hlast : line ≤ span.stop.line) :
    (file.line line).isSome = true := by
  obtain ⟨text, htext, -⟩ := SourceFile.exists_line h.stop
  have hstop := SourceFile.isSome_line_iff.mp (Option.isSome_iff_exists.mpr ⟨text, htext⟩)
  exact SourceFile.isSome_line_iff.mpr (Nat.lt_of_le_of_lt hlast hstop)

end Span.LiesIn

/-! ## Lines -/

namespace Diagnostic

theorem underlineFrom_line {line : Nat} (h : span.LiesIn file) (hfirst : span.start.line ≤ line)
    (hlast : line ≤ span.stop.line) :
    underlineFrom span span.stop.line line ((splitLines file.text.toList).drop line) =
      if span.start.line < line ∧ span.exit line ((file.line line).getD "").length = 0 then []
      else span.marked file line ++
        if line < span.stop.line then
          underlineFrom span span.stop.line (line + 1)
            ((splitLines file.text.toList).drop (line + 1))
        else [] := by
  obtain ⟨text, htext⟩ := Option.isSome_iff_exists.mp (h.isSome_line hlast)
  obtain ⟨cs, hcs, rfl⟩ := Option.map_eq_some_iff.mp (file.line_eq line ▸ htext)
  obtain ⟨hlt, hget⟩ := List.getElem?_eq_some_iff.mp hcs
  rw [List.drop_eq_getElem_cons hlt, hget, Span.marked, htext, Option.getD_some,
    h.marker_eq htext hfirst hlast]
  simp only [underlineFrom, Span.exit, Span.entry, String.length_ofList, and_true]
  rfl

/-- Whether a line is blank and not the first that a span touches. -/
def BlankInside (file : SourceFile) (span : Span) (line : Nat) : Prop :=
  span.start.line < line ∧ file.line line = some ""

instance (file : SourceFile) (span : Span) (line : Nat) : Decidable (BlankInside file span line) :=
  inferInstanceAs (Decidable (_ ∧ _))

/-- The lines end where the span does, or else at a blank line. -/
theorem stops_iff {line : Nat} (h : span.LiesIn file) (hlast : line ≤ span.stop.line) :
    span.start.line < line ∧ span.exit line ((file.line line).getD "").length = 0 ↔
      span.EndsBefore line ∨ BlankInside file span line := by
  obtain ⟨text, htext⟩ := Option.isSome_iff_exists.mp (h.isSome_line hlast)
  have hexit := h.exit_le htext
  unfold Span.EndsBefore BlankInside
  rw [htext, Option.getD_some, Option.some.injEq, ← String.length_eq_zero_iff]
  unfold Span.exit at hexit ⊢
  by_cases hstop : line = span.stop.line
  · rw [if_pos hstop] at hexit ⊢
    omega
  · rw [if_neg hstop]
    omega

theorem underlineFrom_eq (h : span.LiesIn file) {line : Nat} (hfirst : span.start.line ≤ line)
    (hlast : line ≤ span.stop.line) :
    underlineFrom span span.stop.line line ((splitLines file.text.toList).drop line) =
      (((List.range' line (span.stop.line + 1 - line)).filter (¬span.EndsBefore ·)).takeWhile
        (¬BlankInside file span ·)).flatMap (span.marked file) := by
  obtain ⟨n, hn⟩ := Nat.exists_eq_add_of_le hlast
  induction n generalizing line with
  | zero =>
    have hrange : List.range' line (span.stop.line + 1 - line) = [line] := by
      rw [hn, Nat.add_zero, Nat.add_sub_cancel_left]
      rfl
    have hend : ¬line < span.stop.line := by omega
    simp only [underlineFrom_line h hfirst hlast, stops_iff h hlast, hrange, if_neg hend]
    by_cases hbefore : span.EndsBefore line <;> by_cases hblank : BlankInside file span line <;>
      simp [hbefore, hblank]
  | succ n ih =>
    have hlt : line < span.stop.line := by omega
    have hrange : List.range' line (span.stop.line + 1 - line) =
        line :: List.range' (line + 1) (span.stop.line + 1 - (line + 1)) := by
      rw [show span.stop.line + 1 - line = span.stop.line + 1 - (line + 1) + 1 by omega]
      rfl
    have hbefore : ¬span.EndsBefore line := fun hends => Nat.ne_of_lt hlt hends.2.1
    simp only [underlineFrom_line h hfirst hlast, stops_iff h hlast, hrange, if_pos hlt,
      ih (Nat.le_succ_of_le hfirst) hlt (by omega)]
    by_cases hblank : BlankInside file span line <;> simp [hbefore, hblank]

/-- The lines are those that the span touches, up to the first blank one inside. -/
theorem underline_eq (h : span.LiesIn file) :
    underline file span =
      (span.touched.takeWhile (¬BlankInside file span ·)).flatMap (span.marked file) := by
  have hlast : max span.start.line span.stop.line = span.stop.line := Nat.max_eq_right h.line_le
  simp only [underline, hlast, underlineFrom_eq h (Nat.le_refl _) h.line_le, Span.touched]

end Diagnostic

/-- Under every line that a span touches there are its carets, unless a line in the middle of the
span is blank. -/
theorem touched_lines_marked (h : span.LiesIn file)
    (hblank : ∀ line, span.start.line < line → line < span.stop.line → file.line line ≠ some "") :
    (∀ line ∈ span.touched, (file.line line).isSome = true) ∧
      Diagnostic.underline file span = span.touched.flatMap (span.marked file) := by
  have hlast {line : Nat} (hline : line ∈ span.touched) : line ≤ span.stop.line := by
    have hrange := List.mem_range'_1.mp (List.mem_filter.mp hline).1
    omega
  refine ⟨fun line hline => h.isSome_line (hlast hline), ?_⟩
  rw [Diagnostic.underline_eq h, List.takeWhile_eq_self_iff.mpr]
  intro line hline
  refine decide_eq_true fun hinside => ?_
  rcases Nat.lt_or_eq_of_le (hlast hline) with hlt | heq
  · exact hblank line hinside.1 hlt hinside.2
  · -- The end of the span lies on this line, which cannot be blank if the span comes further.
    obtain ⟨text, htext, hcolumn⟩ := SourceFile.exists_line h.stop
    rw [← heq, hinside.2, Option.some.injEq] at htext
    subst htext
    have hends : span.EndsBefore line := ⟨hinside.1, heq, Nat.le_zero.mp hcolumn⟩
    exact of_decide_eq_true (List.mem_filter.mp hline).2 hends

/-- A list over two lines, the second of which begins before the span does in the first. -/
theorem both_lines_of_list_marked :
    let file : SourceFile := ⟨"", "list a :: [1,\n  2]"⟩
    let span : Span := ⟨⟨10, 0, 10⟩, ⟨18, 1, 4⟩⟩
    span.LiesIn file ∧ Diagnostic.underline file span =
      ["list a :: [1,", "          ^^^", "  2]", "^^^^"] := by
  intro file span
  have htext : file.text.toList = "list a :: ".toList ++ "[1,\n  2]".toList ++ [] := by decide
  have h : span.LiesIn file := Span.liesIn_of_append htext
  have hblank : ∀ line, span.start.line < line → line < span.stop.line →
      file.line line ≠ some "" := fun line hfirst hlast => absurd hlast (Nat.not_lt.mpr hfirst)
  exact ⟨h, (touched_lines_marked h hblank).2.trans (by decide)⟩

/-- Nothing is shown from a blank line on that a span goes over. -/
theorem lines_end_at_blank :
    let file : SourceFile := ⟨"", "a\n\nb"⟩
    let span : Span := ⟨⟨0, 0, 0⟩, ⟨4, 2, 1⟩⟩
    span.LiesIn file ∧ span.touched = [0, 1, 2] ∧
      span.touched.flatMap (span.marked file) = ["a", "^", "", "^", "b", "^"] ∧
      Diagnostic.underline file span = ["a", "^"] := by
  intro file span
  have htext : file.text.toList = [] ++ "a\n\nb".toList ++ [] := by decide
  exact ⟨Span.liesIn_of_append htext, by decide, by decide, by decide⟩

end ExprScript
