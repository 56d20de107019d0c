import ExprScript.Proofs.Text.Spans

/-!
# Lines and columns of places

A place stands on a line of its text, not behind the end of that line, and going on from a place
does not lead back.
-/
namespace ExprScript

theorem splitLines_cons (c : Char) (cs : List Char) :
    ∃ line lines, splitLines cs = line :: lines ∧
      splitLines (c :: cs) = if c = '\n' then [] :: line :: lines else (c :: line) :: lines := by
  cases h : splitLines cs with
  | nil =>
    have hlength := length_splitLines cs
    rw [h] at hlength
    cases hlength
  | cons line lines =>
    have hcons : splitLines (c :: cs) = consLines c (splitLines cs) := rfl
    exact ⟨line, lines, rfl, by rw [hcons, h, consLines]⟩

theorem lineStartsFrom_lineFeed (before cs : List Char) :
    lineStartsFrom (byteLength before) ('\n' :: cs) =
      byteLength (before ++ ['\n']) :: lineStartsFrom (byteLength (before ++ ['\n'])) cs := by
  simp [lineStartsFrom]

theorem lineStartsFrom_of_ne (before cs : List Char) {c : Char} (hc : c ≠ '\n') :
    lineStartsFrom (byteLength before) (c :: cs) =
      lineStartsFrom (byteLength (before ++ [c])) cs := by
  simp [lineStartsFrom, hc]

/-- A line begins where the table says, and ends before the line feed that the next one begins
behind, or with the text. -/
theorem exists_part_of_line (before cs : List Char) {index : Nat} {line : List Char}
    (h : (splitLines cs)[index]? = some line) :
    let starts := byteLength before :: lineStartsFrom (byteLength before) cs
    ∃ first rest, before ++ cs = first ++ (line ++ rest) ∧ (index = 0 → first = before) ∧
      starts[index]? = some (byteLength first) ∧
      (starts[index + 1]?).elim (byteLength (before ++ cs)) (· - 1) =
        byteLength first + byteLength line := by
  induction cs generalizing before index line with
  | nil =>
    have hline : index = 0 ∧ [] = line := by
      simpa [splitLines, List.getElem?_singleton] using h
    obtain ⟨rfl, rfl⟩ := hline
    exact ⟨before, [], by simp, fun _ => rfl, rfl, by simp [lineStartsFrom]⟩
  | cons c cs ih =>
    obtain ⟨l, ls, hlines, hcons⟩ := splitLines_cons c cs
    have hwhole : before ++ c :: cs = before ++ [c] ++ cs := List.append_cons ..
    rw [hcons] at h
    rw [hwhole]
    by_cases hc : c = '\n'
    · subst hc
      rw [if_pos rfl] at h
      rw [lineStartsFrom_lineFeed]
      cases index with
      | zero =>
        cases h
        have hbehind : byteLength (before ++ ['\n']) - 1 = byteLength before := by
          rw [byteLength_append]
          rfl
        exact ⟨before, '\n' :: cs, hwhole.symm, fun _ => rfl, rfl, hbehind⟩
      | succ k =>
        have hline : (splitLines cs)[k]? = some line := by
          rwa [List.getElem?_cons_succ, ← hlines] at h
        obtain ⟨first, rest, htext, -, hstart, hstop⟩ := ih (before ++ ['\n']) hline
        exact ⟨first, rest, htext, fun h => absurd h k.succ_ne_zero, hstart, hstop⟩
    · rw [if_neg hc] at h
      rw [lineStartsFrom_of_ne before cs hc]
      cases index with
      | zero =>
        cases h
        obtain ⟨first, rest, htext, hfirst, -, hstop⟩ :=
          ih (before ++ [c]) (congrArg (·[0]?) hlines)
        obtain rfl := hfirst rfl
        refine ⟨before, rest, by simpa using htext, fun _ => rfl, rfl, hstop.trans ?_⟩
        rw [byteLength_append, byteLength_cons, byteLength_cons, byteLength_nil]
        omega
      | succ k =>
        have hline : (splitLines cs)[k + 1]? = some line := by
          rwa [List.getElem?_cons_succ, ← List.getElem?_cons_succ (a := l), ← hlines] at h
        obtain ⟨first, rest, htext, -, hstart, hstop⟩ := ih (before ++ [c]) hline
        exact ⟨first, rest, htext, fun h => absurd h k.succ_ne_zero, hstart, hstop⟩

namespace Position

variable {p : Position} {cs : List Char}

theorem line_advance_le (p : Position) (c : Char) : p.line ≤ (p.advance c).line := by
  unfold advance
  split <;> simp

theorem line_le_advanceAll (p : Position) (cs : List Char) : p.line ≤ (p.advanceAll cs).line := by
  induction cs generalizing p with
  | nil => exact Nat.le_refl _
  | cons c cs ih => exact Nat.le_trans (line_advance_le p c) (ih _)

theorem column_le_advanceAll (h : (p.advanceAll cs).line = p.line) :
    p.column ≤ (p.advanceAll cs).column := by
  induction cs generalizing p with
  | nil => exact Nat.le_refl _
  | cons c cs ih =>
    rw [advanceAll_cons] at h ⊢
    have hstays : (p.advance c).line = p.line :=
      Nat.le_antisymm (h ▸ line_le_advanceAll _ cs) (line_advance_le p c)
    refine Nat.le_trans ?_ (ih (h.trans hstays.symm))
    unfold advance at hstays ⊢
    split at hstays
    · simp at hstays
    · rw [if_neg ‹_›]
      exact Nat.le_succ _

/-- Going through the first part of a text leads to one of its lines. As long as that is the line
of the beginning, the column where it began is to be added to what the line has. -/
theorem exists_line (p : Position) (first rest : List Char) :
    ∃ line, (splitLines (first ++ rest))[(p.advanceAll first).line - p.line]? = some line ∧
      (p.advanceAll first).column ≤
        (if (p.advanceAll first).line = p.line then p.column else 0) + line.length := by
  induction first generalizing p with
  | nil =>
    cases hlines : splitLines rest with
    | nil => simpa [hlines] using length_splitLines rest
    | cons line lines => exact ⟨line, by simp [hlines]⟩
  | cons c first ih =>
    obtain ⟨line, hline, hcolumn⟩ := ih (p.advance c)
    obtain ⟨l, ls, hlines, hcons⟩ := splitLines_cons c (first ++ rest)
    have hle := line_le_advanceAll (p.advance c) first
    rw [hlines] at hline
    rw [advanceAll_cons, List.cons_append, hcons]
    by_cases hc : c = '\n'
    · have hnext : (p.advance c).line = p.line + 1 := by simp [advance, hc]
      have hindex : ((p.advance c).advanceAll first).line - p.line =
          ((p.advance c).advanceAll first).line - (p.advance c).line + 1 := by omega
      have hzero : (p.advance c).column = 0 := by simp [advance, hc]
      refine ⟨line, by rw [if_pos hc, hindex, List.getElem?_cons_succ, hline], ?_⟩
      rw [hzero, ite_self] at hcolumn
      omega
    · have hstays : (p.advance c).line = p.line := by simp [advance, hc]
      have hnext : (p.advance c).column = p.column + 1 := by simp [advance, hc]
      rw [hstays] at hline hcolumn
      rw [if_neg hc]
      by_cases hsame : ((p.advance c).advanceAll first).line = p.line
      · rw [hsame, Nat.sub_self, List.getElem?_cons_zero, Option.some.injEq] at hline
        rw [if_pos hsame] at hcolumn ⊢
        refine ⟨c :: l, by rw [hsame, Nat.sub_self]; rfl, ?_⟩
        rw [List.length_cons, hline]
        omega
      · obtain ⟨k, hk⟩ : ∃ k, ((p.advance c).advanceAll first).line - p.line = k + 1 :=
          ⟨_, (Nat.succ_pred_eq_of_pos (by omega)).symm⟩
        rw [hk, List.getElem?_cons_succ] at hline
        rw [if_neg hsame] at hcolumn ⊢
        exact ⟨line, by rw [hk, List.getElem?_cons_succ, hline], hcolumn⟩

end Position

namespace SourceFile

variable {file : SourceFile}

theorem line_eq (file : SourceFile) (index : Nat) :
    file.line index = ((splitLines file.text.toList)[index]?).map String.ofList := by
  have hlength : file.lineStarts.size = (splitLines file.text.toList).length := by
    rw [length_splitLines, ← length_lineStartsFrom 0]
    rfl
  unfold line
  dsimp only
  cases hline : (splitLines file.text.toList)[index]? with
  | none =>
    have hstart : file.lineStarts[index]? = none := by
      rw [List.getElem?_eq_none_iff] at hline
      exact Array.getElem?_eq_none (hlength ▸ hline)
    rw [hstart]
    rfl
  | some line =>
    obtain ⟨first, rest, htext, -, hstart, hstop⟩ := exists_part_of_line [] file.text.toList hline
    have hbytes : byteLength ([] ++ file.text.toList) = file.text.utf8ByteSize :=
      byteLength_toList file.text
    have htable (i : Nat) : file.lineStarts[i]? =
        (byteLength [] :: lineStartsFrom (byteLength []) file.text.toList)[i]? :=
      List.getElem?_toArray
    rw [htable, htable, hstart, ← hbytes, hstop]
    exact slice_append htext

/-- A place stands on a line, not behind its end. -/
theorem exists_line {p : Position} (h : file.positionAt p.offset = p) :
    ∃ text, file.line p.line = some text ∧ p.column ≤ text.length := by
  obtain ⟨first, ⟨rest, htext⟩, hp⟩ := positionAt_offset_iff.mp h
  obtain ⟨line, hline, hcolumn⟩ := Position.exists_line .start first rest
  have hzero : Position.start.line = 0 ∧ Position.start.column = 0 := ⟨rfl, rfl⟩
  rw [htext, ← hp, hzero.1, Nat.sub_zero] at hline
  rw [← hp, hzero.1, hzero.2, ite_self] at hcolumn
  exact ⟨String.ofList line, by rw [line_eq, hline]; rfl, by simpa using hcolumn⟩

theorem isSome_line_iff {index : Nat} :
    (file.line index).isSome = true ↔ index < (splitLines file.text.toList).length := by
  simp [line_eq]

end SourceFile

namespace Span.LiesIn

variable {file : SourceFile} {span : Span}

/-- The end of a span is where going through what it covers leads. -/
theorem exists_advanceAll (h : span.LiesIn file) :
    ∃ inside, span.stop = span.start.advanceAll inside := by
  obtain ⟨first, hfirst, hstart⟩ := SourceFile.positionAt_offset_iff.mp h.start
  obtain ⟨both, hboth, hstop⟩ := SourceFile.positionAt_offset_iff.mp h.stop
  have hordered := h.ordered
  rw [hstart, hstop, Position.offset_advanceAll_start, Position.offset_advanceAll_start] at hordered
  have hprefix : first <+: both := by
    rcases List.prefix_or_prefix_of_prefix hfirst hboth with hle | ⟨more, rfl⟩
    · exact hle
    · cases more with
      | nil => simp
      | cons c more =>
        have hpos := c.utf8Size_pos
        rw [byteLength_append, byteLength_cons] at hordered
        omega
  obtain ⟨inside, rfl⟩ := hprefix
  exact ⟨inside, by rw [hstop, hstart, Position.advanceAll_append]⟩

theorem line_le (h : span.LiesIn file) : span.start.line ≤ span.stop.line := by
  obtain ⟨inside, hstop⟩ := h.exists_advanceAll
  rw [hstop]
  exact Position.line_le_advanceAll _ _

theorem column_le (h : span.LiesIn file) (hline : span.stop.line = span.start.line) :
    span.start.column ≤ span.stop.column := by
  obtain ⟨inside, hstop⟩ := h.exists_advanceAll
  rw [hstop] at hline ⊢
  exact Position.column_le_advanceAll hline

end Span.LiesIn
end ExprScript
