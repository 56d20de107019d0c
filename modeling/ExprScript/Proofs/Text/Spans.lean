import ExprScript.Diagnostic.Basic
import ExprScript.Proofs.Text.Position

/-!
# Spans in a text

A span lies in a text if its ends are where a search for their offsets finds them. This is so of
everything between two places that going through the text comes to, and stays so where more text
follows.
-/
namespace ExprScript

/-- Parsers do not leave a set of spans that has the empty span, points and covers. -/
structure Span.Closed (P : Span → Prop) : Prop where
  none : P {}
  point : ∀ span, P span → P (.point span.start)
  merge : ∀ first last, P first → P last → P (first.merge last)

theorem Span.closed_true : Span.Closed fun _ => True where
  none := trivial
  point _ _ := trivial
  merge _ _ _ _ := trivial

/-- Whether a span is a stretch of a text, and its positions are those of their offsets there. -/
structure Span.LiesIn (file : SourceFile) (span : Span) : Prop where
  ordered : span.start.offset ≤ span.stop.offset
  within : span.stop.offset ≤ file.text.utf8ByteSize
  start : file.positionAt span.start.offset = span.start
  stop : file.positionAt span.stop.offset = span.stop

variable {file : SourceFile} {span : Span}

namespace SourceFile

/-- The places of a text are those that going through it comes to. -/
theorem positionAt_offset_iff {p : Position} :
    file.positionAt p.offset = p ↔
      ∃ first, first <+: file.text.toList ∧ p = Position.start.advanceAll first := by
  constructor
  · intro h
    refine ⟨(splitBytes p.offset file.text.toList).1, ⟨_, splitBytes_append ..⟩, ?_⟩
    rw [Position.advanceAll_start, ← positionAt_eq, h]
  · rintro ⟨first, ⟨rest, hrest⟩, rfl⟩
    rw [Position.offset_advanceAll_start, positionAt_byteLength hrest.symm]

end SourceFile

namespace Span

/-- What lies between two places that going through a text comes to. -/
theorem liesIn_of_append {first inside rest : List Char}
    (h : file.text.toList = first ++ inside ++ rest) :
    LiesIn file ⟨Position.start.advanceAll first, Position.start.advanceAll (first ++ inside)⟩ where
  ordered := by
    rw [Position.offset_advanceAll_start, Position.offset_advanceAll_start, byteLength_append]
    exact Nat.le_add_right ..
  within := by
    rw [Position.offset_advanceAll_start, ← byteLength_toList, h, byteLength_append _ rest]
    exact Nat.le_add_right ..
  start := SourceFile.positionAt_offset_iff.mpr
    ⟨first, ⟨inside ++ rest, by rw [h, List.append_assoc]⟩, rfl⟩
  stop := SourceFile.positionAt_offset_iff.mpr ⟨first ++ inside, ⟨rest, h.symm⟩, rfl⟩

theorem liesIn_closed (file : SourceFile) : Closed (LiesIn file) where
  none := by
    have hnothing : file.text.toList = [] ++ [] ++ file.text.toList := rfl
    exact liesIn_of_append hnothing
  point span h := ⟨Nat.le_refl _, Nat.le_trans h.ordered h.within, h.start, h.start⟩
  merge first last hfirst hlast := by
    unfold merge
    constructor <;> dsimp only
    · have hlast := hlast.ordered
      have hfirst := hfirst.ordered
      split <;> split <;> omega
    · split
      · exact hlast.within
      · exact hfirst.within
    · split
      · exact hlast.start
      · exact hfirst.start
    · split
      · exact hlast.stop
      · exact hfirst.stop

theorem LiesIn.rename {name : String} (h : LiesIn file span) : LiesIn ⟨name, file.text⟩ span :=
  ⟨h.ordered, h.within, h.start, h.stop⟩

theorem LiesIn.append {name other : String} {text more : String}
    (h : LiesIn ⟨name, text⟩ span) : LiesIn ⟨other, text ++ more⟩ span := by
  have hplace : ∀ p : Position, SourceFile.positionAt ⟨name, text⟩ p.offset = p →
      SourceFile.positionAt ⟨other, text ++ more⟩ p.offset = p := by
    intro p hp
    obtain ⟨first, hfirst, hplace⟩ := SourceFile.positionAt_offset_iff.mp hp
    refine SourceFile.positionAt_offset_iff.mpr ⟨first, ?_, hplace⟩
    rw [String.toList_append]
    exact hfirst.trans (List.prefix_append ..)
  refine ⟨h.ordered, ?_, hplace _ h.start, hplace _ h.stop⟩
  rw [String.utf8ByteSize_append]
  exact Nat.le_trans h.within (Nat.le_add_right ..)

end Span

/-! ## Diagnostics -/

namespace Diagnostic

/-- A diagnostic points at a span of a set, and nothing is attached to it yet. -/
structure PointsAt (P : Span → Prop) (d : Diagnostic) : Prop where
  span : P d.span
  bare : d = ⟨d.code, d.span, d.args, [], Option.none⟩

theorem PointsAt.source {P : Span → Prop} {d : Diagnostic} (h : d.PointsAt P) :
    d.source = Option.none := by
  rw [h.bare]

theorem PointsAt.frames {P : Span → Prop} {d : Diagnostic} (h : d.PointsAt P) : d.frames = [] := by
  rw [h.bare]

/-- A fault of code that runs: it points at a span of a set, nothing is attached to it yet, and it
does not tell of brackets, as only a parser does. -/
structure RaisedAt (P : Span → Prop) (d : Diagnostic) : Prop extends d.PointsAt P where
  code : (d.code == .unmatchedBracket) = false

/-- A diagnostic is attached to a text, and its span lies in that text. -/
def Placed (d : Diagnostic) : Prop := ∃ file, d.source = some file ∧ d.span.LiesIn file

end Diagnostic
end ExprScript
