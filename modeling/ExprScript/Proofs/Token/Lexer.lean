import ExprScript.Proofs.Token.Run

/-!
# Lexing a text in parts

A text that is cut at a line feed may be lexed part by part, unless the cut is inside a comment: the
first part has the same lexemes where more text follows, and lexing goes on from the place and the
names that the first part leaves.
-/
namespace ExprScript

/-- Whether the lexemes of a text come to a comment without an end, given whether the token before
has attributes. -/
inductive EndsInComment : Bool → List Char → Prop
  | here {attributed : Bool} {c : Char} {cs : List Char} (hopen : Scan.OpensComment c cs) :
      EndsInComment attributed (c :: cs)
  | later {attributed : Bool} {c : Char} {cs : List Char}
      (hreadable : (Scan.next attributed c cs).lexeme.Readable)
      (hrest : EndsInComment ((Scan.next attributed c cs).lexeme.attributed attributed)
        ((c :: cs).drop (Scan.next attributed c cs).length)) :
      EndsInComment attributed (c :: cs)

namespace Lexing

variable {s t : Lexing} {c : Char} {cs : List Char}

/-! ## More text behind a line feed -/

def followedBy (s : Lexing) (ys : List Char) : Lexing := { s with rest := s.rest ++ '\n' :: ys }

theorem accept_followedBy (s : Lexing) (ys : List Char) (lexeme : Lexeme) (chars : List Char)
    (span : Span) :
    (s.followedBy ys).accept lexeme chars span = (s.accept lexeme chars span).followedBy ys := by
  unfold accept
  cases lexeme with
  | pragma name shown =>
    dsimp only
    split <;> rfl
  | str value delimiter closed => cases closed <;> rfl
  | _ => rfl

theorem scan_followedBy (ys : List Char) (hreadable : (s.scan c cs).lexeme.Readable)
    (hopen : ¬Scan.OpensComment c cs) :
    (s.followedBy ys).scan c (cs ++ '\n' :: ys) = s.scan c cs :=
  Scan.next_lineFeed ys hreadable hopen

theorem after_followedBy (ys : List Char)
    (hreadable : (s.scan c cs).lexeme.Readable) (hopen : ¬Scan.OpensComment c cs) :
    (s.followedBy ys).after c (cs ++ '\n' :: ys) = (s.after c cs).followedBy ys := by
  have hscan := scan_followedBy ys hreadable hopen
  have hlength : (s.scan c cs).length ≤ (c :: cs).length := (Scan.next_length s.attributed c cs).2
  have htaken : (s.followedBy ys).taken c (cs ++ '\n' :: ys) = s.taken c cs := by
    unfold taken
    rw [hscan, ← List.cons_append, List.take_append_of_le_length hlength]
  have hpast : (s.followedBy ys).past c (cs ++ '\n' :: ys) = (s.past c cs).followedBy ys := by
    unfold past
    rw [hscan, htaken, ← List.cons_append, List.drop_append_of_le_length hlength]
    rfl
  unfold after
  rw [hscan, htaken, hpast, accept_followedBy]
  rfl

theorem Reads.followedBy (h : s.Reads t) (ys : List Char)
    (hcomment : ¬EndsInComment s.attributed s.rest) :
    (s.followedBy ys).Reads (t.followedBy ys) := by
  induction h with
  | done s => exact .done _
  | @next s t c cs hrest hreadable _ ih =>
    rw [hrest] at hcomment
    have hopen : ¬Scan.OpensComment c cs := fun hopen => hcomment (.here hopen)
    have hbehind : ¬EndsInComment (s.after c cs).attributed (s.after c cs).rest := fun hbehind => by
      rw [after_rest] at hbehind
      exact hcomment (.later hreadable (attributed_accept (s.past c cs) .. ▸ hbehind))
    have hmore : (s.followedBy ys).rest = c :: (cs ++ '\n' :: ys) := by
      simp [Lexing.followedBy, hrest]
    refine .next hmore (scan_followedBy ys hreadable hopen ▸ hreadable) ?_
    rw [after_followedBy ys hreadable hopen]
    exact ih hbehind

/-- A line that ends in a comment comes to that comment where more lines follow, too. -/
theorem reads_comment (ys : List Char) (h : EndsInComment s.attributed s.rest) :
    ∃ t cs, (s.followedBy ys).Reads t ∧ t.rest = '#' :: (cs ++ '\n' :: ys) ∧
      Scan.OpensComment '#' cs := by
  generalize hattributed : s.attributed = attributed at h
  generalize htext : s.rest = text at h
  induction h generalizing s with
  | @here attributed c cs hopen =>
    obtain ⟨rfl, -⟩ := id hopen
    exact ⟨_, cs, .done _, by simp [followedBy, htext], hopen⟩
  | @later attributed c cs hreadable _ ih =>
    subst hattributed
    have hmore : (s.followedBy ys).rest = c :: (cs ++ '\n' :: ys) := by simp [followedBy, htext]
    by_cases hopen : Scan.OpensComment c cs
    · obtain ⟨rfl, -⟩ := id hopen
      exact ⟨_, cs, .done _, hmore, hopen⟩
    · obtain ⟨t, rest, hreads, ht⟩ := ih (s := s.after c cs) (attributed_accept (s.past c cs) ..)
        (after_rest s c cs)
      refine ⟨t, rest, .next hmore ?_ ?_, ht⟩
      · rw [scan_followedBy ys hreadable hopen]
        exact hreadable
      · rw [after_followedBy ys hreadable hopen]
        exact hreads

/-! ## Parts -/

/-- A line is read as it is alone, and the rest as from the place behind it. -/
theorem run_lineFeed (hreads : s.Reads t) (hrest : t.rest = [])
    (hcomment : ¬EndsInComment s.attributed s.rest) (ys : List Char) {steps : Nat}
    (hsteps : (s.followedBy ys).rest.length < steps) :
    run steps (s.followedBy ys) =
      (t.behind (run (ys.length + 2) (ofText ('\n' :: ys) t.place t.names)).1,
        (run (ys.length + 2) (ofText ('\n' :: ys) t.place t.names)).2) := by
  have htext : (t.followedBy ys).rest = '\n' :: ys := by simp [Lexing.followedBy, hrest]
  have hmore : (t.followedBy ys).rest.length < ys.length + 2 := by simp [htext]
  rw [(hreads.followedBy ys hcomment).run_eq hsteps hmore, ← run_behind]
  -- The line feed is a token whatever is before it, and is before all that follows.
  have hbehind : (t.behind (ofText ('\n' :: ys) t.place t.names)).rest = '\n' :: ys := rfl
  rw [run_of_readable _ htext (by intro cause h; cases h),
    run_of_readable _ hbehind (by intro cause h; cases h)]
  congr 1

/-- A comment that the line does not end goes on behind the line. -/
theorem after_comment (ys : List Char) (hopen : Scan.OpensComment '#' cs) :
    (s.scan '#' (cs ++ '\n' :: ys)).lexeme.Readable ∧
      (s.after '#' (cs ++ '\n' :: ys)).tokens = s.tokens ∧
      (s.place.advanceAll ('#' :: cs)).offset < (s.after '#' (cs ++ '\n' :: ys)).place.offset := by
  obtain ⟨hskipped, hlong⟩ := Scan.hash_of_opens ys hopen
  have hscan : s.scan '#' (cs ++ '\n' :: ys) = Scan.hash (cs ++ '\n' :: ys) := rfl
  refine ⟨?_, ?_, ?_⟩
  · rw [hscan, hskipped]
    intro cause hfault
    cases hfault
  · unfold after
    rw [hscan, hskipped]
    rfl
  · have htaken : s.taken '#' (cs ++ '\n' :: ys) = ('#' :: cs) ++
        ('\n' :: ys).take ((Scan.hash (cs ++ '\n' :: ys)).length - (cs.length + 1)) := by
      unfold taken
      rw [hscan, ← List.cons_append, List.take_append, List.take_of_length_le]
      · rfl
      · simp only [List.length_cons]
        omega
    obtain ⟨n, hn⟩ : ∃ n, (Scan.hash (cs ++ '\n' :: ys)).length - (cs.length + 1) = n + 1 :=
      ⟨(Scan.hash (cs ++ '\n' :: ys)).length - (cs.length + 2), by omega⟩
    have hpos := Char.utf8Size_pos '\n'
    rw [after_place, htaken, hn, List.take_succ_cons]
    simp only [Position.offset_advanceAll, byteLength_append, byteLength_cons]
    omega

end Lexing

/-! ## Texts -/

theorem withoutEof_append (tokens : List Token) (span : Span) :
    withoutEof (tokens ++ [⟨.mark .eof, span⟩]) = tokens := by
  simp [withoutEof, TokenKind.isMark, TokenKind.mark?]

namespace LexResult

def join (first : LexResult) (lexed : Lexed) (second : LexResult) : LexResult :=
  ⟨second.names, first.warnings ++ second.warnings,
    match second.outcome with
    | .error d => .error d
    | .ok more => .ok ⟨withoutEof lexed.tokens ++ more.tokens, lexed.pragmas ++ more.pragmas⟩⟩

end LexResult

open Lexing

theorem run_of_lexText {text : List Char} {place : Position} {names : Interner} {lexed : Lexed}
    (h : (lexText text place names).outcome = .ok lexed) :
    ∃ u, run (text.length + 1) (ofText text place names) = (u, none) ∧
      lexText text place names = ⟨u.names, u.warnings.toList, .ok lexed⟩ ∧
      lexed = ⟨u.tokens.toList, u.pragmas.toList⟩ := by
  unfold lexText at h ⊢
  cases hrun : run (text.length + 1) (ofText text place names) with
  | mk u fault =>
    rw [hrun] at h
    cases fault with
    | some d => cases h
    | none =>
      cases h
      exact ⟨u, rfl, rfl, rfl⟩

theorem reads_of_lexText {text : List Char} {place : Position} {names : Interner} {lexed : Lexed}
    (h : (lexText text place names).outcome = .ok lexed) :
    ∃ t, (ofText text place names).Reads t ∧ t.rest = [] ∧
      lexText text place names = ⟨t.names, t.warnings.toList, .ok lexed⟩ ∧
      lexed = ⟨t.tokens.toList ++ [⟨.mark .eof, Span.point t.place⟩], t.pragmas.toList⟩ := by
  obtain ⟨u, hrun, hresult, hlexed⟩ := run_of_lexText h
  obtain ⟨t, hreads, hrest, rfl⟩ := reads_of_run (Nat.lt_succ_self _) hrun
  exact ⟨t, hreads, hrest, hresult, by simp [hlexed, emit]⟩

/-- A text that is read to its end is lexed to what was found on the way. -/
theorem lexText_of_reads {text : List Char} {place : Position} {names : Interner} {t : Lexing}
    (h : (ofText text place names).Reads t) (hrest : t.rest = []) :
    lexText text place names = ⟨t.names, t.warnings.toList,
      .ok ⟨t.tokens.toList ++ [⟨.mark .eof, Span.point t.place⟩], t.pragmas.toList⟩⟩ := by
  have hrun : run (text.length + 1) (ofText text place names) =
      (t.emit (.mark .eof) (Span.point t.place), none) := by
    rw [← run_of_nil 0 hrest]
    exact h.run_eq (Nat.lt_succ_self _) (by simp [hrest])
  unfold lexText
  rw [hrun]
  simp [LexResult.ofRun, emit]

/-- Tokens of a text lose their end where other tokens are in front, too. -/
theorem withoutEof_of_lexText {text : List Char} {place : Position} {names : Interner}
    {lexed : Lexed} (h : (lexText text place names).outcome = .ok lexed) (earlier : List Token) :
    withoutEof (earlier ++ lexed.tokens) = earlier ++ withoutEof lexed.tokens := by
  obtain ⟨t, -, -, -, rfl⟩ := reads_of_lexText h
  rw [← List.append_assoc, withoutEof_append, withoutEof_append]

/-- A text that is cut at a line feed outside of comments is lexed in parts. -/
theorem lexText_join {text : List Char} {place : Position} {names : Interner} {lexed : Lexed}
    (h : (lexText text place names).outcome = .ok lexed) (hcomment : ¬EndsInComment false text)
    (ys : List Char) :
    lexText (text ++ '\n' :: ys) place names =
      (lexText text place names).join lexed
        (lexText ('\n' :: ys) (place.advanceAll text) (lexText text place names).names) := by
  obtain ⟨t, hreads, hrest, hfirst, hlexed⟩ := reads_of_lexText h
  have hplace : place.advanceAll text = t.place := by
    obtain ⟨chars, hchars, hplace⟩ := hreads.place
    rw [hrest, List.append_nil] at hchars
    rw [hplace, ← hchars]
    rfl
  have hrun : run ((text ++ '\n' :: ys).length + 1)
      (ofText (text ++ '\n' :: ys) place names) = _ :=
    run_lineFeed hreads hrest hcomment ys (Nat.lt_succ_self _)
  rw [hfirst, hplace]
  unfold lexText
  rw [hrun, hlexed]
  dsimp only [List.length_cons]
  cases run (ys.length + 2) (ofText ('\n' :: ys) t.place t.names) with
  | mk s fault =>
    cases fault <;> simp [LexResult.ofRun, LexResult.join, Lexing.behind, withoutEof_append]

theorem newline_of_lexText {ys : List Char} {place : Position} {names : Interner} {lexed : Lexed}
    (h : (lexText ('\n' :: ys) place names).outcome = .ok lexed) :
    ∃ token rest, token.span.start = place ∧ withoutEof lexed.tokens = token :: rest ∧
      token :: rest <+: lexed.tokens := by
  obtain ⟨t, hreads, hrest, -, rfl⟩ := reads_of_lexText h
  rw [withoutEof_append]
  cases hreads with
  | done => cases hrest
  | next hfeed _ hreads =>
    cases hfeed
    obtain ⟨found, hfound, -⟩ := hreads.tokens
    rw [hfound, Array.toList_append]
    exact ⟨⟨.mark .newline, ⟨place, place.advance '\n'⟩⟩, found.toList, rfl, rfl,
      List.prefix_append ..⟩

/-- Where a line ends in a comment and more lines follow, no token starts at its end. -/
theorem not_start_of_comment {text ys : List Char} {place : Position} {names : Interner}
    {lexed : Lexed} (hcomment : EndsInComment false text)
    (h : (lexText (text ++ '\n' :: ys) place names).outcome = .ok lexed) :
    ∀ token ∈ lexed.tokens, token.span.start ≠ place.advanceAll text := by
  obtain ⟨u, hrun, -, rfl⟩ := run_of_lexText h
  obtain ⟨t, cs, hreads, hrest, hopen⟩ := reads_comment (s := ofText text place names) ys hcomment
  obtain ⟨hreadable, htokens, hstop⟩ := after_comment (s := t) ys hopen
  -- The run comes to the comment and goes on behind it.
  have hbehind : run (t.rest.length + 1) (t.after '#' (cs ++ '\n' :: ys)) = (u, none) := by
    rw [← run_of_readable _ hrest hreadable, ← hrun]
    exact (hreads.run_eq (Nat.lt_succ_self _) (by omega)).symm
  have hsteps := length_after_rest t '#' (cs ++ '\n' :: ys)
  obtain ⟨before, hbefore, hfirst⟩ := hreads.tokens
  obtain ⟨found, hfound, hlast⟩ := tokens_of_run (by rw [hrest, List.length_cons]; omega) hbehind
  -- The end of the line is inside the comment.
  have hplace : place.advanceAll text = t.place.advanceAll ('#' :: cs) := by
    obtain ⟨chars, hchars, hplace⟩ := hreads.place
    rw [hrest, ← List.cons_append, ← List.append_assoc] at hchars
    have htext : text = chars ++ '#' :: cs := List.append_cancel_right hchars
    rw [hplace, htext, Position.advanceAll_append]
    rfl
  have hstart : t.place.offset ≤ (t.place.advanceAll ('#' :: cs)).offset := by
    rw [Position.offset_advanceAll]
    exact Nat.le_add_right ..
  intro token htoken hsame
  rw [hplace] at hsame
  rw [← hsame] at hstart hstop
  have hmem : token ∈ before ∨ token ∈ found := by
    simpa [hfound, htokens, hbefore, followedBy, ofText] using htoken
  rcases hmem with hmem | hmem
  · have hlt := (hfirst token hmem).2
    omega
  · have hle := hlast token hmem
    omega

end ExprScript
