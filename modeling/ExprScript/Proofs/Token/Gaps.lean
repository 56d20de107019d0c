import ExprScript.Proofs.Token.Lexer
import ExprScript.Proofs.Token.Spans
import Mathlib.Data.List.Chain

/-!
# Tokens and what is between them

Blanks, comments and pragmas leave no token, every other lexeme that can be read leaves one. So the
spans of the tokens of a text and what is between them make up the text, and what is between two
tokens has no token where it is read on its own.
-/
namespace ExprScript

/-! ## Lexemes without a token -/

def Lexeme.Silent : Lexeme → Prop
  | .skipped | .pragma .. => True
  | _ => False

/-- Whether a lexeme leaves a token, which is not the end of the input, unless it is a fault. -/
def Lexeme.Solid : Lexeme → Prop
  | .skipped | .pragma .. => False
  | .token kind => kind ≠ .mark .eof
  | _ => True

theorem Lexeme.Solid.not_silent {lexeme : Lexeme} (h : lexeme.Solid) : ¬ lexeme.Silent := by
  intro hsilent
  cases lexeme with
  | skipped => exact h
  | pragma name shown => exact h
  | _ => exact hsilent

namespace Scan

variable {cs : List Char}

theorem mark_solid {m : Mark} (hm : m ≠ .eof) (length : Nat) : (mark m length).lexeme.Solid := by
  simpa [mark, Lexeme.Solid] using hm

theorem word_solid (cs : List Char) : (word cs).lexeme.Solid := by
  unfold word
  dsimp only
  split <;> simp [Lexeme.Solid]

theorem number_solid (cs : List Char) : (number cs).lexeme.Solid := by
  unfold number
  dsimp only
  split
  · simp [Lexeme.Solid]
  · split <;> simp [Lexeme.Solid]

theorem dot_solid (attributed : Bool) (cs : List Char) : (dot attributed cs).lexeme.Solid := by
  have hdot : dot attributed cs = number cs ∨ dot attributed cs = mark .dot 1 :=
    ite_eq_or_eq ..
  rcases hdot with hdot | hdot
  · rw [hdot]
    exact number_solid cs
  · rw [hdot]
    exact mark_solid (by decide) 1

theorem strBody_solid (delimiter : Char) (cs value : List Char) (length : Nat) :
    (strBody delimiter cs value length).lexeme.Solid := by
  fun_induction strBody delimiter cs value length with
  | case6 => assumption
  | case7 => assumption
  | _ => trivial

theorem pair_solid {one two : Mark} (hone : one ≠ .eof) (htwo : two ≠ .eof) (second : Char)
    (cs : List Char) : (pair one two second cs).lexeme.Solid := by
  cases cs with
  | nil => exact mark_solid hone 1
  | cons c cs =>
    by_cases hc : c = second
    · simpa only [pair, hc, ↓reduceIte] using mark_solid htwo 2
    · simpa only [pair, hc, ↓reduceIte] using mark_solid hone 1

theorem assignEnd_solid (op : ArithOp) (length : Nat) (cs : List Char) :
    (assignEnd op length cs).lexeme.Solid := by
  fun_cases assignEnd op length cs with
  | case1 => exact mark_solid (by simp) _
  | case2 => exact mark_solid (by simp) _
  | case3 => exact mark_solid (by simp) _
  | case4 => trivial
  | case5 => trivial

theorem colon_solid (cs : List Char) : (colon cs).lexeme.Solid := by
  fun_cases colon cs with
  | case1 | case2 | case10 => exact mark_solid (by simp) _
  | case3 | case4 | case5 | case6 | case7 | case8 | case9 => exact assignEnd_solid ..

theorem singleMark?_ne_eof (c : Char) : singleMark? c ≠ some .eof := by
  fun_cases singleMark? c <;> simp

/-- Only blanks and what begins with a sign leave no token. -/
theorem next_solid {attributed : Bool} {c : Char} (htrivia : isTrivia c = false) (hhash : c ≠ '#') :
    (next attributed c cs).lexeme.Solid := by
  fun_cases next attributed c cs with
  | case1 =>
    rename_i htrue
    rw [htrivia] at htrue
    cases htrue
  | case2 => exact word_solid _
  | case3 => exact number_solid _
  | case4 => exact dot_solid ..
  | case5 => exact strBody_solid ..
  | case6 =>
    rename_i hsign
    exact absurd hsign hhash
  | case7 | case10 | case11 | case12 | case13 => exact pair_solid (by simp) (by simp) ..
  | case8 => exact mark_solid (by simp) _
  | case9 => trivial
  | case14 => exact colon_solid _
  | case15 =>
    rename_i m hm
    exact mark_solid (fun heof => singleMark?_ne_eof c (heof ▸ hm)) 1
  | case16 => trivial

/-! ## Lexemes without a token, read on their own -/

theorem takeWhile_behind {p : Char → Bool} {inside rest : List Char}
    (h : ((inside ++ rest).takeWhile p).length = inside.length) : rest.takeWhile p = [] := by
  rw [List.takeWhile_append] at h
  split at h
  · exact List.eq_nil_of_length_eq_zero (by simpa using h)
  · contradiction

/-- Where characters of one kind end at a cut, fewer characters behind it make no difference. -/
theorem takeWhile_cut {p q : Char → Bool} (hpq : ∀ c, q c = true → p c = true)
    {inside rest more : List Char}
    (h : ((inside ++ rest).takeWhile p).length = inside.length) (hmore : more <+: rest) :
    (inside ++ more).takeWhile q = (inside ++ rest).takeWhile q := by
  have hrest := takeWhile_behind h
  have hnone : ∀ cs, cs <+: rest → cs.takeWhile q = [] := by
    intro cs hcs
    cases cs with
    | nil => rfl
    | cons c cs =>
      obtain ⟨tail, rfl⟩ := hcs
      refine List.takeWhile_cons_of_neg fun hc => ?_
      simp [hpq c hc] at hrest
  rw [List.takeWhile_append, List.takeWhile_append, hnone more hmore, hnone rest List.prefix_rfl]

/-- A comment up to the next sign is the same where less follows. -/
theorem comment_cut {inside rest more : List Char} (hline : (inside ++ rest).head? ≠ some '#')
    (hpragma : (inside ++ rest).head? ≠ some '!')
    (h : (hash (inside ++ rest)).length = inside.length + 1) (hmore : more <+: rest) :
    hash (inside ++ more) = hash (inside ++ rest) := by
  by_cases hends : '#' ∈ inside
  · obtain ⟨first, second, rfl, hfirst⟩ := List.eq_append_cons_of_mem hends
    have hhead : (first ++ '#' :: second ++ rest).head? = (first ++ ['#']).head? := by
      cases first <;> rfl
    rw [hhead] at hline hpragma
    rw [List.append_assoc, List.cons_append, List.append_assoc, List.cons_append,
      hash_closed _ hline hpragma hfirst, hash_closed _ hline hpragma hfirst]
  · -- The comment does not end in what it takes, so that nothing follows it.
    have hne : ∀ a ∈ inside, decide (a ≠ '#') = true := fun a ha => by
      simpa using fun heq : a = '#' => hends (heq ▸ ha)
    have hrest : rest = [] := by
      rw [hash_eq hline hpragma, List.takeWhile_append_of_pos hne] at h
      simp only [List.length_append] at h
      have hnone : (rest.takeWhile (· ≠ '#')).length = 0 := by omega
      rw [hnone] at h
      by_contra hsome
      simp [hsome] at h
    subst hrest
    rw [List.prefix_nil.mp hmore]

/-- A comment or a pragma is the same where less follows. -/
theorem hash_cut {inside rest more : List Char}
    (h : (hash (inside ++ rest)).length = inside.length + 1) (hmore : more <+: rest) :
    hash (inside ++ more) = hash (inside ++ rest) := by
  by_cases hline : (inside ++ rest).head? = some '#'
  · cases inside with
    | nil =>
      obtain ⟨tail, htail⟩ := List.head?_eq_some_iff.mp hline
      rw [htail] at h
      simp only [hash, List.length_nil] at h
      omega
    | cons c inside =>
      obtain rfl : c = '#' := by simpa using hline
      have htake : ((inside ++ rest).takeWhile (· ≠ '\n')).length = inside.length := by
        simp only [hash, List.cons_append, List.length_cons] at h
        omega
      simp only [hash, List.cons_append, takeWhile_cut (fun _ hc => hc) htake hmore]
  by_cases hpragma : (inside ++ rest).head? = some '!'
  · cases inside with
    | nil =>
      obtain ⟨tail, htail⟩ := List.head?_eq_some_iff.mp hpragma
      rw [htail] at h
      simp only [hash, List.length_nil] at h
      omega
    | cons c inside =>
      obtain rfl : c = '!' := by simpa using hpragma
      have htake : ((inside ++ rest).takeWhile (· ≠ '\n')).length = inside.length := by
        simp only [hash, List.cons_append, List.length_cons] at h
        omega
      have hword : ∀ c, isWordChar c = true → decide (c ≠ '\n') = true := by
        intro c hc
        have hne : c ≠ '\n' := by
          rintro rfl
          exact absurd hc (by decide)
        simpa using hne
      simp only [hash, List.cons_append, takeWhile_cut (fun _ hc => hc) htake hmore,
        takeWhile_cut hword htake hmore]
  · exact comment_cut hline hpragma h hmore

/-- A lexeme that leaves no token is the same where less follows, whatever is before. -/
theorem next_cut {attributed : Bool} {c : Char} {inside rest more : List Char}
    (hsilent : (next attributed c (inside ++ rest)).lexeme.Silent)
    (h : (next attributed c (inside ++ rest)).length = inside.length + 1)
    (hmore : more <+: rest) (other : Bool) :
    next other c (inside ++ more) = next attributed c (inside ++ rest) := by
  by_cases htrivia : isTrivia c = true
  · have hnext : ∀ before cs,
        next before c cs = ⟨.skipped, ((c :: cs).takeWhile isTrivia).length⟩ := by
      intro before cs
      simp [next, htrivia]
    rw [hnext] at h
    rw [hnext, hnext, ← List.cons_append, ← List.cons_append,
      takeWhile_cut (fun _ hc => hc) h hmore]
  by_cases hhash : c = '#'
  · subst hhash
    exact hash_cut h hmore
  · have hsolid : (next attributed c (inside ++ rest)).lexeme.Solid :=
      next_solid (by simpa using htrivia) hhash
    exact (hsolid.not_silent hsilent).elim

theorem hash_silent (cs : List Char) : (hash cs).lexeme.Silent := by
  fun_cases hash cs <;> trivial

theorem silent_or_solid (attributed : Bool) (c : Char) (cs : List Char) :
    (next attributed c cs).lexeme.Silent ∨ (next attributed c cs).lexeme.Solid := by
  by_cases htrivia : isTrivia c = true
  · left
    simp [next, htrivia, Lexeme.Silent]
  by_cases hhash : c = '#'
  · subst hhash
    exact .inl (hash_silent cs)
  · exact .inr (next_solid (by simpa using htrivia) hhash)

end Scan

theorem Lexeme.Silent.readable {lexeme : Lexeme} (h : lexeme.Silent) : lexeme.Readable := by
  rintro cause rfl
  exact h

namespace Lexing

variable {file : SourceFile} {s t u : Lexing} {c : Char} {cs : List Char}

/-! ## Stretches without a token -/

/-- Taking a lexeme in leaves nothing or one token, which covers what was taken. -/
theorem after_tokens (hreadable : (s.scan c cs).lexeme.Readable) :
    (s.scan c cs).lexeme.Silent ∧ (s.after c cs).tokens = s.tokens ∨
      ∃ kind, kind ≠ .mark .eof ∧
        (s.after c cs).tokens = s.tokens.push ⟨kind, s.place, (s.after c cs).place⟩ := by
  have hkind := Scan.silent_or_solid s.attributed c cs
  rw [after_place]
  unfold after accept
  change (s.scan c cs).lexeme.Silent ∨ (s.scan c cs).lexeme.Solid at hkind
  cases hlexeme : (s.scan c cs).lexeme with
  | skipped => exact .inl ⟨trivial, rfl⟩
  | pragma name shown =>
    left
    refine ⟨trivial, ?_⟩
    dsimp only
    split <;> rfl
  | word text => exact .inr ⟨.ident _, by simp, rfl⟩
  | str value delimiter closed =>
    right
    cases closed <;> exact ⟨.str _, by simp, rfl⟩
  | token kind =>
    rw [hlexeme] at hkind
    exact .inr ⟨kind, hkind.resolve_left id, rfl⟩
  | fault cause => exact absurd hlexeme (hreadable cause)

/-- Whether taking lexemes off the text goes from one state to another and finds no token. -/
inductive Skips : Lexing → Lexing → Prop
  | done (s : Lexing) : Skips s s
  | next {s t : Lexing} {c : Char} {cs : List Char} (hrest : s.rest = c :: cs)
      (hsilent : (s.scan c cs).lexeme.Silent) (hskips : Skips (s.after c cs) t) : Skips s t

theorem Skips.reads (h : s.Skips t) : s.Reads t := by
  induction h with
  | done s => exact .done s
  | next hrest hsilent _ ih => exact .next hrest hsilent.readable ih

theorem Skips.concat (h : s.Skips t) (hrest : t.rest = c :: cs)
    (hsilent : (t.scan c cs).lexeme.Silent) : s.Skips (t.after c cs) := by
  induction h with
  | done s => exact .next hrest hsilent (.done _)
  | next hfirst hfirstSilent _ ih => exact .next hfirst hfirstSilent (ih hrest hsilent)

theorem tokens_of_silent (hsilent : (s.scan c cs).lexeme.Silent) :
    (s.after c cs).tokens = s.tokens := by
  unfold after accept
  cases hlexeme : (s.scan c cs).lexeme with
  | skipped => rfl
  | pragma name shown =>
    dsimp only
    split <;> rfl
  | _ =>
    rw [hlexeme] at hsilent
    exact hsilent.elim

theorem Skips.tokens (h : s.Skips t) : t.tokens = s.tokens := by
  induction h with
  | done s => rfl
  | next _ hsilent _ ih => rw [ih, tokens_of_silent hsilent]

/-- A lexeme without a token is the same on its own, up to where the reading stops. -/
theorem after_alone {gap rest : List Char} (hsilent : (s.scan c cs).lexeme.Silent)
    (hrest : (s.after c cs).rest = gap ++ rest) (u : Lexing) :
    ∃ inside, s.taken c cs = c :: inside ∧ (u.scan c (inside ++ gap)).lexeme.Silent ∧
      (u.after c (inside ++ gap)).rest = gap := by
  obtain ⟨hpos, hle⟩ := Scan.next_length s.attributed c cs
  obtain ⟨n, hn⟩ : ∃ n, (Scan.next s.attributed c cs).length = n + 1 :=
    ⟨(Scan.next s.attributed c cs).length - 1, by omega⟩
  rw [hn] at hle
  have htake : (cs.take n).length = n := by
    rw [List.length_take]
    omega
  have hbehind : cs.drop n = gap ++ rest := by
    rw [after_rest] at hrest
    unfold scan at hrest
    rwa [hn, List.drop_succ_cons] at hrest
  have hcs : cs = cs.take n ++ cs.drop n := (List.take_append_drop ..).symm
  have hsame : u.scan c (cs.take n ++ gap) = s.scan c cs := by
    unfold scan at hsilent ⊢
    rw [hcs] at hsilent hn
    have hcut := Scan.next_cut hsilent (by rw [hn, htake]) ⟨rest, hbehind.symm⟩ u.attributed
    rwa [← hcs] at hcut
  refine ⟨cs.take n, ?_, ?_, ?_⟩
  · unfold taken scan
    rw [hn, List.take_succ_cons]
  · rwa [hsame]
  · rw [after_rest, hsame]
    unfold scan
    rw [hn, List.drop_succ_cons, List.drop_left' htake]

theorem Skips.alone (h : s.Skips t) {gap : List Char} (hgap : s.rest = gap ++ t.rest)
    (hu : u.rest = gap) : ∃ v, u.Skips v ∧ v.rest = [] := by
  induction h generalizing gap u with
  | done s =>
    have hnothing : gap = [] := by simpa using hgap
    exact ⟨u, .done u, hu.trans hnothing⟩
  | @next s t c cs hrest hsilent hskips ih =>
    obtain ⟨more, hmore, -⟩ := hskips.reads.place
    obtain ⟨inside, htaken, hsilent', hbehind⟩ := after_alone hsilent hmore u
    have htext : gap = c :: (inside ++ more) := by
      have hall := taken_append s c cs
      rw [htaken, hmore, ← hrest, hgap, ← List.append_assoc] at hall
      exact (List.append_cancel_right hall).symm
    obtain ⟨v, hskips', hend⟩ := ih hmore hbehind
    exact ⟨v, .next (hu.trans htext) hsilent' hskips', hend⟩

end Lexing

/-! ## Gaps -/

/-- Whether a text has no token but the end of the input. -/
def SourceFile.Tokenless (file : SourceFile) : Prop :=
  ∀ names, ∃ lexed span, (lex file names).outcome = .ok lexed ∧
    lexed.tokens = [⟨.mark .eof, span⟩]

/-- Whether a place comes before another, or is the same, and the text between them has no token
where it is read on its own. -/
def SourceFile.Gap (file : SourceFile) (p q : Position) : Prop :=
  ∃ gap, file.slice p.offset q.offset = some gap ∧ ∀ name, Tokenless ⟨name, gap⟩

theorem lex_eq (file : SourceFile) (names : Interner) :
    lex file names = lexText file.text.toList Position.start names := by
  have hsplit : splitBytes 0 file.text.toList = ([], file.text.toList) :=
    splitBytes_byteLength [] _
  unfold lex lexFrom
  have hoffset : Position.start.offset = 0 := rfl
  rw [hoffset, hsplit]

namespace Lexing

variable {file : SourceFile} {s t u : Lexing} {c : Char} {cs : List Char}

theorem tokenless_of_skips {text : List Char}
    (h : ∀ names, ∃ v, (ofText text Position.start names).Skips v ∧ v.rest = []) (name : String) :
    SourceFile.Tokenless ⟨name, String.ofList text⟩ := by
  intro names
  obtain ⟨v, hskips, hend⟩ := h names
  have htokens : v.tokens = #[] := hskips.tokens
  rw [lex_eq, String.toList_ofList, lexText_of_reads hskips.reads hend]
  exact ⟨_, Span.point v.place, rfl, by simp [htokens]⟩

/-- Where nothing but lexemes without a token are between two states there is a gap. -/
theorem Skips.gap (h : s.Skips t) (hplaced : s.Placed file) : file.Gap s.place t.place := by
  obtain ⟨before, htext, hplace⟩ := hplaced.text
  obtain ⟨gap, hgap, hstop⟩ := h.reads.place
  rw [hgap] at htext
  refine ⟨String.ofList gap, ?_, ?_⟩
  · have hstart : s.place.offset = byteLength before := by
      rw [hplace, Position.offset_advanceAll_start]
    rw [hstop, Position.offset_advanceAll, hstart]
    exact SourceFile.slice_append htext
  · apply tokenless_of_skips
    intro names
    exact h.alone hgap rfl

/-! ## Tokens one after another -/

theorem Reads.placed (h : s.Reads t) (hplaced : s.Placed file) : t.Placed file := by
  induction h with
  | done s => exact hplaced
  | next hrest _ _ ih => exact ih (hplaced.after hrest)

/-- The tokens that are found on the way to the end of the text stand one after another, with gaps
before, between and behind them. -/
theorem Reads.gaps (h : s.Reads t) (hend : t.rest = []) (hskips : u.Skips s)
    (hplaced : u.Placed file) :
    ∃ found, t.tokens.toList = u.tokens.toList ++ found ∧
      (∀ token ∈ found, token.kind ≠ .mark .eof ∧
        token.span.start.offset < token.span.stop.offset) ∧
      List.IsChain (fun a b => file.Gap a.stop b.start)
        (.point u.place :: (found.map (·.span) ++ [.point t.place])) := by
  induction h generalizing u with
  | done s =>
    refine ⟨[], by simp [hskips.tokens], by simp, ?_⟩
    exact .cons_cons (hskips.gap hplaced) (.singleton _)
  | @next s t c cs hrest hreadable hreads ih =>
    rcases after_tokens hreadable with ⟨hsilent, -⟩ | ⟨kind, hkind, htokens⟩
    · exact ih hend (hskips.concat hrest hsilent) hplaced
    · have hafter := (hskips.reads.placed hplaced).after hrest
      obtain ⟨found, hfound, hkinds, hchain⟩ := ih hend (.done _) hafter
      refine ⟨⟨kind, s.place, (s.after c cs).place⟩ :: found, ?_, ?_, ?_⟩
      · rw [hfound, htokens, hskips.tokens]
        simp
      · intro token htoken
        rcases List.mem_cons.mp htoken with rfl | htoken
        · exact ⟨hkind, lt_after_place s c cs⟩
        · exact hkinds token htoken
      · rw [List.map_cons, List.cons_append]
        apply List.isChain_cons_cons.mpr
        refine ⟨hskips.gap hplaced, ?_⟩
        -- The gap behind the token starts where the token ends.
        apply hchain.imp_head
        intro next hgap
        exact hgap

end Lexing

theorem pairwise_of_chain {first : Span} {spans : List Span}
    (hchain : List.IsChain (fun a b : Span => a.stop.offset ≤ b.start.offset) (first :: spans))
    (hordered : ∀ span ∈ spans, span.start.offset ≤ span.stop.offset) :
    (∀ span ∈ spans, first.stop.offset ≤ span.start.offset) ∧
      spans.Pairwise fun a b => a.stop.offset ≤ b.start.offset := by
  induction spans generalizing first with
  | nil => simp
  | cons span spans ih =>
    obtain ⟨hfirst, hrest⟩ := List.isChain_cons_cons.mp hchain
    obtain ⟨hbehind, hpairs⟩ := ih hrest fun other hother => hordered other (by simp [hother])
    have hspan := hordered span (by simp)
    refine ⟨?_, List.pairwise_cons.mpr ⟨hbehind, hpairs⟩⟩
    intro other hother
    rcases List.mem_cons.mp hother with rfl | hother
    · exact hfirst
    · have hother := hbehind other hother
      omega

/-- Tokens that cover a text: only the last is the end of the input, which stands at the end of the
text. The others take characters, come one after another, and have gaps around them. -/
structure Lexed.Covers (file : SourceFile) (lexed : Lexed) : Prop where
  ends : ∃ tokens place, lexed.tokens = tokens ++ [⟨.mark .eof, .point place⟩] ∧
    place.offset = file.text.utf8ByteSize ∧
    ∀ token ∈ tokens, token.kind ≠ .mark .eof ∧ token.span.start.offset < token.span.stop.offset
  placed : ∀ token ∈ lexed.tokens, token.span.LiesIn file
  apart : lexed.tokens.Pairwise fun a b => a.span.stop.offset ≤ b.span.start.offset
  gaps : List.IsChain (fun a b => file.Gap a.stop b.start)
    (.point .start :: lexed.tokens.map (·.span))

theorem SourceFile.Gap.le {file : SourceFile} {p q : Position} (h : file.Gap p q) :
    p.offset ≤ q.offset := by
  obtain ⟨gap, hslice, -⟩ := h
  unfold slice at hslice
  grind

open Lexing in
/-- A text that can be lexed is covered by its tokens. Otherwise the fault lies in the text. -/
theorem lex_covers (file : SourceFile) (names : Interner) :
    match (lex file names).outcome with
    | .ok lexed => lexed.Covers file
    | .error d => d.span.LiesIn file := by
  have hplaced := lexFrom_placed names (Span.liesIn_closed file).none.start
  cases houtcome : (lex file names).outcome with
  | error d => exact (hplaced.fault d houtcome).span
  | ok lexed =>
    have htokens := hplaced.tokens lexed houtcome
    rw [lex_eq] at houtcome
    obtain ⟨t, hreads, hend, -, rfl⟩ := reads_of_lexText houtcome
    have hstart : (ofText file.text.toList Position.start names).Placed file :=
      ⟨⟨[], rfl, rfl⟩, by simp [ofText], by simp [ofText]⟩
    obtain ⟨found, hfound, hkinds, hchain⟩ := hreads.gaps hend (.done _) hstart
    have hspans : ((t.tokens.toList ++ [⟨.mark .eof, .point t.place⟩] : List Token).map (·.span)) =
        found.map (·.span) ++ [.point t.place] := by
      simp [hfound, ofText]
    have hordered : ∀ span ∈ found.map (·.span) ++ [.point t.place],
        span.start.offset ≤ span.stop.offset := by
      intro span hspan
      rw [← hspans] at hspan
      obtain ⟨token, htoken, rfl⟩ := List.mem_map.mp hspan
      exact (htokens token htoken).ordered
    obtain ⟨-, hpairs⟩ := pairwise_of_chain (hchain.imp fun _ _ hgap => hgap.le) hordered
    have hplace : t.place.offset = file.text.utf8ByteSize := by
      obtain ⟨chars, hchars, hplace⟩ := hreads.place
      rw [hend, List.append_nil] at hchars
      rw [hplace, ← byteLength_toList, ← hchars]
      exact Position.offset_advanceAll_start _
    refine ⟨⟨found, t.place, by simp [hfound, ofText], hplace, hkinds⟩, htokens, ?_, ?_⟩
    · rw [← hspans, List.pairwise_map] at hpairs
      exact hpairs
    · rw [hspans]
      exact hchain

end ExprScript
