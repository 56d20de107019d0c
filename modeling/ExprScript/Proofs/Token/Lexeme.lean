import Mathlib.Tactic.ByContra
import ExprScript.Token.Lexeme

/-!
# Lexemes at the end of a line

A lexeme of a line is the same lexeme where more lines follow, since nothing but a comment between
two signs goes on behind a line feed.
-/
namespace ExprScript

def Lexeme.Readable (lexeme : Lexeme) : Prop := ∀ cause, lexeme ≠ .fault cause

namespace Scan

/-- Whether a text begins with a comment that ends in no sign. -/
def OpensComment (c : Char) (cs : List Char) : Prop := c = '#' ∧ cs.head? ≠ some '!' ∧ '#' ∉ cs

variable {p : Char → Bool} {cs : List Char} (ys : List Char)

theorem takeWhile_lineFeed (hp : p '\n' = false) :
    (cs ++ '\n' :: ys).takeWhile p = cs.takeWhile p := by
  induction cs with
  | nil => simp [hp]
  | cons c cs ih => simp [List.takeWhile_cons, ih]

theorem dropWhile_lineFeed (hp : p '\n' = false) :
    (cs ++ '\n' :: ys).dropWhile p = cs.dropWhile p ++ '\n' :: ys := by
  induction cs with
  | nil => simp [hp]
  | cons c cs ih =>
    simp only [List.cons_append, List.dropWhile_cons, ih]
    split <;> rfl

/-! ## Each kind of lexeme -/

theorem word_lineFeed : word (cs ++ '\n' :: ys) = word cs := by
  unfold word
  rw [takeWhile_lineFeed ys (by decide)]

theorem number_lineFeed : number (cs ++ '\n' :: ys) = number cs := by
  unfold number
  rw [takeWhile_lineFeed ys (by decide), dropWhile_lineFeed ys (by decide)]
  cases hrest : cs.dropWhile Char.isDigit with
  | nil => rfl
  | cons c rest =>
    by_cases hc : c = '.'
    · subst hc
      simp only [List.cons_append, takeWhile_lineFeed ys (show Char.isDigit '\n' = false by decide)]
    · simp [hc]

theorem dot_lineFeed (attributed : Bool) (c : Char) :
    dot attributed (c :: cs ++ '\n' :: ys) = dot attributed (c :: cs) := by
  unfold dot
  rw [number_lineFeed]
  cases cs with
  | nil => rfl
  | cons d cs => rfl

theorem strBody_lineFeed (delimiter : Char) (value : List Char) (length : Nat) :
    strBody delimiter (cs ++ '\n' :: ys) value length = strBody delimiter cs value length := by
  fun_induction strBody delimiter cs value length with
  | case1 value length => rw [List.nil_append, strBody.eq_def]; simp
  | case2 value length cs => rw [List.cons_append, strBody.eq_def]; simp
  | case3 value length cs hfeed => rw [List.cons_append, strBody.eq_def]; simp [hfeed]
  | case4 => rw [List.cons_append, strBody.eq_def]; simp [*]
  | case5 => rw [List.cons_append, strBody.eq_def]; simp [*]
  | case6 => rw [List.cons_append, strBody.eq_def]; simp [*]
  | case7 => rw [List.cons_append, strBody.eq_def]; simp [*]

/-- What is neither a comment to the end of the line nor a pragma goes on to the next sign. -/
theorem hash_eq (hline : cs.head? ≠ some '#') (hpragma : cs.head? ≠ some '!') :
    hash cs = ⟨.skipped, 1 + (cs.takeWhile (· ≠ '#')).length +
      if (cs.drop (cs.takeWhile (· ≠ '#')).length).isEmpty then 0 else 1⟩ := by
  fun_cases hash cs with
  | case1 rest => simp at hline
  | case2 rest => simp at hpragma
  | case3 => rfl

/-- A comment ends at the next sign, whatever follows. -/
theorem hash_closed {inside : List Char} (hline : (inside ++ ['#']).head? ≠ some '#')
    (hpragma : (inside ++ ['#']).head? ≠ some '!') (hinside : '#' ∉ inside) :
    hash (inside ++ '#' :: ys) = ⟨.skipped, inside.length + 2⟩ := by
  have hhead : (inside ++ '#' :: ys).head? = (inside ++ ['#']).head? := by
    cases inside <;> rfl
  have hne : ∀ a ∈ inside, decide (a ≠ '#') = true := fun a ha => by
    simpa using fun h : a = '#' => hinside (h ▸ ha)
  have htake : (inside ++ '#' :: ys).takeWhile (· ≠ '#') = inside := by
    rw [List.takeWhile_append_of_pos hne]
    simp
  rw [hash_eq (by rwa [hhead]) (by rwa [hhead]), htake]
  simp
  omega

theorem hash_lineFeed (hopen : ¬OpensComment '#' cs) : hash (cs ++ '\n' :: ys) = hash cs := by
  by_cases hline : cs.head? = some '#'
  · obtain ⟨rest, rfl⟩ := List.head?_eq_some_iff.mp hline
    simp [hash, takeWhile_lineFeed]
  by_cases hpragma : cs.head? = some '!'
  · obtain ⟨rest, rfl⟩ := List.head?_eq_some_iff.mp hpragma
    simp [hash, takeWhile_lineFeed ys (show isWordChar '\n' = false by decide), takeWhile_lineFeed]
  have hends : '#' ∈ cs := by
    by_contra hends
    exact hopen ⟨rfl, hpragma, hends⟩
  -- The comment ends at the first sign, with and without what follows the line.
  obtain ⟨inside, behind, rfl, hinside⟩ := List.eq_append_cons_of_mem hends
  have hhead : (inside ++ '#' :: behind).head? = (inside ++ ['#']).head? := by
    cases inside <;> rfl
  rw [hhead] at hline hpragma
  rw [List.append_assoc, List.cons_append, hash_closed _ hline hpragma hinside,
    hash_closed _ hline hpragma hinside]

/-- A comment that the line does not end takes the line feed, too. -/
theorem hash_of_opens (hopen : OpensComment '#' cs) :
    (hash (cs ++ '\n' :: ys)).lexeme = .skipped ∧
      cs.length + 2 ≤ (hash (cs ++ '\n' :: ys)).length := by
  obtain ⟨-, hpragma, hends⟩ := hopen
  have hhead : (cs ++ '\n' :: ys).head? ≠ some '#' ∧ (cs ++ '\n' :: ys).head? ≠ some '!' := by
    cases cs with
    | nil => simp
    | cons c cs =>
      have hc : c ≠ '#' := fun hc => hends (hc ▸ List.mem_cons_self)
      simpa [hc] using hpragma
  have hne : ∀ a ∈ cs, decide (a ≠ '#') = true := fun a ha => by
    simpa using fun h : a = '#' => hends (h ▸ ha)
  rw [hash_eq hhead.1 hhead.2, List.takeWhile_append_of_pos hne,
    List.takeWhile_cons_of_pos (by decide)]
  refine ⟨rfl, ?_⟩
  simp only [List.length_append, List.length_cons]
  omega

theorem pair_lineFeed (one two : Mark) {second : Char} (hsecond : '\n' ≠ second) :
    pair one two second (cs ++ '\n' :: ys) = pair one two second cs := by
  cases cs with
  | nil => simp [pair, hsecond]
  | cons c cs => rfl

theorem assignEnd_lineFeed (op : ArithOp) (length : Nat)
    (h : (assignEnd op length cs).lexeme.Readable) :
    assignEnd op length (cs ++ '\n' :: ys) = assignEnd op length cs := by
  cases cs with
  | nil =>
    by_cases hop : op = .add ∨ op = .sub
    · simp [assignEnd, hop]
    · simp [assignEnd, hop, Lexeme.Readable] at h
  | cons c cs =>
    by_cases hplain : c = ':'
    · subst hplain
      rfl
    · by_cases hyields : c = '>'
      · subst hyields
        rfl
      · simp [assignEnd, hplain, hyields]

theorem colon_lineFeed (h : (colon cs).lexeme.Readable) :
    colon (cs ++ '\n' :: ys) = colon cs := by
  fun_cases colon cs with
  | case1 => rfl
  | case2 => rfl
  | case3 rest => exact assignEnd_lineFeed ys .add 2 h
  | case4 rest => exact assignEnd_lineFeed ys .sub 2 h
  | case5 rest => exact assignEnd_lineFeed ys .mod 2 h
  | case6 rest => exact assignEnd_lineFeed ys .pow 3 h
  | case7 rest hpow =>
    have hmul : colon ('*' :: rest) = assignEnd .mul 2 rest := by simp [colon]
    rw [hmul] at h
    cases rest with
    | nil => exact assignEnd_lineFeed ys .mul 2 h
    | cons d rest =>
      have hd : d ≠ '*' := fun hd => hpow rest (by rw [hd])
      simpa [colon, hd] using assignEnd_lineFeed ys .mul 2 h
  | case8 rest => exact assignEnd_lineFeed ys .floorDiv 3 h
  | case9 rest hfloor =>
    have hdiv : colon ('/' :: rest) = assignEnd .div 2 rest := by simp [colon]
    rw [hdiv] at h
    cases rest with
    | nil => exact assignEnd_lineFeed ys .div 2 h
    | cons d rest =>
      have hd : d ≠ '/' := fun hd => hfloor rest (by rw [hd])
      simpa [colon, hd] using assignEnd_lineFeed ys .div 2 h
  | case10 =>
    cases cs with
    | nil => rfl
    | cons d rest => simp_all [colon]

theorem next_lineFeed {attributed : Bool} {c : Char}
    (h : (next attributed c cs).lexeme.Readable) (hopen : ¬OpensComment c cs) :
    next attributed c (cs ++ '\n' :: ys) = next attributed c cs := by
  by_cases hhash : c = '#'
  · subst hhash
    exact hash_lineFeed ys hopen
  by_cases hequal : c = '='
  · subst hequal
    cases cs with
    | nil => exact absurd rfl (h .loneEqual)
    | cons d cs =>
      by_cases hd : d = '='
      · subst hd
        rfl
      · simp [next, isTrivia, isWordStart, hd]
  by_cases hcolon : c = ':'
  · subst hcolon
    exact colon_lineFeed ys h
  · have htrivia : isTrivia '\n' = false := by decide
    have hdefines : '\n' ≠ '=' := by decide
    have hstar : '\n' ≠ '*' := by decide
    have hslash : '\n' ≠ '/' := by decide
    unfold next
    simp only [if_neg hhash, if_neg hequal, if_neg hcolon, ← List.cons_append, word_lineFeed,
      number_lineFeed, dot_lineFeed, strBody_lineFeed, takeWhile_lineFeed ys htrivia,
      pair_lineFeed ys _ _ hdefines, pair_lineFeed ys _ _ hstar, pair_lineFeed ys _ _ hslash]

/-! ## The length of a lexeme -/

theorem word_length {c : Char} (hstart : isWordStart c = true) :
    0 < (word (c :: cs)).length ∧ (word (c :: cs)).length ≤ cs.length + 1 := by
  have hc : isWordChar c = true := by
    unfold isWordStart at hstart
    unfold isWordChar
    simp only [Char.isAlphanum, Bool.or_eq_true] at hstart ⊢
    exact hstart.imp_left .inl
  have hlength : (word (c :: cs)).length = ((c :: cs).takeWhile isWordChar).length := by
    unfold word
    dsimp only
    split <;> rfl
  rw [hlength, List.takeWhile_cons_of_pos hc]
  have hle := (List.takeWhile_sublist isWordChar (l := cs)).length_le
  simp only [List.length_cons]
  omega

theorem number_length {c : Char} (hstart : c.isDigit = true ∨ c = '.') :
    0 < (number (c :: cs)).length ∧ (number (c :: cs)).length ≤ cs.length + 1 := by
  have hsplit := congrArg List.length
    (List.takeWhile_append_dropWhile (p := Char.isDigit) (l := c :: cs))
  rw [List.length_append, List.length_cons] at hsplit
  unfold number
  dsimp only
  split
  · rename_i rest hrest
    rw [hrest, List.length_cons] at hsplit
    have hle := (List.takeWhile_sublist Char.isDigit (l := rest)).length_le
    dsimp only
    omega
  · rename_i hrest
    have hdigit : c.isDigit = true := by
      refine hstart.resolve_right ?_
      rintro rfl
      exact hrest cs rfl
    rw [List.takeWhile_cons_of_pos hdigit, List.length_cons] at hsplit ⊢
    split <;> dsimp only <;> omega

theorem strBody_length (delimiter : Char) (cs value : List Char) (length : Nat) :
    length ≤ (strBody delimiter cs value length).length ∧
      (strBody delimiter cs value length).length ≤ length + cs.length := by
  fun_induction strBody delimiter cs value length with
  | case1 | case2 | case3 | case4 | case5 => simp
  | case6 => simp only [List.length_cons]; omega
  | case7 => simp only [List.length_cons]; omega

theorem hash_length : 0 < (hash cs).length ∧ (hash cs).length ≤ cs.length + 1 := by
  fun_cases hash cs with
  | case1 rest =>
    have hle := (List.takeWhile_sublist (· ≠ '\n') (l := rest)).length_le
    simp only [List.length_cons]
    omega
  | case2 rest =>
    have hle := (List.takeWhile_sublist (· ≠ '\n') (l := rest)).length_le
    simp only [List.length_cons]
    omega
  | case3 =>
    have hle := (List.takeWhile_sublist (· ≠ '#') (l := cs)).length_le
    dsimp only
    split
    · omega
    · rename_i comment hsome
      have hlt : comment < cs.length := by
        by_contra hge
        exact hsome (by simp [List.drop_eq_nil_of_le (Nat.le_of_not_lt hge)])
      omega

theorem pair_length (one two : Mark) (second : Char) :
    0 < (pair one two second cs).length ∧ (pair one two second cs).length ≤ cs.length + 1 := by
  cases cs with
  | nil => simp [pair, mark]
  | cons d cs =>
    unfold pair
    dsimp only
    split <;> simp [mark]

theorem assignEnd_length (op : ArithOp) {length most : Nat} (hlength : 0 < length)
    (hmost : length + cs.length ≤ most) :
    0 < (assignEnd op length cs).length ∧ (assignEnd op length cs).length ≤ most := by
  fun_cases assignEnd op length cs with
  | case1 | case2 | case5 =>
    simp only [mark, List.length_cons] at hmost ⊢
    omega
  | case3 =>
    simp only [mark]
    omega
  | case4 =>
    dsimp only
    omega

theorem colon_length : 0 < (colon cs).length ∧ (colon cs).length ≤ cs.length + 1 := by
  fun_cases colon cs with
  | case1 | case2 | case10 => simp [mark]
  | case3 | case4 | case5 | case6 | case7 | case8 | case9 =>
    refine assignEnd_length _ (by decide) ?_
    simp only [List.length_cons]
    omega

theorem next_length (attributed : Bool) (c : Char) (cs : List Char) :
    0 < (next attributed c cs).length ∧ (next attributed c cs).length ≤ cs.length + 1 := by
  fun_cases next attributed c cs with
  | case1 =>
    rename_i htrivia
    have hle := (List.takeWhile_sublist isTrivia (l := c :: cs)).length_le
    rw [List.takeWhile_cons_of_pos htrivia, List.length_cons] at hle ⊢
    exact ⟨Nat.succ_pos _, hle⟩
  | case2 => exact word_length ‹_›
  | case3 => exact number_length (.inl ‹_›)
  | case4 =>
    rename_i hpoint
    have hdot : dot attributed (c :: cs) = number (c :: cs) ∨
        dot attributed (c :: cs) = mark .dot 1 := ite_eq_or_eq ..
    rcases hdot with hdot | hdot
    · rw [hdot]
      exact number_length (.inr hpoint)
    · simp [hdot, mark]
  | case5 =>
    have h := strBody_length c cs [] 1
    omega
  | case6 => exact hash_length
  | case7 => exact pair_length ..
  | case8 => simp [mark]
  | case9 => simp
  | case10 | case11 | case12 | case13 => exact pair_length ..
  | case14 => exact colon_length
  | case15 => simp [mark]
  | case16 => simp

end Scan
end ExprScript
