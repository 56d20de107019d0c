import ExprScript.Proofs.Token.Gaps
import ExprScript.Proofs.Token.Literals
import Mathlib.Data.List.TakeWhile

/-!
# Tokens on their own

A token is the same token where it stands alone or in front of a blank. So the texts of the tokens
of a source, with a blank between every two of them, are read as the same tokens, and what else is
between two tokens of a source has no part in what they are.
-/
namespace ExprScript

theorem Lexeme.Clear.not_silent {lexeme : Lexeme} (h : lexeme.Clear) : ¬ lexeme.Silent := by
  intro hsilent
  cases lexeme with
  | skipped => exact h
  | pragma name shown => exact h
  | _ => exact hsilent

/-- Whether a text ends, or goes on with a blank. -/
def EndsToken (more : List Char) : Prop := ∀ c ∈ more.head?, c = ' '

namespace Scan

variable {inside rest more : List Char}

/-! ## Each kind of token -/

theorem takeWhile_alone {p : Char → Bool} (hp : p ' ' = false)
    (h : ((inside ++ rest).takeWhile p).length = inside.length) (hmore : EndsToken more) :
    (inside ++ more).takeWhile p = (inside ++ rest).takeWhile p := by
  have hnone : more.takeWhile p = [] := by
    cases more with
    | nil => rfl
    | cons c more =>
      obtain rfl := hmore c rfl
      exact List.takeWhile_cons_of_neg (by simp [hp])
  rw [List.takeWhile_append, List.takeWhile_append, hnone, takeWhile_behind h]

theorem word_alone (h : (word (inside ++ rest)).length = inside.length) (hmore : EndsToken more) :
    word (inside ++ more) = word (inside ++ rest) := by
  have hlength : ((inside ++ rest).takeWhile isWordChar).length = inside.length := by
    rw [← h]
    unfold word
    dsimp only
    split <;> rfl
  unfold word
  rw [takeWhile_alone (by decide) hlength hmore]

theorem number_whole {digits : List Char} (hdigits : ∀ c ∈ digits, c.isDigit = true)
    (hrest : ∀ c ∈ rest.head?, c.isDigit = false ∧ c ≠ '.') :
    number (digits ++ rest) = number digits := by
  have htake : rest.takeWhile Char.isDigit = [] := by
    cases rest with
    | nil => rfl
    | cons c rest => exact List.takeWhile_cons_of_neg (by simp [(hrest c rfl).1])
  have hdrop : rest.dropWhile Char.isDigit = rest := by
    cases rest with
    | nil => rfl
    | cons c rest => exact List.dropWhile_cons_of_neg (by simp [(hrest c rfl).1])
  unfold number
  rw [List.takeWhile_append_of_pos hdigits, List.dropWhile_append_of_pos hdigits, htake, hdrop,
    List.append_nil, List.takeWhile_eq_self_iff.mpr hdigits,
    List.dropWhile_eq_nil_iff.mpr hdigits]
  dsimp only
  split
  · rename_i text
    exact absurd rfl (hrest '.' rfl).2
  · rfl

theorem number_point {digits : List Char} (hdigits : ∀ c ∈ digits, c.isDigit = true)
    (text : List Char) :
    number (digits ++ '.' :: text) =
      ⟨.token (.float (readFixed digits (text.takeWhile Char.isDigit))),
        digits.length + 1 + (text.takeWhile Char.isDigit).length⟩ := by
  have hpoint : ('.' :: text).takeWhile Char.isDigit = [] := rfl
  have hbehind : ('.' :: text).dropWhile Char.isDigit = '.' :: text := rfl
  unfold number
  rw [List.takeWhile_append_of_pos hdigits, List.dropWhile_append_of_pos hdigits, hpoint, hbehind,
    List.append_nil]
  rfl

theorem le_number_length (cs : List Char) :
    (cs.takeWhile Char.isDigit).length ≤ (number cs).length := by
  unfold number
  dsimp only
  split
  · dsimp only
    omega
  · split <;> exact Nat.le_refl _

/-- What follows a number that is taken whole is no part of it. -/
theorem head_of_number {digits : List Char} (hdigits : ∀ c ∈ digits, c.isDigit = true)
    (h : (number (digits ++ rest)).length = digits.length) :
    ∀ c ∈ rest.head?, c.isDigit = false ∧ c ≠ '.' := by
  intro c hc
  obtain ⟨text, rfl⟩ := List.head?_eq_some_iff.mp hc
  constructor
  · rw [Bool.eq_false_iff]
    intro hdigit
    have hle := le_number_length (digits ++ c :: text)
    rw [h, List.takeWhile_append_of_pos hdigits, List.takeWhile_cons_of_pos hdigit] at hle
    simp only [List.length_append, List.length_cons] at hle
    omega
  · rintro rfl
    rw [number_point hdigits] at h
    dsimp only at h
    omega

theorem number_alone (h : (number (inside ++ rest)).length = inside.length)
    (hmore : EndsToken more) : number (inside ++ more) = number (inside ++ rest) := by
  have hdigits : ∀ c ∈ inside.takeWhile Char.isDigit, c.isDigit = true :=
    fun c hc => List.mem_takeWhile_imp hc
  have htail := List.head?_dropWhile_not Char.isDigit inside
  have hsplit := List.takeWhile_append_dropWhile (p := Char.isDigit) (l := inside)
  generalize inside.takeWhile Char.isDigit = digits at hdigits hsplit
  generalize inside.dropWhile Char.isDigit = tail at htail hsplit
  subst hsplit
  cases tail with
  | nil =>
    have hblank : ∀ c ∈ more.head?, c.isDigit = false ∧ c ≠ '.' := by
      intro c hc
      obtain rfl := hmore c hc
      decide
    rw [List.append_nil] at h ⊢
    rw [number_whole hdigits hblank, number_whole hdigits (head_of_number hdigits h)]
  | cons d tail =>
    have hd : d.isDigit = false := htail
    rw [List.append_assoc, List.cons_append] at h
    rw [List.append_assoc, List.append_assoc, List.cons_append, List.cons_append]
    by_cases hpoint : d = '.'
    · subst hpoint
      rw [number_point hdigits] at h
      have hfraction : ((tail ++ rest).takeWhile Char.isDigit).length = tail.length := by
        simp only [List.length_append, List.length_cons] at h
        omega
      rw [number_point hdigits, number_point hdigits, takeWhile_alone (by decide) hfraction hmore]
    · have hhead : ∀ text : List Char, ∀ c ∈ (d :: text).head?, c.isDigit = false ∧ c ≠ '.' := by
        intro text c hc
        obtain rfl : d = c := by simpa using hc
        exact ⟨hd, hpoint⟩
      rw [number_whole hdigits (hhead _), number_whole hdigits (hhead _)]

theorem dot_of_not (attributed : Bool) {cs : List Char}
    (hcs : ∀ c ∈ cs.head?, c.isDigit = false) : dot attributed ('.' :: cs) = mark .dot 1 := by
  cases cs with
  | nil => simp [dot]
  | cons c cs => simp [dot, hcs c rfl]

theorem dot_alone {attributed : Bool}
    (h : (dot attributed ('.' :: (inside ++ rest))).length = inside.length + 1)
    (hmore : EndsToken more) :
    dot attributed ('.' :: (inside ++ more)) = dot attributed ('.' :: (inside ++ rest)) := by
  have hcons : ∀ d cs, dot attributed ('.' :: d :: cs) =
      if !attributed && d.isDigit then number ([] ++ '.' :: d :: cs) else mark .dot 1 :=
    fun _ _ => rfl
  cases inside with
  | nil =>
    have hblank : ∀ c ∈ more.head?, c.isDigit = false := by
      intro c hc
      obtain rfl := hmore c hc
      decide
    rw [List.nil_append, List.nil_append, dot_of_not attributed hblank]
    cases rest with
    | nil => exact (dot_of_not attributed (by simp)).symm
    | cons d rest =>
      rw [List.nil_append, hcons] at h
      rw [hcons]
      split
      · rename_i hfraction
        have hd : d.isDigit = true := (Bool.and_eq_true_iff.mp hfraction).2
        rw [if_pos hfraction, number_point (by simp), List.takeWhile_cons_of_pos hd] at h
        simp at h
      · rfl
  | cons d inside =>
    rw [List.cons_append, hcons] at h
    rw [List.cons_append, List.cons_append, hcons, hcons]
    split
    · rw [if_pos ‹_›] at h
      have h : (number (('.' :: d :: inside) ++ rest)).length = (d :: inside).length + 1 := h
      change number (('.' :: d :: inside) ++ more) = number (('.' :: d :: inside) ++ rest)
      exact number_alone h hmore
    · rfl

theorem strBody_alone (delimiter : Char) {value : List Char} {length : Nat}
    (hclear : (strBody delimiter (inside ++ rest) value length).lexeme.Clear)
    (h : (strBody delimiter (inside ++ rest) value length).length = length + inside.length) :
    strBody delimiter (inside ++ more) value length =
      strBody delimiter (inside ++ rest) value length := by
  generalize hall : inside ++ rest = all at hclear h ⊢
  fun_induction strBody delimiter all value length generalizing inside with
  | case1 | case2 | case4 | case5 => cases hclear
  | case3 value length cs hfeed =>
    cases inside with
    | nil => simp at h
    | cons d inside =>
      obtain ⟨rfl, -⟩ := List.cons_eq_cons.mp hall
      rw [List.cons_append, strBody.eq_def]
      simp [hfeed]
  | case6 value length e behind hfeed hslash hdelimiter ih =>
    have hlength := (strBody_length delimiter behind (escaped e :: value) (length + 2)).1
    rcases inside with _ | ⟨d, _ | ⟨f, inside⟩⟩
    · simp only [List.length_nil] at h
      omega
    · simp only [List.length_singleton] at h
      omega
    · obtain ⟨rfl, htail⟩ := List.cons_eq_cons.mp hall
      obtain ⟨rfl, hbehind⟩ := List.cons_eq_cons.mp htail
      rw [← ih hbehind hclear (by simp only [List.length_cons] at h; omega), List.cons_append,
        List.cons_append, strBody.eq_def]
      simp [hfeed, hdelimiter]
  | case7 c cs value length hfeed hdelimiter hslash ih =>
    have hlength := (strBody_length delimiter cs (c :: value) (length + 1)).1
    cases inside with
    | nil =>
      simp only [List.length_nil] at h
      omega
    | cons d inside =>
      obtain ⟨rfl, hbehind⟩ := List.cons_eq_cons.mp hall
      rw [← ih hbehind hclear (by simp only [List.length_cons] at h; omega), List.cons_append,
        strBody.eq_def]
      simp [hfeed, hdelimiter, hslash]

theorem pair_alone {one two : Mark} {second : Char} (hsecond : second ≠ ' ')
    (h : (pair one two second (inside ++ rest)).length = inside.length + 1)
    (hmore : EndsToken more) :
    pair one two second (inside ++ more) = pair one two second (inside ++ rest) := by
  have hone : ∀ cs : List Char, cs.head? ≠ some second →
      pair one two second cs = mark one 1 := by
    intro cs hcs
    cases cs with
    | nil => rfl
    | cons c cs =>
      have hc : c ≠ second := by simpa using hcs
      exact if_neg hc
  cases inside with
  | cons d inside => rfl
  | nil =>
    have hblank : more.head? ≠ some second := fun hhead => hsecond (hmore second hhead)
    have hrest : rest.head? ≠ some second := by
      intro hhead
      obtain ⟨text, rfl⟩ := List.head?_eq_some_iff.mp hhead
      simp [pair, mark] at h
    rw [List.nil_append, List.nil_append, hone more hblank, hone rest hrest]

/-- A compound assignment takes its ending, or stays a colon. -/
theorem assignEnd_of_clear {op : ArithOp} {length : Nat} {cs : List Char}
    (hclear : (assignEnd op length cs).lexeme.Clear) :
    (∃ c ∈ cs.head?, (c = ':' ∨ c = '>') ∧ (assignEnd op length cs).length = length + 1) ∨
      assignEnd op length cs = mark .colon 1 := by
  fun_cases assignEnd op length cs with
  | case1 => exact .inl ⟨':', rfl, .inl rfl, rfl⟩
  | case2 => exact .inl ⟨'>', rfl, .inr rfl, rfl⟩
  | case3 => exact .inr rfl
  | case4 | case5 => simp_all [assignEnd, Lexeme.Clear]

theorem assignEnd_alone {op : ArithOp} {length : Nat}
    (hclear : (assignEnd op length (inside ++ rest)).lexeme.Clear)
    (h : (assignEnd op length (inside ++ rest)).length = inside.length + length)
    (hlength : 2 ≤ length) :
    assignEnd op length (inside ++ more) = assignEnd op length (inside ++ rest) := by
  rcases assignEnd_of_clear hclear with ⟨c, hc, hends, hone⟩ | hcolon
  · match inside with
    | [] =>
      rw [hone] at h
      simp at h
    | d :: inside =>
      obtain rfl : d = c := by simpa using hc
      rcases hends with rfl | rfl <;> rfl
  · rw [hcolon] at h
    have hone : 1 = inside.length + length := h
    omega

/-- A colon takes one character, two with a simple assignment and more with a compound one. -/
theorem colon_of_clear {cs : List Char} (hclear : (colon cs).lexeme.Clear) :
    colon cs = mark .colon 1 ∨ (∃ c ∈ cs.head?, c = ':' ∨ c = '>') ∨ 2 < (colon cs).length := by
  have hends : ∀ (op : ArithOp) (length : Nat) (cs : List Char), 2 ≤ length →
      (assignEnd op length cs).lexeme.Clear →
        assignEnd op length cs = mark .colon 1 ∨ 2 < (assignEnd op length cs).length := by
    intro op length cs hlength hclear
    rcases assignEnd_of_clear hclear with ⟨-, -, -, hone⟩ | hcolon
    · right
      omega
    · exact .inl hcolon
  fun_cases colon cs with
  | case1 => exact .inr (.inl ⟨':', rfl, .inl rfl⟩)
  | case2 => exact .inr (.inl ⟨'>', rfl, .inr rfl⟩)
  | case10 => exact .inl rfl
  | case3 | case4 | case5 | case6 | case7 | case8 | case9 =>
    refine (hends _ _ _ (by decide) ?_).imp_right .inr
    simp_all [colon]

theorem colon_cons (c d : Char) (cs : List Char) :
    (c = ':' ∨ c = '>') ∨ (∃ op, ∀ cs, colon (c :: d :: cs) = assignEnd op 2 (d :: cs)) ∨
      (∃ op, ∀ cs, colon (c :: d :: cs) = assignEnd op 3 cs) ∨
      colon (c :: d :: cs) = mark .colon 1 := by
  by_cases hset : c = ':' ∨ c = '>'
  · exact .inl hset
  have h1 : c ≠ ':' := fun h => hset (.inl h)
  have h2 : c ≠ '>' := fun h => hset (.inr h)
  right
  by_cases hadd : c = '+'
  · subst hadd
    exact .inl ⟨_, fun _ => rfl⟩
  by_cases hsub : c = '-'
  · subst hsub
    exact .inl ⟨_, fun _ => rfl⟩
  by_cases hmod : c = '%'
  · subst hmod
    exact .inl ⟨_, fun _ => rfl⟩
  by_cases hmul : c = '*'
  · subst hmul
    by_cases hd : d = '*'
    · subst hd
      exact .inr (.inl ⟨_, fun _ => rfl⟩)
    · exact .inl ⟨.mul, fun cs => by simp [colon, hd]⟩
  by_cases hdiv : c = '/'
  · subst hdiv
    by_cases hd : d = '/'
    · subst hd
      exact .inr (.inl ⟨_, fun _ => rfl⟩)
    · exact .inl ⟨.div, fun cs => by simp [colon, hd]⟩
  · right; right
    simp [colon, *]

theorem colon_alone (hclear : (colon (inside ++ rest)).lexeme.Clear)
    (h : (colon (inside ++ rest)).length = inside.length + 1) (hmore : EndsToken more) :
    colon (inside ++ more) = colon (inside ++ rest) := by
  match inside with
  | [] =>
    have hblank : colon more = mark .colon 1 := by
      cases more with
      | nil => rfl
      | cons c more =>
        obtain rfl := hmore c rfl
        rfl
    rw [List.nil_append] at hclear h
    rcases colon_of_clear hclear with hcolon | ⟨c, hc, hends⟩ | hlong
    · exact hblank.trans hcolon.symm
    · obtain ⟨text, rfl⟩ := List.head?_eq_some_iff.mp hc
      rcases hends with rfl | rfl <;> cases h
    · rw [h] at hlong
      simp at hlong
  | [c] =>
    rcases colon_of_clear hclear with hcolon | ⟨d, hd, hends⟩ | hlong
    · rw [hcolon] at h
      cases h
    · obtain rfl : c = d := by simpa using hd
      rcases hends with rfl | rfl <;> rfl
    · rw [h] at hlong
      simp at hlong
  | c :: d :: inside =>
    simp only [List.cons_append] at hclear h ⊢
    rcases colon_cons c d (inside ++ rest) with hset | ⟨op, hop⟩ | ⟨op, hop⟩ | hcolon
    · rcases hset with rfl | rfl <;> rfl
    · rw [hop] at hclear h
      rw [hop, hop]
      rw [← List.cons_append] at hclear h
      exact assignEnd_alone hclear h (by decide)
    · rw [hop] at hclear h
      rw [hop, hop]
      exact assignEnd_alone hclear h (by decide)
    · rw [hcolon] at h
      cases h

/-- A lexeme that leaves a token is the same on its own and in front of a blank. -/
theorem next_alone {attributed : Bool} {c : Char}
    (hclear : (next attributed c (inside ++ rest)).lexeme.Clear)
    (h : (next attributed c (inside ++ rest)).length = inside.length + 1)
    (hmore : EndsToken more) :
    next attributed c (inside ++ more) = next attributed c (inside ++ rest) := by
  unfold next at hclear h ⊢
  by_cases htrivia : isTrivia c = true
  · rw [if_pos htrivia] at hclear
    exact hclear.elim
  simp only [if_neg htrivia] at hclear h ⊢
  by_cases hword : isWordStart c = true
  · simp only [if_pos hword] at h ⊢
    rw [← List.cons_append] at h
    exact word_alone h hmore
  simp only [if_neg hword] at hclear h ⊢
  by_cases hdigit : c.isDigit = true
  · simp only [if_pos hdigit] at h ⊢
    rw [← List.cons_append] at h
    exact number_alone h hmore
  simp only [if_neg hdigit] at hclear h ⊢
  by_cases hpoint : c = '.'
  · subst hpoint
    exact dot_alone h hmore
  simp only [if_neg hpoint] at hclear h ⊢
  by_cases hquote : c = '"' ∨ c = '\''
  · simp only [if_pos hquote] at hclear h ⊢
    rw [Nat.add_comm] at h
    exact strBody_alone c hclear h
  simp only [if_neg hquote] at hclear h ⊢
  by_cases hhash : c = '#'
  · rw [if_pos hhash] at hclear
    exact (hclear.not_silent (hash_silent _)).elim
  simp only [if_neg hhash] at hclear h ⊢
  by_cases hnot : c = '!'
  · simp only [if_pos hnot] at h ⊢
    exact pair_alone (by decide) h hmore
  simp only [if_neg hnot] at hclear h ⊢
  by_cases hequal : c = '='
  · simp only [if_pos hequal] at hclear h ⊢
    cases inside with
    | cons d inside =>
      by_cases hd : d = '='
      · subst hd
        rfl
      · simp [hd, Lexeme.Clear] at hclear
    | nil =>
      cases rest with
      | nil => exact hclear.elim
      | cons d rest =>
        by_cases hd : d = '='
        · subst hd
          cases h
        · simp [hd, Lexeme.Clear] at hclear
  simp only [if_neg hequal] at hclear h ⊢
  by_cases hless : c = '<'
  · simp only [if_pos hless] at h ⊢
    exact pair_alone (by decide) h hmore
  simp only [if_neg hless] at hclear h ⊢
  by_cases hgreater : c = '>'
  · simp only [if_pos hgreater] at h ⊢
    exact pair_alone (by decide) h hmore
  simp only [if_neg hgreater] at hclear h ⊢
  by_cases hstar : c = '*'
  · simp only [if_pos hstar] at h ⊢
    exact pair_alone (by decide) h hmore
  simp only [if_neg hstar] at hclear h ⊢
  by_cases hslash : c = '/'
  · simp only [if_pos hslash] at h ⊢
    exact pair_alone (by decide) h hmore
  simp only [if_neg hslash] at hclear h ⊢
  by_cases hcolon : c = ':'
  · simp only [if_pos hcolon] at hclear h ⊢
    exact colon_alone hclear h hmore
  · simp only [if_neg hcolon]

theorem not_trivia_of_clear {attributed : Bool} {c : Char} {cs : List Char}
    (hclear : (next attributed c cs).lexeme.Clear) : isTrivia c = false := by
  rw [Bool.eq_false_iff]
  intro htrivia
  unfold next at hclear
  rw [if_pos htrivia] at hclear
  exact hclear

end Scan

/-- What can be read leaves no token, or is clear, or is a string without its end. -/
theorem Lexeme.Readable.cases {lexeme : Lexeme} (h : lexeme.Readable) :
    lexeme.Silent ∨ lexeme.Clear ∨ ∃ value delimiter, lexeme = .str value delimiter false := by
  cases lexeme with
  | skipped | pragma name shown => exact .inl trivial
  | word text | token kind => exact .inr (.inl trivial)
  | fault cause => exact absurd rfl (h cause)
  | str value delimiter closed =>
    cases closed with
    | true => exact .inr (.inl rfl)
    | false => exact .inr (.inr ⟨value, delimiter, rfl⟩)

/-- Where what a lexeme leaves is known already, it leaves the same token and the same names. -/
theorem Lexeme.leaves_of_grows {names table : Interner} {lexeme : Lexeme}
    (h : (lexeme.leaves names).2.Grows table) :
    lexeme.leaves table = ((lexeme.leaves names).1, table) := by
  have hknown : ∀ text, (names.intern text).2.Grows table →
      table.intern text = ((names.intern text).1, table) :=
    fun text hgrows => Interner.intern_of_knows (hgrows _ _ (names.knows_intern text))
  cases lexeme with
  | word text => simp only [leaves, hknown text h]
  | str value delimiter closed => simp only [leaves, hknown value h]
  | skipped | pragma name shown | token kind | fault cause => rfl

/-- What a lexeme leaves is the same where the same names are known, or all later ones. -/
theorem Lexeme.leaves_known {names later table : Interner} {lexeme : Lexeme}
    (hlater : (lexeme.leaves names).2.Grows later) (h : table = names ∨ later.Grows table) :
    (lexeme.leaves table).1 = (lexeme.leaves names).1 ∧
      ((lexeme.leaves table).2 = (lexeme.leaves names).2 ∨
        later.Grows (lexeme.leaves table).2) := by
  rcases h with rfl | h
  · exact ⟨rfl, .inl rfl⟩
  · rw [leaves_of_grows (hlater.trans h)]
    exact ⟨rfl, .inr h⟩

/-! ## Texts in pieces -/

theorem intercalate_behind (piece : List Char) (pieces : List (List Char)) :
    ∃ more, [' '].intercalate (piece :: pieces) = piece ++ more ∧
      (more = [] ∧ pieces = [] ∨ more = ' ' :: [' '].intercalate pieces) := by
  cases pieces with
  | nil => exact ⟨[], by simp, .inl ⟨rfl, rfl⟩⟩
  | cons next pieces =>
    refine ⟨_, ?_, .inr rfl⟩
    rw [List.intercalate_cons_cons, List.append_assoc]
    rfl

namespace Lexing

variable {file : SourceFile} {s t u : Lexing} {c : Char} {cs : List Char} {d : Diagnostic}

theorem Finds.refl (s : Lexing) : s.Finds [] s :=
  ⟨.done s, (List.append_nil _).symm, rfl, rfl⟩

theorem warned_accept (hd : d ∈ s.warnings) (lexeme : Lexeme) (chars : List Char) (span : Span) :
    d ∈ (s.accept lexeme chars span).warnings := by
  unfold accept
  cases lexeme with
  | pragma name shown =>
    dsimp only
    split
    · exact hd
    · exact Array.mem_push_of_mem _ hd
  | str value delimiter closed =>
    cases closed with
    | true => exact hd
    | false => exact Array.mem_push_of_mem _ hd
  | _ => exact hd

theorem Reads.warned (h : s.Reads t) (hd : d ∈ s.warnings) : d ∈ t.warnings := by
  induction h with
  | done s => exact hd
  | @next s t c cs _ _ _ ih => exact ih (warned_accept (s := s.past c cs) hd ..)

theorem warned_of_open {value : String} {delimiter : Char}
    (h : (s.scan c cs).lexeme = .str value delimiter false) :
    ∃ d ∈ (s.after c cs).warnings, d.code = .noStringEnd := by
  unfold after
  rw [h]
  exact ⟨_, Array.mem_push_self, rfl⟩

theorem Placed.snippet (h : s.Placed file) {inside more : List Char}
    (hrest : s.rest = inside ++ more) :
    file.snippet ⟨s.place, s.place.advanceAll inside⟩ = String.ofList inside := by
  obtain ⟨before, htext, hplace⟩ := h.text
  have hstart : s.place.offset = byteLength before := by
    rw [hplace, Position.offset_advanceAll_start]
  unfold SourceFile.snippet
  rw [Position.offset_advanceAll, hstart, SourceFile.slice_append (hrest ▸ htext)]
  rfl

theorem names_of_silent (hsilent : (s.scan c cs).lexeme.Silent) :
    (s.after c cs).names = s.names := by
  unfold after accept
  cases hlexeme : (s.scan c cs).lexeme with
  | skipped => rfl
  | pragma name shown =>
    dsimp only
    split <;> rfl
  | _ =>
    rw [hlexeme] at hsilent
    exact hsilent.elim

theorem after_of_clear (h : (s.scan c cs).lexeme.Clear) :
    (s.after c cs).tokens = s.tokens.push
        ⟨((s.scan c cs).lexeme.leaves s.names).1, s.place, (s.after c cs).place⟩ ∧
      (s.after c cs).names = ((s.scan c cs).lexeme.leaves s.names).2 := by
  have hafter : s.after c cs =
      emit { s.past c cs with names := ((s.scan c cs).lexeme.leaves s.names).2 }
        ((s.scan c cs).lexeme.leaves s.names).1 ⟨s.place, (s.past c cs).place⟩ :=
    accept_of_clear h ..
  rw [hafter]
  exact ⟨rfl, rfl⟩

theorem scan_inside (s : Lexing) (c : Char) (cs : List Char) :
    ∃ inside, cs = inside ++ (s.after c cs).rest ∧
      s.scan c cs = ⟨(s.scan c cs).lexeme, inside.length + 1⟩ := by
  obtain ⟨hpos, hle⟩ := Scan.next_length s.attributed c cs
  obtain ⟨n, hn⟩ : ∃ n, (s.scan c cs).length = n + 1 := Nat.exists_eq_succ_of_ne_zero hpos.ne'
  change (s.scan c cs).length ≤ cs.length + 1 at hle
  refine ⟨cs.take n, ?_, ?_⟩
  · rw [after_rest, hn, List.drop_succ_cons, List.take_append_drop]
  · rw [List.length_take, Nat.min_eq_left (by omega), ← hn]

theorem finds_piece {inside rest : List Char} {lexeme : Lexeme} (h : lexeme.Clear)
    (hscan : Scan.next s.attributed c (inside ++ rest) = ⟨lexeme, inside.length + 1⟩)
    {pieces : List (List Char)}
    (hhead : ∀ c ∈ ([' '].intercalate pieces).head?, Scan.isTrivia c = false)
    (hrest : s.rest = [' '].intercalate ((c :: inside) :: pieces)) :
    ∃ t, s.Finds [(lexeme.leaves s.names).1] t ∧ t.rest = [' '].intercalate pieces ∧
      t.names = (lexeme.leaves s.names).2 ∧ t.attributed = lexeme.attributed s.attributed := by
  obtain ⟨more, hmore, hbehind⟩ := intercalate_behind (c :: inside) pieces
  have hends : EndsToken more := by
    rcases hbehind with ⟨rfl, -⟩ | rfl
    · simp [EndsToken]
    · simp [EndsToken]
  have halone := Scan.next_alone (by rwa [hscan]) (by rw [hscan]) hends
  obtain ⟨t, hfinds, ht, hnames, hattributed⟩ :=
    finds_clear (hrest.trans hmore) h (halone.trans hscan)
  rcases hbehind with ⟨rfl, rfl⟩ | rfl
  · exact ⟨t, hfinds, ht, hnames, hattributed⟩
  · obtain ⟨hblank, hblankRest⟩ := finds_blank ht hhead
    exact ⟨_, hfinds.trans hblank, hblankRest, hnames, hattributed⟩

end Lexing

def SourceFile.pieces (file : SourceFile) (tokens : List Token) : List (List Char) :=
  tokens.map fun token => (file.snippet token.span).toList

theorem Lexeme.Silent.attributed {lexeme : Lexeme} (h : lexeme.Silent) (before : Bool) :
    lexeme.attributed before = before := by
  cases lexeme with
  | skipped | pragma name shown => rfl
  | _ => exact h.elim

namespace Lexing

variable {file : SourceFile} {s t : Lexing}

theorem Reads.names_grow (h : s.Reads t) : s.names.Grows t.names :=
  h.names (fun table text hgrows => hgrows.trans (table.grows_intern text)) (.refl _)

/-- The texts of the tokens that are found on the way to the end of a text are read as the same
tokens wherever the same token is before them and the same names are known, or all of them. -/
theorem Reads.spaced (h : s.Reads t) (hend : t.rest = []) (hplaced : s.Placed file)
    (hclosed : ∀ d ∈ t.warnings, d.code ≠ .noStringEnd) {last : List (List Char)}
    (hlast : last = [] ∨ last = [[]]) :
    ∃ found, t.tokens.toList = s.tokens.toList ++ found ∧
      (∀ c ∈ ([' '].intercalate (file.pieces found ++ last)).head?, Scan.isTrivia c = false) ∧
      ∀ u : Lexing, u.attributed = s.attributed → (u.names = s.names ∨ t.names.Grows u.names) →
        u.rest = [' '].intercalate (file.pieces found ++ last) →
          ∃ v, u.Finds (found.map (·.kind)) v ∧ v.rest = [] := by
  induction h with
  | done s =>
    have hnothing : [' '].intercalate last = [] := by
      rcases hlast with rfl | rfl <;> rfl
    refine ⟨[], (List.append_nil _).symm, ?_, fun u _ _ hrest => ⟨u, .refl u, ?_⟩⟩
    · simp [SourceFile.pieces, hnothing]
    · rw [hrest]
      exact hnothing
  | @next s t c cs hrest hreadable hreads ih =>
    obtain ⟨found, hfound, hhead, hagain⟩ := ih hend (hplaced.after hrest) hclosed
    have hattributed : (s.after c cs).attributed = (s.scan c cs).lexeme.attributed s.attributed :=
      attributed_accept ..
    rcases hreadable.cases with hsilent | hclear | ⟨value, delimiter, hopen⟩
    · rw [hattributed, hsilent.attributed, names_of_silent hsilent] at hagain
      exact ⟨found, by rw [hfound, tokens_of_silent hsilent], hhead, hagain⟩
    · obtain ⟨inside, hcs, hscan⟩ := scan_inside s c cs
      obtain ⟨htokens, hnames⟩ := after_of_clear hclear
      have hpiece : (file.snippet ⟨s.place, (s.after c cs).place⟩).toList = c :: inside := by
        have htaken : s.taken c cs = c :: inside := by
          unfold taken
          rw [hscan, hcs]
          simp
        rw [after_place, htaken, hplaced.snippet (hrest.trans (congrArg (c :: ·) hcs)),
          String.toList_ofList]
      have hpieces : file.pieces
          (⟨((s.scan c cs).lexeme.leaves s.names).1, s.place, (s.after c cs).place⟩ :: found) =
            (c :: inside) :: file.pieces found := by
        unfold SourceFile.pieces
        rw [List.map_cons, hpiece]
      refine ⟨⟨((s.scan c cs).lexeme.leaves s.names).1, s.place, (s.after c cs).place⟩ :: found,
        ?_, ?_, ?_⟩
      · rw [hfound, htokens]
        simp
      · obtain ⟨more, hmore, -⟩ := intercalate_behind (c :: inside) (file.pieces found ++ last)
        intro first hfirst
        rw [hpieces, List.cons_append, hmore] at hfirst
        obtain rfl : c = first := by simpa using hfirst
        exact Scan.not_trivia_of_clear hclear
      · intro u hu hknown hurest
        rw [hpieces, List.cons_append] at hurest
        have hsame : Scan.next u.attributed c (inside ++ (s.after c cs).rest) =
            ⟨(s.scan c cs).lexeme, inside.length + 1⟩ := by
          rw [hu, ← hcs, ← hscan]
          rfl
        obtain ⟨v, hv, hvrest, hvnames, hvattributed⟩ := finds_piece hclear hsame hhead hurest
        have hlater : (s.after c cs).names.Grows t.names := hreads.names_grow
        rw [hnames] at hlater
        obtain ⟨hkind, hknown⟩ := Lexeme.leaves_known hlater hknown
        rw [← hvnames, ← hnames] at hknown
        rw [hkind] at hv
        obtain ⟨w, hw, hwrest⟩ := hagain v (by rw [hvattributed, hattributed, hu]) hknown hvrest
        exact ⟨w, hv.trans hw, hwrest⟩
    · obtain ⟨d, hd, hcode⟩ := warned_of_open hopen
      exact absurd hcode (hclosed d (hreads.warned hd))

end Lexing

/-! ## Whole texts -/

/-- The texts of tokens with a blank between every two of them. -/
def SourceFile.spaced (file : SourceFile) (tokens : List Token) : String :=
  " ".intercalate (tokens.map fun token => file.snippet token.span)

/-- Whether a source is lexed to tokens, and all its strings are closed. -/
def SourceFile.LexesTo (file : SourceFile) (names : Interner) (lexed : Lexed) : Prop :=
  (lex file names).outcome = .ok lexed ∧
    ∀ d ∈ (lex file names).warnings, d.code ≠ .noStringEnd

variable {file other : SourceFile} {names table : Interner} {lexed : Lexed}

theorem SourceFile.toList_spaced (file : SourceFile) (tokens : List Token) :
    (file.spaced tokens).toList = [' '].intercalate (file.pieces tokens) := by
  unfold spaced pieces
  rw [String.toList_intercalate, List.map_map]
  rfl

open Lexing in
theorem SourceFile.LexesTo.again (h : file.LexesTo names lexed) {tokens : List Token}
    (htokens : tokens = lexed.tokens ∨ tokens = withoutEof lexed.tokens)
    (htable : table = names ∨ (lex file names).names.Grows table) (name : String) :
    ∃ again, (lex ⟨name, file.spaced tokens⟩ table).outcome = .ok again ∧
      (lex ⟨name, file.spaced tokens⟩ table).warnings = [] ∧ again.pragmas = [] ∧
      again.tokens.map (·.kind) = lexed.tokens.map (·.kind) := by
  obtain ⟨houtcome, hclosed⟩ := h
  rw [lex_eq] at houtcome hclosed htable
  obtain ⟨t, hreads, hend, hresult, rfl⟩ := reads_of_lexText houtcome
  rw [hresult] at hclosed htable
  have hplaced : (ofText file.text.toList Position.start names).Placed file :=
    ⟨⟨[], rfl, rfl⟩, by simp [ofText], by simp [ofText]⟩
  have hpieces : ∃ last, (last = [] ∨ last = [[]]) ∧
      file.pieces tokens = file.pieces t.tokens.toList ++ last := by
    rcases htokens with rfl | rfl
    · have hnothing : t.rest = [] ++ t.rest := rfl
      have hpoint : file.snippet (.point t.place) = "" :=
        (hreads.placed hplaced).snippet hnothing
      exact ⟨[[]], .inr rfl, by simp [SourceFile.pieces, hpoint]⟩
    · rw [withoutEof_append]
      exact ⟨[], .inl rfl, (List.append_nil _).symm⟩
  obtain ⟨last, hlast, hpieces⟩ := hpieces
  obtain ⟨found, hfound, -, hagain⟩ :=
    hreads.spaced hend hplaced (by simpa using hclosed) hlast
  have hfound : t.tokens.toList = found := hfound
  obtain ⟨v, hv, hvrest⟩ := hagain (ofText (file.spaced tokens).toList Position.start table) rfl
    htable (by rw [← hfound, ← hpieces]; exact file.toList_spaced tokens)
  have hwarnings : v.warnings = #[] := hv.warnings
  have hpragmas : v.pragmas = #[] := hv.pragmas
  have hkinds : v.tokens.toList.map (·.kind) = found.map (·.kind) := hv.kinds
  rw [lex_eq, lexText_of_reads hv.reads hvrest]
  refine ⟨_, rfl, by simp [hwarnings], by simp [hpragmas], ?_⟩
  rw [List.map_append, List.map_append, hkinds, hfound]
  rfl

/-- The texts of the tokens of a source, with a blank between every two of them, are lexed to the
same tokens, without anything to warn of, where the same names are known at first, or all names that
are known in the end. So sources whose tokens have the same texts have the same tokens, whatever
else is in them. -/
theorem lex_spaced (h : file.LexesTo names lexed) :
    (∀ name tokens table, tokens = lexed.tokens ∨ tokens = withoutEof lexed.tokens →
      table = names ∨ (lex file names).names.Grows table →
        ∃ again, (lex ⟨name, file.spaced tokens⟩ table).outcome = .ok again ∧
          (lex ⟨name, file.spaced tokens⟩ table).warnings = [] ∧ again.pragmas = [] ∧
          again.tokens.map (·.kind) = lexed.tokens.map (·.kind)) ∧
      ∀ other others, SourceFile.LexesTo other names others →
        others.tokens.map (fun token => other.snippet token.span) =
          lexed.tokens.map (fun token => file.snippet token.span) →
            others.tokens.map (·.kind) = lexed.tokens.map (·.kind) := by
  refine ⟨fun name tokens table htokens htable => h.again htokens htable name, ?_⟩
  intro other others hother hsame
  obtain ⟨again, hagain, -, -, hkinds⟩ := h.again (.inl rfl) (.inl rfl) ""
  obtain ⟨again', hagain', -, -, hkinds'⟩ := hother.again (.inl rfl) (.inl rfl) ""
  have hspaced : other.spaced others.tokens = file.spaced lexed.tokens :=
    congrArg (" ".intercalate ·) hsame
  rw [hspaced, hagain] at hagain'
  cases hagain'
  exact hkinds'.symm.trans hkinds

/-- The texts of the tokens of a source that is lexed to tokens with all its strings closed. -/
def SourceFile.snippets? (file : SourceFile) (names : Interner) : Option (List String) :=
  match (lex file names).outcome with
  | .ok lexed =>
    if (lex file names).warnings.any (·.code = .noStringEnd) then none
    else some (lexed.tokens.map fun token => file.snippet token.span)
  | .error _ => none

theorem SourceFile.lexesTo_of_snippets {file : SourceFile} {names : Interner}
    {snippets : List String} (h : file.snippets? names = some snippets) :
    ∃ lexed, file.LexesTo names lexed ∧
      lexed.tokens.map (fun token => file.snippet token.span) = snippets := by
  unfold snippets? at h
  split at h
  · rename_i lexed hlexed
    split at h
    · cases h
    · rename_i hclosed
      exact ⟨lexed, ⟨hlexed, by simpa using hclosed⟩, Option.some.inj h⟩
  · cases h

/-- What is in front of a point decides what the point begins, with or without comments. -/
theorem point_spaced :
    ∃ lexed others again, SourceFile.LexesTo ⟨"", "a.1#b#:+.5"⟩ .empty lexed ∧
      SourceFile.LexesTo ⟨"", "a . 1 : + .5"⟩ .empty others ∧
      (lex ⟨"", "a . 1 : + .5 "⟩ .empty).outcome = .ok again ∧
      again.tokens.map (·.kind) = lexed.tokens.map (·.kind) ∧
      others.tokens.map (·.kind) = lexed.tokens.map (·.kind) := by
  have hclose : SourceFile.snippets? ⟨"", "a.1#b#:+.5"⟩ .empty =
      some ["a", ".", "1", ":", "+", ".5", ""] := by
    decide +kernel
  have hwide : SourceFile.snippets? ⟨"", "a . 1 : + .5"⟩ .empty =
      some ["a", ".", "1", ":", "+", ".5", ""] := by
    decide +kernel
  obtain ⟨lexed, hlexed, hsnippets⟩ := SourceFile.lexesTo_of_snippets hclose
  obtain ⟨others, hothers, hsame⟩ := SourceFile.lexesTo_of_snippets hwide
  obtain ⟨hagain, hother⟩ := lex_spaced hlexed
  obtain ⟨again, houtcome, -, -, hkinds⟩ := hagain "" _ _ (.inl rfl) (.inl rfl)
  have hspaced : SourceFile.spaced ⟨"", "a.1#b#:+.5"⟩ lexed.tokens = "a . 1 : + .5 " := by
    unfold SourceFile.spaced
    rw [hsnippets]
    rfl
  rw [hspaced] at houtcome
  exact ⟨lexed, others, again, hlexed, hothers, houtcome, hkinds,
    hother _ others hothers (hsame.trans hsnippets.symm)⟩

end ExprScript
