import ExprScript.Proofs.Token.Lexer
import ExprScript.Proofs.Tree.Literals

/-!
# Lexing the display form

The display form of a value is lexed to the tokens of an expression that spells the value, in front
of any text that cannot go on with a word or a number.
-/
namespace ExprScript

/-! ## Single lexemes -/

/-- Whether a text ends, or goes on with what follows the item of a list. -/
def EndsItem (more : List Char) : Prop := ∀ c ∈ more.head?, c = ',' ∨ c = ']'

theorem takeWhile_item {p : Char → Bool} {text more : List Char} (htext : ∀ c ∈ text, p c = true)
    (hmore : EndsItem more) (hcomma : p ',' = false) (hcloser : p ']' = false) :
    (text ++ more).takeWhile p = text ∧ (text ++ more).dropWhile p = more := by
  rw [List.takeWhile_append_of_pos htext, List.dropWhile_append_of_pos htext]
  cases more with
  | nil => simp
  | cons c cs =>
    have hc : p c = false := by
      rcases hmore c rfl with rfl | rfl
      · exact hcomma
      · exact hcloser
    simp [hc]

namespace Scan

theorem isTrivia_of {p : Char → Bool} (hp : p ' ' = false ∧ p '\t' = false ∧ p '\r' = false)
    {c : Char} (hc : p c = true) : isTrivia c = false := by
  obtain ⟨hspace, htab, hreturn⟩ := hp
  rw [Bool.eq_false_iff]
  intro htrivia
  have hblank : (c = ' ' ∨ c = '\t') ∨ c = '\r' := by simpa [isTrivia] using htrivia
  rcases hblank with (rfl | rfl) | rfl <;> simp_all

theorem next_word {c : Char} {cs more : List Char} (hstart : isWordStart c = true)
    (hword : ∀ d ∈ c :: cs, isWordChar d = true)
    (hkeyword : Keyword.ofWord? (String.ofList (c :: cs)) = none) (hmore : EndsItem more)
    (attributed : Bool) :
    next attributed c (cs ++ more) = ⟨.word (String.ofList (c :: cs)), cs.length + 1⟩ := by
  have htrivia : isTrivia c = false := isTrivia_of (by decide) hstart
  have hnext : next attributed c (cs ++ more) = word (c :: cs ++ more) := by
    simp [next, htrivia, hstart]
  rw [hnext]
  unfold word
  rw [(takeWhile_item hword hmore (by decide) (by decide)).1]
  simp only [hkeyword, List.length_cons]

theorem digitsValue_toDigits (n : Nat) : digitsValue (Nat.toDigits 10 n) = n := by
  have hsame : ∀ (digits : List Char) (value : Nat),
      digits.foldl appendDigit value = Nat.ofDigitChars 10 digits value := by
    intro digits
    induction digits with
    | nil => exact fun _ => rfl
    | cons digit digits ih =>
      intro value
      have hdigit : appendDigit value digit = 10 * value + (digit.toNat - '0'.toNat) := by
        unfold appendDigit
        omega
      rw [List.foldl_cons, ih, hdigit]
      rfl
  unfold digitsValue
  rw [hsame, Nat.ofDigitChars_ten_toDigits]

/-- The digits of a number that is small enough are read as the number. -/
theorem number_item {n : Nat} (hn : n < 0x8000000000000000) {more : List Char}
    (hmore : EndsItem more) :
    number (Nat.toDigits 10 n ++ more) =
      ⟨.token (.int (Int64.ofNat n)), (Nat.toDigits 10 n).length⟩ := by
  have hdigits : ∀ c ∈ Nat.toDigits 10 n, c.isDigit = true := fun c hc =>
    Nat.isDigit_of_mem_toDigits (by decide) (by decide) hc
  obtain ⟨htake, hdrop⟩ := takeWhile_item hdigits hmore (by decide) (by decide)
  have hvalue : valueUpTo 0x8000000000000000 (Nat.toDigits 10 n) = n := by
    rw [valueUpTo_eq_of_lt, digitsValue_toDigits]
    rw [digitsValue_toDigits]
    exact hn
  unfold number
  rw [htake, hdrop]
  dsimp only
  split
  · rcases hmore '.' rfl with h | h <;> exact absurd h (by decide)
  · rw [hvalue, if_pos hn]

theorem isTrivia_digit {c : Char} (hdigit : c.isDigit = true) : isTrivia c = false :=
  isTrivia_of (by decide) hdigit

theorem isWordStart_digit {c : Char} (hdigit : c.isDigit = true) : isWordStart c = false := by
  rw [Bool.eq_false_iff]
  intro hstart
  have hletter : c.isAlpha = true ∨ c = '_' := by simpa [isWordStart] using hstart
  have hbounds : c.isAlpha = (decide ('A' ≤ c ∧ c ≤ 'Z') ||
      decide ('a' ≤ c) && decide (c ≤ 'z')) := rfl
  rcases hletter with hletter | rfl
  · rw [hbounds] at hletter
    simp [Char.isDigit, Char.le_def, UInt32.le_iff_toNat_le] at hletter hdigit
    omega
  · exact absurd hdigit (by decide)

theorem next_digit {c : Char} (hdigit : c.isDigit = true) (attributed : Bool) (cs : List Char) :
    next attributed c cs = number (c :: cs) := by
  simp [next, isTrivia_digit hdigit, isWordStart_digit hdigit, hdigit]

/-- An escape is read as the character that it stands for. -/
theorem strBody_escape (c : Char) (cs value : List Char) (length : Nat) :
    strBody '"' (valueEscape c ++ cs) value length =
      strBody '"' cs (c :: value) (length + (valueEscape c).length) := by
  by_cases hfeed : c = '\n'
  · subst hfeed
    rfl
  by_cases htab : c = '\t'
  · subst htab
    rfl
  by_cases hreturn : c = '\r'
  · subst hreturn
    rfl
  by_cases hquote : c = '"'
  · subst hquote
    rfl
  by_cases hslash : c = '\\'
  · subst hslash
    rfl
  have hplain : valueEscape c = [c] := by
    simp [valueEscape, hfeed, htab, hreturn, hquote, hslash]
  rw [hplain, List.singleton_append, strBody.eq_def]
  simp [hfeed, hquote, hslash]

/-- The inside of a quoted text is read as the text. -/
theorem strBody_escapes (chars value more : List Char) (length : Nat) :
    strBody '"' (chars.flatMap valueEscape ++ '"' :: more) value length =
      ⟨.str (String.ofList (value.reverse ++ chars)) '"' true,
        length + (chars.flatMap valueEscape).length + 1⟩ := by
  induction chars generalizing value length with
  | nil =>
    rw [List.flatMap_nil, List.nil_append, strBody.eq_def]
    simp
  | cons c chars ih =>
    rw [List.flatMap_cons, List.append_assoc, strBody_escape, ih]
    simp
    omega

end Scan

/-! ## Tokens that are found -/

def Lexeme.Clear : Lexeme → Prop
  | .word _ | .token _ => True
  | .str _ _ closed => closed = true
  | _ => False

/-- The token that a clear lexeme leaves, and the names that are known then. -/
def Lexeme.leaves (names : Interner) : Lexeme → TokenKind × Interner
  | .word text => (.ident (names.intern text).1, (names.intern text).2)
  | .str value _ _ => (.str (names.intern value).1, (names.intern value).2)
  | .token kind => (kind, names)
  | .skipped | .pragma .. | .fault _ => (.mark .eof, names)

namespace Lexing

/-- Whether reading goes from one state to another, finds tokens of some kinds on the way, and
neither a pragma nor anything to warn of. -/
structure Finds (s : Lexing) (kinds : List TokenKind) (t : Lexing) : Prop where
  reads : s.Reads t
  kinds : t.tokens.toList.map (·.kind) = s.tokens.toList.map (·.kind) ++ kinds
  pragmas : t.pragmas = s.pragmas
  warnings : t.warnings = s.warnings

variable {s t u : Lexing} {c : Char} {cs more : List Char} {kinds others : List TokenKind}

theorem Reads.trans (h : s.Reads t) (hnext : t.Reads u) : s.Reads u := by
  induction h with
  | done s => exact hnext
  | next hrest hreadable _ ih => exact .next hrest hreadable (ih hnext)

theorem Finds.trans (h : s.Finds kinds t) (hnext : t.Finds others u) :
    s.Finds (kinds ++ others) u where
  reads := h.reads.trans hnext.reads
  kinds := by rw [hnext.kinds, h.kinds, List.append_assoc]
  pragmas := hnext.pragmas.trans h.pragmas
  warnings := hnext.warnings.trans h.warnings

theorem Finds.grows (h : s.Finds kinds t) : s.names.Grows t.names :=
  h.reads.names (fun table text hgrows => hgrows.trans (table.grows_intern text)) (.refl _)

/-! ### One token

The next lexeme takes a character and some more ones. -/

/-- A lexeme that leaves a token is taken in without any other trace. -/
theorem accept_of_clear {lexeme : Lexeme} (h : lexeme.Clear) (s : Lexing) (chars : List Char)
    (span : Span) :
    s.accept lexeme chars span =
      emit { s with names := (lexeme.leaves s.names).2 } (lexeme.leaves s.names).1 span := by
  cases lexeme with
  | word text => rfl
  | str value delimiter closed =>
    obtain rfl : closed = true := h
    rfl
  | token kind => rfl
  | skipped | pragma name shown | fault cause => exact h.elim

theorem finds_clear (hrest : s.rest = c :: (cs ++ more)) {lexeme : Lexeme} (h : lexeme.Clear)
    (hscan : Scan.next s.attributed c (cs ++ more) = ⟨lexeme, cs.length + 1⟩) :
    ∃ t, s.Finds [(lexeme.leaves s.names).1] t ∧ t.rest = more ∧
      t.names = (lexeme.leaves s.names).2 ∧ t.attributed = lexeme.attributed s.attributed := by
  have hscan : s.scan c (cs ++ more) = ⟨lexeme, cs.length + 1⟩ := hscan
  have hafter : s.after c (cs ++ more) =
      (s.past c (cs ++ more)).accept lexeme (s.taken c (cs ++ more))
        ⟨s.place, (s.past c (cs ++ more)).place⟩ := by
    unfold after
    rw [hscan]
  have hreadable : (s.scan c (cs ++ more)).lexeme.Readable := by
    rw [hscan]
    rintro cause rfl
    exact h
  have hrest' : (s.after c (cs ++ more)).rest = more := by
    rw [after_rest, hscan]
    simp
  have hattributed : (s.after c (cs ++ more)).attributed = lexeme.attributed s.attributed := by
    rw [hafter, attributed_accept]
    rfl
  refine ⟨s.after c (cs ++ more), ⟨.next hrest hreadable (.done _), ?_, ?_, ?_⟩, hrest', ?_,
    hattributed⟩
  · simp [hafter, accept_of_clear h, emit, past]
  all_goals
    rw [hafter, accept_of_clear h]
    rfl

section
variable {text : String} (hrest : s.rest = c :: (cs ++ more))

include hrest

theorem finds_token {kind : TokenKind}
    (hscan : Scan.next s.attributed c (cs ++ more) = ⟨.token kind, cs.length + 1⟩) :
    ∃ t, s.Finds [kind] t ∧ t.rest = more := by
  have hclear : Lexeme.Clear (.token kind) := trivial
  obtain ⟨t, hfinds, ht, -⟩ := finds_clear hrest hclear hscan
  exact ⟨t, hfinds, ht⟩

/-- A word and a quoted text give a token with the name of a text. -/
theorem finds_named {lexeme : Lexeme} {kind : Name → TokenKind}
    (hscan : Scan.next s.attributed c (cs ++ more) = ⟨lexeme, cs.length + 1⟩)
    (hleaves : lexeme.leaves s.names = (kind (s.names.intern text).1, (s.names.intern text).2))
    (h : lexeme.Clear) :
    ∃ t name, s.Finds [kind name] t ∧ t.rest = more ∧ t.names.Knows text name := by
  obtain ⟨t, hfinds, ht, hnames, -⟩ := finds_clear hrest h hscan
  rw [hleaves] at hfinds hnames
  refine ⟨t, (s.names.intern text).1, hfinds, ht, ?_⟩
  rw [hnames]
  exact s.names.knows_intern text

end

theorem finds_mark (mark : Mark) (hrest : s.rest = c :: more)
    (hscan : Scan.next s.attributed c more = Scan.mark mark 1) :
    ∃ t, s.Finds [.mark mark] t ∧ t.rest = more := by
  have hrest : s.rest = c :: ([] ++ more) := hrest
  exact finds_token hrest hscan

theorem finds_blank (hrest : s.rest = ' ' :: more)
    (hmore : ∀ c ∈ more.head?, Scan.isTrivia c = false) :
    s.Finds [] (s.past ' ' more) ∧ (s.past ' ' more).rest = more := by
  have hblank : (' ' :: more).takeWhile Scan.isTrivia = [' '] := by
    rw [List.takeWhile_cons_of_pos (by decide)]
    cases more with
    | nil => rfl
    | cons c cs => rw [List.takeWhile_cons_of_neg (by simpa using hmore c rfl)]
  have hscan : s.scan ' ' more = ⟨.skipped, 1⟩ := by
    unfold scan Scan.next
    rw [hblank]
    rfl
  have hafter : s.after ' ' more = s.past ' ' more := by
    unfold after
    rw [hscan]
    rfl
  have hreadable : (s.scan ' ' more).lexeme.Readable := by
    rw [hscan]
    exact nofun
  refine ⟨⟨.next hrest hreadable (hafter ▸ .done _), ?_, rfl, rfl⟩, ?_⟩
  · exact (List.append_nil _).symm
  · unfold past
    rw [hscan]
    rfl

end Lexing

/-! ## The display form -/

namespace Lexing

variable {s : Lexing} {more : List Char} {value : Value}

/-- Whether wherever the display form of a value stands as an item, the lexer finds an expression
there that spells the value. -/
def Displays (value : Value) : Prop :=
  ∀ (s : Lexing) (more : List Char), s.rest = value.display.toList ++ more → EndsItem more →
    ∃ t tree, s.Finds tree.tokens t ∧ t.rest = more ∧ t.names.Spells value tree

theorem displays_constant {c : Char} {cs : List Char}
    (hconstant : value.constant? = some (String.ofList (c :: cs)))
    (hdisplay : value.display.toList = c :: cs) (hstart : Scan.isWordStart c = true)
    (hword : (c :: cs).all Scan.isWordChar = true)
    (hkeyword : Keyword.ofWord? (String.ofList (c :: cs)) = none) : Displays value := by
  intro s more hrest hmore
  rw [hdisplay, List.cons_append] at hrest
  have hscan := Scan.next_word hstart (List.all_eq_true.mp hword) hkeyword hmore s.attributed
  obtain ⟨t, name, hfinds, ht, hname⟩ := finds_named hrest hscan rfl trivial
  exact ⟨t, .ident name, hfinds, ht, .constant hconstant hname⟩

theorem displays_null : Displays .null :=
  displays_constant rfl rfl (by decide) (by decide) (by decide)

theorem displays_bool (b : Bool) : Displays (.bool b) := by
  cases b with
  | true => exact displays_constant rfl rfl (by decide) (by decide) (by decide)
  | false => exact displays_constant rfl rfl (by decide) (by decide) (by decide)

theorem displays_str (text : String) : Displays (.str text) := by
  intro s more hrest _
  rw [Value.display_str, List.cons_append] at hrest
  have hscan : Scan.next s.attributed '"' ((escapedChars text ++ ['"']) ++ more) =
      ⟨.str text '"' true, (escapedChars text ++ ['"']).length + 1⟩ := by
    have hbody := Scan.strBody_escapes text.toList [] more 1
    have hnext : Scan.next s.attributed '"' (escapedChars text ++ ['"'] ++ more) =
        Scan.strBody '"' (escapedChars text ++ ['"'] ++ more) [] 1 := rfl
    rw [hnext, List.append_assoc]
    refine hbody.trans ?_
    simp [escapedChars]
    omega
  obtain ⟨t, name, hfinds, ht, hname⟩ := finds_named hrest hscan rfl rfl
  exact ⟨t, .str name, hfinds, ht, .str hname⟩

/-- The digits of a number that is small enough are found as the number. -/
theorem finds_number {n : Nat} (hn : n < 0x8000000000000000)
    (hrest : s.rest = Nat.toDigits 10 n ++ more) (hmore : EndsItem more) :
    ∃ t, s.Finds [.int (Int64.ofNat n)] t ∧ t.rest = more := by
  obtain ⟨c, cs, hdigits⟩ := List.exists_cons_of_ne_nil (Nat.toDigits_ne_nil (n := n) (b := 10))
  have hdigit : c.isDigit = true :=
    Nat.isDigit_of_mem_toDigits (by decide) (by decide) (hdigits ▸ List.mem_cons_self)
  have hnumber := Scan.number_item hn hmore
  rw [hdigits, List.cons_append] at hrest hnumber
  apply finds_token hrest
  rw [Scan.next_digit hdigit, hnumber]
  rfl

theorem displays_int {n : Int64} (h : n ≠ Int64.minValue) : Displays (.int n) := by
  intro s more hrest hmore
  have hlower := Int64.le_toInt n
  have hupper := Int64.toInt_lt n
  have hleast : n.toInt ≠ -0x8000000000000000 := fun hleast => h (Int64.toInt_inj.mp hleast)
  have hsmall : n.toInt.natAbs < 0x8000000000000000 := by omega
  have hexact : (Int64.ofNat n.toInt.natAbs).toInt = n.toInt.natAbs :=
    Int64.toInt_ofNat_of_lt hsmall
  rw [Value.display_int] at hrest
  by_cases hnegative : n.toInt < 0
  · rw [if_pos hnegative, List.cons_append] at hrest
    obtain ⟨t, hsign, ht⟩ := finds_mark (.arith .sub) hrest rfl
    obtain ⟨u, hdigits, hu⟩ := finds_number hsmall ht hmore
    refine ⟨u, .unary .neg (.int (Int64.ofNat n.toInt.natAbs)), hsign.trans hdigits, hu, ?_⟩
    apply Interner.Spells.negative
    apply int64?_eq_some_iff.mpr
    omega
  · rw [if_neg hnegative] at hrest
    obtain ⟨t, hdigits, ht⟩ := finds_number hsmall hrest hmore
    have hsame : Int64.ofNat n.toInt.natAbs = n := by
      apply Int64.toInt_inj.mp
      omega
    rw [hsame] at hdigits
    exact ⟨t, .int n, hdigits, ht, .int n⟩

/-! ### Lists -/

/-- Every display form begins with something else than a blank. -/
theorem head_display (h : value.Plain) :
    ∃ c cs, value.display.toList = c :: cs ∧ Scan.isTrivia c = false := by
  cases h with
  | null => exact ⟨'n', _, rfl, by decide⟩
  | bool b =>
    cases b with
    | true => exact ⟨'t', _, rfl, by decide⟩
    | false => exact ⟨'f', _, rfl, by decide⟩
  | @int n _ =>
    rw [Value.display_int]
    split
    · exact ⟨'-', _, rfl, by decide⟩
    · obtain ⟨c, cs, hdigits⟩ :=
        List.exists_cons_of_ne_nil (Nat.toDigits_ne_nil (n := n.toInt.natAbs) (b := 10))
      refine ⟨c, cs, hdigits, Scan.isTrivia_digit ?_⟩
      exact Nat.isDigit_of_mem_toDigits (by decide) (by decide) (hdigits ▸ List.mem_cons_self)
  | str text =>
    rw [Value.display_str]
    exact ⟨'"', _, rfl, by decide⟩
  | @list items _ _ =>
    cases items with
    | nil =>
      rw [Value.display_nil]
      exact ⟨'[', _, rfl, by decide⟩
    | cons item items =>
      rw [Value.display_cons]
      exact ⟨'[', _, rfl, by decide⟩

theorem endsItem_closing (items : List Value) (more : List Char) :
    EndsItem (Value.closing items ++ more) := by
  intro c hc
  cases items with
  | nil =>
    obtain rfl : ']' = c := by simpa [Value.closing] using hc
    exact .inr rfl
  | cons item items =>
    obtain rfl : ',' = c := by simpa [Value.closing] using hc
    exact .inl rfl

theorem finds_closing {items : List Value} (hplain : ∀ item ∈ items, item.Plain)
    (hitems : ∀ item ∈ items, Displays item) (hrest : s.rest = Value.closing items ++ more) :
    ∃ t trees, s.Finds (SyntaxTree.closing trees) t ∧ t.rest = more ∧
      trees.length = items.length ∧ ∀ pair ∈ items.zip trees, t.names.Spells pair.1 pair.2 := by
  induction items generalizing s with
  | nil =>
    obtain ⟨t, hfinds, ht⟩ := finds_mark (.closing .square) hrest rfl
    exact ⟨t, [], hfinds, ht, rfl, by simp⟩
  | cons item items ih =>
    obtain ⟨hitem, hothers⟩ := List.forall_mem_cons.mp hitems
    obtain ⟨hfirst, hlater⟩ := List.forall_mem_cons.mp hplain
    simp only [Value.closing, List.cons_append, List.append_assoc] at hrest
    obtain ⟨t, hcomma, ht⟩ := finds_mark .comma hrest rfl
    have hhead : ∀ c ∈ (item.display.toList ++ (Value.closing items ++ more)).head?,
        Scan.isTrivia c = false := by
      obtain ⟨first, cs, hdisplay, hfirst⟩ := head_display hfirst
      intro c hc
      obtain rfl : first = c := by simpa [hdisplay] using hc
      exact hfirst
    obtain ⟨hblank, hu⟩ := finds_blank ht hhead
    obtain ⟨v, tree, htree, hv, hspells⟩ := hitem _ _ hu (endsItem_closing items more)
    obtain ⟨w, trees, htrees, hw, hlength, hall⟩ := ih hlater hothers hv
    refine ⟨w, tree :: trees, ?_, hw, by simp [hlength], ?_⟩
    · exact hcomma.trans ((hblank.trans htree).trans htrees)
    · rw [List.zip_cons_cons]
      exact List.forall_mem_cons.mpr ⟨hspells.mono htrees.grows, hall⟩

theorem displays_list {items : List Value} (hplain : ∀ item ∈ items, item.Plain)
    (hitems : ∀ item ∈ items, Displays item) : Displays (.list items) := by
  intro s more hrest hmore
  cases items with
  | nil =>
    rw [Value.display_nil] at hrest
    obtain ⟨t, hopener, ht⟩ := finds_mark (.opening .square) hrest rfl
    obtain ⟨u, hcloser, hu⟩ := finds_mark (.closing .square) ht rfl
    exact ⟨u, .list [], hopener.trans hcloser, hu, .list rfl (by simp)⟩
  | cons item items =>
    obtain ⟨hitem, hothers⟩ := List.forall_mem_cons.mp hitems
    obtain ⟨-, hlater⟩ := List.forall_mem_cons.mp hplain
    rw [Value.display_cons, List.cons_append, List.append_assoc] at hrest
    obtain ⟨t, hopener, ht⟩ := finds_mark (.opening .square) hrest rfl
    obtain ⟨u, tree, htree, hu, hspells⟩ := hitem t _ ht (endsItem_closing items more)
    obtain ⟨v, trees, htrees, hv, hlength, hall⟩ := finds_closing hlater hothers hu
    refine ⟨v, .list (tree :: trees), ?_, hv, .list (by simp [hlength]) ?_⟩
    · rw [SyntaxTree.tokens_cons]
      exact hopener.trans (htree.trans htrees)
    · rw [List.zip_cons_cons]
      exact List.forall_mem_cons.mpr ⟨hspells.mono htrees.grows, hall⟩

/-- The display form of whatever the language can write down is found as an expression that spells
the value. -/
theorem displays_plain (h : value.Plain) : Displays value := by
  induction h with
  | null => exact displays_null
  | bool b => exact displays_bool b
  | int h => exact displays_int h
  | str text => exact displays_str text
  | list _ hitems ih => exact displays_list hitems ih

end Lexing

/-- What the display form of a value is lexed to, whatever texts have names already. -/
theorem lexText_display {value : Value} (h : value.Plain) (place : Position) (names : Interner) :
    ∃ tokens tree more, lexText value.display.toList place names = ⟨more, [], .ok ⟨tokens, []⟩⟩ ∧
      (names.Grows more ∧ (names.Sound → more.Sound)) ∧ more.Spells value tree ∧
      tokens.map (·.kind) = tree.tokens ++ [.mark .eof] := by
  have hitem : EndsItem [] := by simp [EndsItem]
  obtain ⟨t, tree, hfinds, ht, hspells⟩ := Lexing.displays_plain h
    (Lexing.ofText value.display.toList place names) [] (List.append_nil _).symm hitem
  have hpragmas : t.pragmas = #[] := hfinds.pragmas
  have hwarnings : t.warnings = #[] := hfinds.warnings
  have hsound : names.Sound → t.names.Sound := fun hsound =>
    hfinds.reads.names (fun _ text htable => htable.intern text) hsound
  refine ⟨t.tokens.toList ++ [⟨.mark .eof, Span.point t.place⟩], tree, t.names, ?_,
    ⟨hfinds.grows, hsound⟩, hspells, ?_⟩
  · rw [lexText_of_reads hfinds.reads ht, hpragmas, hwarnings]
  · rw [List.map_append, hfinds.kinds]
    rfl

end ExprScript
