import ExprScript.Parser.Basic

/-!
# Brackets of a token list

Going through a token list, the openers without a closer so far form a stack. A closer takes the
last of them away, which must be of its kind. The number of openers left is the sum that a session
counts.
-/
namespace ExprScript

/-- The open brackets behind one more token, the last one first. There are none if the token closes
another bracket than the last one. -/
def openBehind (opened : List Token) (token : Token) : Option (List Token) :=
  match token.kind with
  | .mark (.opening _) => some (token :: opened)
  | .mark (.closing bracket) =>
    match opened with
    | opener :: outer => if opener.kind.isMark (.opening bracket) then some outer else none
    | [] => none
  | _ => some opened

/-- The open brackets behind more tokens. -/
def openBrackets (opened tokens : List Token) : Option (List Token) :=
  tokens.foldlM openBehind opened

/-- Every closer matches the last open bracket, and none is left open. -/
def WellNested (tokens : List Token) : Prop := openBrackets [] tokens = some []

/-- A kind of token that is neither a bracket nor the end of the input. -/
def TokenKind.Plain : TokenKind → Prop
  | .mark (.opening _) | .mark (.closing _) | .mark .eof => False
  | _ => True

variable {opened closed tokens : List Token} {token : Token}

@[simp] theorem openBrackets_nil (opened : List Token) : openBrackets opened [] = some opened := rfl

@[simp] theorem openBrackets_singleton (opened : List Token) (token : Token) :
    openBrackets opened [token] = openBehind opened token := by
  simp [openBrackets]

theorem openBrackets_append (opened first second : List Token) :
    openBrackets opened (first ++ second) =
      (openBrackets opened first).bind fun middle => openBrackets middle second := by
  simp [openBrackets]

theorem openBehind_plain (opened : List Token) (h : token.kind.Plain) :
    openBehind opened token = some opened := by
  unfold openBehind
  split
  · rename_i heq
    rw [heq] at h
    exact h.elim
  · rename_i heq
    rw [heq] at h
    exact h.elim
  · rfl

theorem openBehind_eof (h : token.kind = .mark .eof) (opened : List Token) :
    openBehind opened token = some opened := by
  simp [openBehind, h]

theorem openBehind_opening {bracket : Bracket} (h : token.kind = .mark (.opening bracket))
    (opened : List Token) : openBehind opened token = some (token :: opened) := by
  simp [openBehind, h]

theorem openBehind_closing {opener : Token} {bracket : Bracket}
    (h : token.kind = .mark (.closing bracket)) (hopener : opener.kind = .mark (.opening bracket))
    (outer : List Token) : openBehind (opener :: outer) token = some outer := by
  simp [openBehind, h, hopener, TokenKind.isMark, TokenKind.mark?]

/-- Brackets around it are no matter to a stretch that does not close them. -/
theorem openBehind_around (h : openBehind opened token = some closed) (outer : List Token) :
    openBehind (opened ++ outer) token = some (closed ++ outer) := by
  unfold openBehind at h ⊢
  split at h
  · cases h
    rfl
  · split at h
    · split at h
      · rename_i hkind
        cases h
        simp [hkind]
      · cases h
    · cases h
  · cases h
    rfl

theorem openBrackets_around (h : openBrackets opened tokens = some closed) (outer : List Token) :
    openBrackets (opened ++ outer) tokens = some (closed ++ outer) := by
  induction tokens generalizing opened with
  | nil =>
    cases h
    rfl
  | cons token tokens ih =>
    unfold openBrackets at h ih ⊢
    rw [List.foldlM_cons] at h ⊢
    obtain ⟨middle, hmiddle, hrest⟩ := Option.bind_eq_some_iff.mp h
    rw [openBehind_around hmiddle outer]
    exact ih hrest

/-! ## Counting -/

theorem bracketDepth_cons (token : Token) (tokens : List Token) :
    bracketDepth (token :: tokens) = token.kind.depthChange + bracketDepth tokens := by
  have hstart : ∀ (tokens : List Token) (n : Int),
      tokens.foldl (fun depth token => depth + token.kind.depthChange) n =
        n + bracketDepth tokens := by
    intro tokens
    induction tokens with
    | nil => simp [bracketDepth]
    | cons first rest ih =>
      intro n
      unfold bracketDepth
      rw [List.foldl_cons, List.foldl_cons, ih, ih]
      omega
  unfold bracketDepth
  rw [List.foldl_cons, hstart]
  unfold bracketDepth
  omega

theorem length_openBehind (h : openBehind opened token = some closed) :
    (closed.length : Int) = opened.length + token.kind.depthChange := by
  unfold openBehind at h
  split at h
  · rename_i heq
    cases h
    simp [heq, TokenKind.depthChange]
  · rename_i heq
    split at h
    · split at h
      · cases h
        simp only [heq, TokenKind.depthChange, List.length_cons]
        omega
      · cases h
    · cases h
  · rename_i hopening hclosing
    cases h
    have hnone : token.kind.depthChange = 0 := by
      unfold TokenKind.depthChange
      split
      · exact absurd ‹_› (hopening _)
      · exact absurd ‹_› (hclosing _)
      · rfl
    omega

theorem length_openBrackets (h : openBrackets opened tokens = some closed) :
    (closed.length : Int) = opened.length + bracketDepth tokens := by
  induction tokens generalizing opened with
  | nil =>
    cases h
    simp [bracketDepth]
  | cons token tokens ih =>
    unfold openBrackets at h ih
    rw [List.foldlM_cons] at h
    obtain ⟨middle, hmiddle, hrest⟩ := Option.bind_eq_some_iff.mp h
    have hfirst := length_openBehind hmiddle
    have hlast := ih hrest
    rw [bracketDepth_cons]
    omega

end ExprScript
