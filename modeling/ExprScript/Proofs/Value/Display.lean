import ExprScript.Tree.Arena
import ExprScript.Value.Display

/-!
# The display form

What is written already does not change how a value is written behind it, so the display form of a
list is made of those of its items.
-/
namespace ExprScript

/-- Whether the language can write a value down: it is no float, no infinity and no function, its
ints are the opposites of ints, and its lists are no longer than a list of a program can be. -/
inductive Value.Plain : Value → Prop
  | null : Plain .null
  | bool (b : Bool) : Plain (.bool b)
  | int {n : Int64} (h : n ≠ Int64.minValue) : Plain (.int n)
  | str (text : String) : Plain (.str text)
  | list {items : List Value} (hlength : items.length ≤ maxRunLength)
      (hitems : ∀ item ∈ items, Plain item) : Plain (.list items)

/-- The characters of a text with the escapes that a quoted text has. -/
def escapedChars (text : String) : List Char := text.toList.flatMap valueEscape

theorem toList_foldl_push (chars : List Char) (out : String) :
    (chars.foldl String.push out).toList = out.toList ++ chars := by
  induction chars generalizing out with
  | nil => simp
  | cons c chars ih => simp [ih]

theorem toList_writeQuoted (text out : String) :
    (writeQuoted text out).toList = out.toList ++ '"' :: (escapedChars text ++ ['"']) := by
  have hinside : ∀ (chars : List Char) (out : String),
      (chars.foldl (fun out c => (valueEscape c).foldl String.push out) out).toList =
        out.toList ++ chars.flatMap valueEscape := by
    intro chars
    induction chars with
    | nil => simp
    | cons c chars ih =>
      intro out
      rw [List.foldl_cons, ih, toList_foldl_push, List.flatMap_cons, List.append_assoc]
  unfold writeQuoted escapedChars
  rw [String.foldl_eq_foldl_toList, String.toList_push, hinside, String.toList_push]
  simp

namespace Value

mutual

theorem toList_write (value : Value) (out : String) :
    (value.write out).toList = out.toList ++ value.display.toList := by
  cases value with
  | list items =>
    unfold display
    simp only [write, String.toList_push]
    rw [toList_writeItems items true (out.push '['), toList_writeItems items true ("".push '[')]
    simp
  | str text =>
    unfold display
    simp only [write]
    rw [toList_writeQuoted, toList_writeQuoted]
    simp
  | _ => simp [display, write]

theorem toList_writeItems (items : List Value) (first : Bool) (out : String) :
    (writeItems items first out).toList = out.toList ++ (writeItems items first "").toList := by
  cases items with
  | nil => simp [writeItems]
  | cons item items =>
    simp only [writeItems]
    rw [toList_writeItems items false (write item _), toList_write item,
      toList_writeItems items false (write item (if first then "" else "" ++ ", ")),
      toList_write item]
    cases first <;> simp
end

/-- The characters of the items of a list behind one of them, with the end of the list. -/
def closing : List Value → List Char
  | [] => [']']
  | item :: items => ',' :: ' ' :: (item.display.toList ++ closing items)

theorem toList_writeItems_rest (items : List Value) (out : String) :
    (writeItems items false out).toList ++ [']'] = out.toList ++ closing items := by
  induction items generalizing out with
  | nil => simp [writeItems, closing]
  | cons item items ih =>
    simp only [writeItems, closing, Bool.false_eq_true, if_false]
    rw [ih, toList_write]
    simp

theorem display_nil : (list []).display.toList = ['[', ']'] := by
  simp [display, write, writeItems]

theorem display_cons (item : Value) (items : List Value) :
    (list (item :: items)).display.toList =
      '[' :: (item.display.toList ++ closing items) := by
  unfold display
  simp only [write, writeItems, if_true, String.toList_push]
  rw [toList_writeItems_rest, toList_write]
  simp [display]

theorem display_str (text : String) :
    (str text).display.toList = '"' :: (escapedChars text ++ ['"']) := by
  simp [display, write, toList_writeQuoted]

/-- An int is written as its digits, behind a sign if it is negative. -/
theorem display_int (n : Int64) :
    (int n).display.toList =
      if n.toInt < 0 then '-' :: Nat.toDigits 10 n.toInt.natAbs
      else Nat.toDigits 10 n.toInt.natAbs := by
  have hdisplay : (int n).display = toString n.toInt := by
    simp [display, write, Number.display]
  rw [hdisplay]
  cases n.toInt with
  | ofNat k =>
    have hpositive : ¬Int.ofNat k < 0 := Int.not_lt.mpr (Int.natCast_nonneg k)
    rw [if_neg hpositive]
    exact Nat.toList_repr ..
  | negSucc k =>
    have hrepr : toString (Int.negSucc k) = "-" ++ (k + 1).repr := rfl
    rw [if_pos (Int.negSucc_lt_zero k), hrepr, Nat.repr_eq_ofList_toDigits]
    simp

end Value
end ExprScript
