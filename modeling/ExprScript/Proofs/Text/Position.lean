import ExprScript.Text.Source
import Mathlib.Data.List.Induction

/-!
# Places in a text

The place behind a first part of a text is found by its bytes, in the table of where lines begin, as
well as by going through its characters, and whatever follows has no part in it.
-/
namespace ExprScript

@[simp] theorem byteLength_nil : byteLength [] = 0 := rfl

@[simp] theorem byteLength_append (xs ys : List Char) :
    byteLength (xs ++ ys) = byteLength xs + byteLength ys := by
  have hstart : ∀ (cs : List Char) (n : Nat),
      cs.foldl (fun n c => n + c.utf8Size) n = n + byteLength cs := by
    intro cs
    induction cs with
    | nil => intro n; rfl
    | cons c cs ih =>
      intro n
      unfold byteLength
      rw [List.foldl_cons, List.foldl_cons, ih, ih]
      omega
  unfold byteLength
  rw [List.foldl_append, hstart]
  rfl

@[simp] theorem byteLength_cons (c : Char) (cs : List Char) :
    byteLength (c :: cs) = c.utf8Size + byteLength cs := by
  have h := byteLength_append [c] cs
  simpa [byteLength] using h

theorem byteLength_toList (s : String) : byteLength s.toList = s.utf8ByteSize := by
  induction s using String.push_induction with
  | empty => rfl
  | push s c ih =>
    rw [String.toList_push, byteLength_append, ih, String.utf8ByteSize_push]
    simp

theorem countWithin_append (xs ys : List Char) (count : Nat) :
    countWithin (byteLength xs) (xs ++ ys) count = count + xs.length := by
  induction xs generalizing count with
  | nil =>
    cases ys with
    | nil => rfl
    | cons c ys =>
      have hpos := c.utf8Size_pos
      simp [countWithin]
      omega
  | cons c xs ih =>
    have hle : c.utf8Size ≤ c.utf8Size + byteLength xs := Nat.le_add_right ..
    rw [byteLength_cons, List.cons_append]
    simp only [countWithin, hle, if_true, Nat.add_sub_cancel_left, ih, List.length_cons]
    omega

theorem splitBytes_byteLength (xs ys : List Char) :
    splitBytes (byteLength xs) (xs ++ ys) = (xs, ys) := by
  unfold splitBytes
  rw [countWithin_append, List.splitAt_eq]
  simp

namespace Position

theorem advanceAll_start (cs : List Char) :
    start.advanceAll cs =
      ⟨byteLength cs, cs.count '\n', (cs.reverse.takeWhile (· ≠ '\n')).length⟩ := by
  induction cs using List.reverseRecOn with
  | nil => rfl
  | append_singleton cs c ih =>
    rw [advanceAll_append, ih]
    by_cases hc : c = '\n'
    · simp [advance, hc]
    · simp [advance, hc]

theorem offset_advanceAll (p : Position) (cs : List Char) :
    (p.advanceAll cs).offset = p.offset + byteLength cs := by
  induction cs generalizing p with
  | nil => rfl
  | cons c cs ih =>
    rw [advanceAll_cons, ih, offset_advance, byteLength_cons]
    omega

theorem offset_advanceAll_start (cs : List Char) : (start.advanceAll cs).offset = byteLength cs :=
  (offset_advanceAll start cs).trans (Nat.zero_add _)

end Position

/-! ## The table of lines -/

theorem getElem_lt_getElem {table : Array Nat} (hsorted : table.toList.Pairwise (· < ·)) {i j : Nat}
    (hj : j < table.size) (hij : i < j) : table[i] < table[j] :=
  List.pairwise_iff_getElem.mp hsorted i j (Nat.lt_trans hij hj) hj hij

/-- A search in an ascending table tells which entries are not greater than the number: those up to
the place where it stands, or those before the place where it is missing. -/
theorem binarySearch_spec {table : Array Nat} {x lo hi : Nat} {hhi : hi ≤ table.size}
    (hsorted : table.toList.Pairwise (· < ·)) (hlo : lo ≤ table.size)
    (hbelow : ∀ i (_ : i < table.size), i < lo → table[i] < x)
    (habove : ∀ i (_ : i < table.size), hi ≤ i → x < table[i]) :
    match binarySearch table x lo hi hhi with
    | .ok place => place < table.size ∧ ∀ i (_ : i < table.size), table[i] ≤ x ↔ i ≤ place
    | .error next => next ≤ table.size ∧ ∀ i (_ : i < table.size), table[i] ≤ x ↔ i < next := by
  fun_induction binarySearch table x lo hi hhi with
  | case1 lo hi hhi hlt mid hmid heq =>
    refine ⟨hmid, fun i hsize => ?_⟩
    rcases Nat.lt_trichotomy i mid with hbefore | rfl | hbehind
    · have := getElem_lt_getElem hsorted hmid hbefore
      omega
    · omega
    · have := getElem_lt_getElem hsorted hsize hbehind
      omega
  | case2 lo hi hhi hlt mid hmid hne hless ih =>
    refine ih hmid (fun i hsize hbefore => ?_) habove
    rcases Nat.lt_or_eq_of_le (Nat.le_of_lt_succ hbefore) with hbefore | rfl
    · exact Nat.lt_trans (getElem_lt_getElem hsorted hmid hbefore) hless
    · exact hless
  | case3 lo hi hhi hlt mid hmid hne hless ih =>
    refine ih hlo hbelow fun i hsize hbehind => ?_
    have hmore : x < table[mid] := by omega
    rcases Nat.lt_or_eq_of_le hbehind with hbehind | rfl
    · exact Nat.lt_trans hmore (getElem_lt_getElem hsorted hsize hbehind)
    · exact hmore
  | case4 lo hi hhi hend =>
    refine ⟨hlo, fun i hsize => ?_⟩
    have hbelow := hbelow i hsize
    have habove := habove i hsize
    omega

theorem lineStartsFrom_append (offset : Nat) (xs ys : List Char) :
    lineStartsFrom offset (xs ++ ys) =
      lineStartsFrom offset xs ++ lineStartsFrom (offset + byteLength xs) ys := by
  induction xs generalizing offset with
  | nil => rfl
  | cons c xs ih =>
    simp only [List.cons_append, lineStartsFrom, ih, byteLength_cons, Nat.add_assoc]
    split <;> rfl

theorem mem_lineStartsFrom {offset first : Nat} {cs : List Char}
    (h : first ∈ lineStartsFrom offset cs) : offset < first ∧ first ≤ offset + byteLength cs := by
  induction cs generalizing offset with
  | nil => cases h
  | cons c cs ih =>
    have hpos := c.utf8Size_pos
    simp only [lineStartsFrom] at h
    rw [byteLength_cons]
    split at h
    · rcases List.mem_cons.mp h with rfl | h
      · omega
      · have := ih h
        omega
    · have := ih h
      omega

theorem pairwise_lineStartsFrom (offset : Nat) (cs : List Char) :
    (offset :: lineStartsFrom offset cs).Pairwise (· < ·) := by
  refine List.pairwise_cons.mpr ⟨fun first h => (mem_lineStartsFrom h).1, ?_⟩
  induction cs generalizing offset with
  | nil => exact .nil
  | cons c cs ih =>
    simp only [lineStartsFrom]
    split
    · exact List.pairwise_cons.mpr ⟨fun first h => (mem_lineStartsFrom h).1, ih _⟩
    · exact ih _

theorem length_lineStartsFrom (offset : Nat) (cs : List Char) :
    (lineStartsFrom offset cs).length = cs.count '\n' := by
  induction cs generalizing offset with
  | nil => rfl
  | cons c cs ih =>
    simp only [lineStartsFrom]
    split
    · rename_i hc
      rw [hc, List.count_cons_self, List.length_cons, ih]
    · rename_i hc
      rw [List.count_cons_of_ne hc, ih]

/-- Behind some characters stands the last of their line starts, and the column counts what follows
it. -/
theorem exists_lineStart (cs : List Char) :
    ∃ before inside, cs = before ++ inside ∧
      (0 :: lineStartsFrom 0 cs)[cs.count '\n']? = some (byteLength before) ∧
      (Position.start.advanceAll cs).column = inside.length := by
  induction cs using List.reverseRecOn with
  | nil => exact ⟨[], [], rfl, rfl, rfl⟩
  | append_singleton cs c ih =>
    obtain ⟨before, inside, hcs, hstart, hcolumn⟩ := ih
    have hlength := length_lineStartsFrom 0 cs
    rw [lineStartsFrom_append, Position.advanceAll_append, List.count_append]
    by_cases hc : c = '\n'
    · subst hc
      refine ⟨cs ++ ['\n'], [], (List.append_nil _).symm, ?_, by simp [Position.advance]⟩
      rw [List.count_singleton_self, List.getElem?_cons_succ, ← hlength, byteLength_append]
      simp [lineStartsFrom]
    · refine ⟨before, inside ++ [c], by rw [hcs, List.append_assoc], ?_, ?_⟩
      · simpa [lineStartsFrom, hc] using hstart
      · simp [Position.advance, hc, hcolumn]

namespace SourceFile

theorem slice_append {file : SourceFile} {first inside rest : List Char}
    (h : file.text.toList = first ++ (inside ++ rest)) :
    file.slice (byteLength first) (byteLength first + byteLength inside) =
      some (String.ofList inside) := by
  unfold SourceFile.slice
  rw [h, splitBytes_byteLength, Nat.add_sub_cancel_left]
  dsimp only
  rw [splitBytes_byteLength]
  simp

/-- Lines begin where they begin in a first part of the text, and then behind it. -/
theorem getElem?_lineStarts {file : SourceFile} {first rest : List Char}
    (h : file.text.toList = first ++ rest) (i : Nat) :
    file.lineStarts[i]? =
      ((0 :: lineStartsFrom 0 first) ++ lineStartsFrom (byteLength first) rest)[i]? := by
  rw [lineStarts, List.getElem?_toArray, h, lineStartsFrom_append, Nat.zero_add, List.cons_append]

theorem lineAt_spec (file : SourceFile) (offset : Nat) :
    file.lineAt offset < file.lineStarts.size ∧
      ∀ i first, file.lineStarts[i]? = some first → (first ≤ offset ↔ i ≤ file.lineAt offset) := by
  have hsearch := @binarySearch_spec file.lineStarts offset 0 file.lineStarts.size (Nat.le_refl _)
    (pairwise_lineStartsFrom 0 _) (Nat.zero_le _)
    (fun i _ h => absurd h (Nat.not_lt_zero i)) (fun i h h' => absurd h (Nat.not_lt.mpr h'))
  unfold lineAt
  dsimp only
  cases hfound : binarySearch file.lineStarts offset 0 file.lineStarts.size (Nat.le_refl _) with
  | ok place =>
    rw [hfound] at hsearch
    refine ⟨hsearch.1, fun i first hfirst => ?_⟩
    obtain ⟨hsize, rfl⟩ := Array.getElem?_eq_some_iff.mp hfirst
    exact hsearch.2 i hsize
  | error next =>
    rw [hfound] at hsearch
    obtain ⟨hnext, hiff⟩ := hsearch
    -- The first line begins at 0, which no offset lies before.
    have hpos : 0 < next := (hiff 0 (Nat.succ_pos _)).mp (Nat.zero_le _)
    refine ⟨by dsimp only; omega, fun i first hfirst => ?_⟩
    obtain ⟨hsize, rfl⟩ := Array.getElem?_eq_some_iff.mp hfirst
    rw [hiff i hsize]
    dsimp only
    omega

/-- The line that the end of a first part of a text falls on is the number of its line feeds. -/
theorem lineAt_byteLength {file : SourceFile} {first rest : List Char}
    (h : file.text.toList = first ++ rest) :
    file.lineAt (byteLength first) = first.count '\n' := by
  obtain ⟨hlt, hiff⟩ := file.lineAt_spec (byteLength first)
  have hlength : (0 :: lineStartsFrom 0 first).length = first.count '\n' + 1 := by
    rw [List.length_cons, length_lineStartsFrom]
  refine Nat.le_antisymm (Nat.le_of_not_lt fun hmore => ?_) ?_
  · -- A line start behind those of the first part lies behind the first part.
    have hfound := Array.getElem?_eq_getElem hlt
    have hle := (hiff _ _ hfound).mpr (Nat.le_refl _)
    rw [getElem?_lineStarts h, List.getElem?_append_right (by omega)] at hfound
    have hlater := mem_lineStartsFrom (List.mem_of_getElem? hfound)
    omega
  · obtain ⟨before, inside, hfirst, hstart, -⟩ := exists_lineStart first
    refine (hiff _ (byteLength before) ?_).mp ?_
    · rw [getElem?_lineStarts h, List.getElem?_append_left (by omega), hstart]
    · rw [hfirst, byteLength_append]
      omega

/-- A place is found where going through the text leads. -/
theorem positionAt_byteLength {file : SourceFile} {first rest : List Char}
    (h : file.text.toList = first ++ rest) :
    file.positionAt (byteLength first) = Position.start.advanceAll first := by
  obtain ⟨before, inside, hfirst, hstart, hcolumn⟩ := exists_lineStart first
  have hlength : (0 :: lineStartsFrom 0 first).length = first.count '\n' + 1 := by
    rw [List.length_cons, length_lineStartsFrom]
  have hlineStart : file.lineStarts[first.count '\n']? = some (byteLength before) := by
    rw [getElem?_lineStarts h, List.getElem?_append_left (by omega), hstart]
  have hslice : file.slice (byteLength before) (byteLength first) = some (String.ofList inside) := by
    rw [hfirst, byteLength_append]
    exact slice_append (by rw [h, hfirst, List.append_assoc])
  unfold positionAt
  rw [h, splitBytes_byteLength]
  dsimp only
  rw [lineAt_byteLength h, hlineStart, Option.getD_some, hslice, Option.getD_some,
    String.length_ofList, ← hcolumn, Position.advanceAll_start]

/-- A position tells how many line feeds lie before it and how many characters behind the last of
them. -/
theorem positionAt_eq (file : SourceFile) (offset : Nat) :
    let before := (splitBytes offset file.text.toList).1
    file.positionAt offset =
      ⟨byteLength before, before.count '\n', (before.reverse.takeWhile (· ≠ '\n')).length⟩ := by
  obtain ⟨first, rest, hsplit⟩ : ∃ first rest, splitBytes offset file.text.toList = (first, rest) :=
    ⟨_, _, rfl⟩
  have htext : file.text.toList = first ++ rest := by
    rw [← splitBytes_append offset file.text.toList, hsplit]
  have hagain : splitBytes (byteLength first) file.text.toList = (first, rest) := by
    rw [htext, splitBytes_byteLength]
  have hplace := positionAt_byteLength htext
  rw [Position.advanceAll_start] at hplace
  simp only [hsplit, ← hplace, positionAt, hagain]

theorem positionAt_append (name : String) (first rest : String) :
    SourceFile.positionAt ⟨name, first ++ rest⟩ first.utf8ByteSize =
      Position.start.advanceAll first.toList := by
  rw [← byteLength_toList]
  exact positionAt_byteLength String.toList_append

end SourceFile
end ExprScript
