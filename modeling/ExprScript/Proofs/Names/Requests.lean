import ExprScript.Names.Requests
import ExprScript.Proofs.Names
import Mathlib.Data.List.Basic
import Mathlib.Data.List.Induction
import Mathlib.Tactic.ByContra

/-!
# Names in the order of first appearance

A table lists the different texts that it was asked to name, in the order in which they first
appeared, and the name of a text is its place in this list. So names stand for texts however requests
follow each other: the name of a text gives the text back from then on, and equal names mean equal
texts.
-/
namespace ExprScript.Interner

/-! ## The texts of requests -/

def Request.text? : Request → Option String
  | .intern text => some text
  | .lookup _ | .size => none

/-- The texts that are named one after another. The empty text has a name from the start. -/
def asked (requests : List Request) : List String := "" :: requests.filterMap Request.text?

/-- The texts that have names after some requests, in the order of first appearance. -/
def known (requests : List Request) : List String := (asked requests).eraseDups

section Known

variable {requests : List Request} {request : Request} {text : String}

theorem Request.text?_eq_some_iff : request.text? = some text ↔ request = .intern text := by
  cases request <;> simp [Request.text?]

theorem mem_known : text ∈ known requests ↔ text = "" ∨ .intern text ∈ requests := by
  simp only [known, asked, List.mem_eraseDups, List.mem_cons, List.mem_filterMap,
    Request.text?_eq_some_iff, exists_eq_right]

theorem known_append (earlier later : List Request) :
    known (earlier ++ later) =
      known earlier ++ ((later.filterMap Request.text?).removeAll (asked earlier)).eraseDups := by
  rw [known, asked, List.filterMap_append, ← List.cons_append, List.eraseDups_append]
  rfl

theorem known_take (requests : List Request) (n : Nat) :
    known (requests.take n) <+: known requests := by
  conv_rhs => rw [← List.take_append_drop n requests, known_append]
  exact List.prefix_append _ _

theorem known_concat_of_known (h : ∀ text, request = .intern text → text ∈ known requests) :
    known (requests ++ [request]) = known requests := by
  have hnothing : ([request].filterMap Request.text?).removeAll (asked requests) = [] := by
    cases htext : request.text? with
    | none => rw [List.filterMap_cons_none htext, List.filterMap_nil, List.nil_removeAll]
    | some text =>
      have hmem := List.mem_eraseDups.mp (h text (Request.text?_eq_some_iff.mp htext))
      rw [List.filterMap_cons_some htext, List.filterMap_nil, List.cons_removeAll,
        List.contains_iff_mem.mpr hmem]
      rfl
  rw [known_append, hnothing, List.eraseDups_nil, List.append_nil]

theorem known_concat_of_new (h : text ∉ known requests) :
    known (requests ++ [.intern text]) = known requests ++ [text] := by
  have hnew : (asked requests).contains text = false :=
    Bool.eq_false_iff.mpr fun hold => h (List.mem_eraseDups.mpr (List.contains_iff_mem.mp hold))
  have htext : (Request.intern text).text? = some text := rfl
  rw [known_append, List.filterMap_cons_some htext, List.filterMap_nil, List.cons_removeAll, hnew]
  rfl

end Known

/-! ## A table that lists texts -/

/-- Whether a table holds some texts in this order, and the name of each is its place. -/
structure Lists (table : Interner) (texts : List String) : Prop where
  texts_eq : table.texts.toList = texts
  knows_iff : ∀ text name, table.Knows text name ↔ texts[name.index]? = some text

variable {table : Interner} {texts : List String} {text : String} {name : Name} {n : Nat}

theorem lists_empty : empty.Lists [""] where
  texts_eq := rfl
  knows_iff text name := by
    constructor
    · intro hknows
      have hplace := sound_empty text name hknows
      simpa [empty] using hplace
    · intro hplace
      have hknows : empty.Knows "" ⟨0⟩ := Std.HashMap.getElem?_insert_self
      obtain ⟨hindex, htext⟩ := List.getElem?_eq_some_iff.mp hplace
      obtain ⟨index⟩ := name
      obtain rfl : index = 0 := Nat.lt_one_iff.mp hindex
      exact htext ▸ hknows

namespace Lists

theorem getElem? (h : table.Lists texts) (n : Nat) : table.texts[n]? = texts[n]? := by
  rw [← h.texts_eq, Array.getElem?_toList]

theorem sound (h : table.Lists texts) : table.Sound := fun text name hknows => by
  rw [h.getElem?, (h.knows_iff text name).mp hknows]

theorem size (h : table.Lists texts) : table.texts.size = texts.length := by
  rw [← h.texts_eq, Array.length_toList]

theorem knows (h : table.Lists texts) (hmem : text ∈ texts) :
    table.Knows text ⟨texts.idxOf text⟩ :=
  (h.knows_iff text _).mpr (List.getElem?_idxOf hmem)

theorem idxOf_eq (h : table.Lists texts) (htext : texts[n]? = some text) :
    texts.idxOf text = n :=
  congrArg Name.index
    ((h.knows (List.mem_of_getElem? htext)).unique ((h.knows_iff text ⟨n⟩).mpr htext))

theorem lookup (h : table.Lists texts) (hmem : text ∈ texts) :
    table.lookup ⟨texts.idxOf text⟩ = text :=
  h.sound.lookup (h.knows hmem)

theorem intern_of_mem (h : table.Lists texts) (hmem : text ∈ texts) :
    table.intern text = (⟨texts.idxOf text⟩, table) :=
  intern_of_knows (h.knows hmem)

theorem intern_of_new (h : table.Lists texts) (hnew : text ∉ texts) :
    (table.intern text).1 = ⟨texts.length⟩ ∧ (table.intern text).2.Lists (texts ++ [text]) := by
  have hnone : table.numbers[text]? = none := by
    by_contra hsome
    obtain ⟨n, hn⟩ := Option.ne_none_iff_exists'.mp hsome
    exact hnew (List.mem_of_getElem? ((h.knows_iff text ⟨n⟩).mp hn))
  have hname : (table.intern text).1 = ⟨texts.length⟩ := by simp [intern, hnone, h.size]
  have htexts : (table.intern text).2.texts.toList = texts ++ [text] := by
    simp [intern, hnone, h.texts_eq]
  refine ⟨hname, htexts, fun other name => ⟨fun hknows => ?_, fun hplace => ?_⟩⟩
  · rw [← htexts, Array.getElem?_toList]
    exact h.sound.intern text other name hknows
  · -- A place in the longer list is an old one, whose text keeps its name, or that of the new text.
    rcases Nat.lt_or_ge name.index texts.length with hold | hlast
    · rw [List.getElem?_append_left hold] at hplace
      exact grows_intern table text other name ((h.knows_iff other name).mpr hplace)
    · rw [List.getElem?_append_right hlast] at hplace
      obtain ⟨hindex, hother⟩ := List.getElem?_eq_some_iff.mp hplace
      have hsame : name.index = texts.length :=
        Nat.le_antisymm (Nat.sub_eq_zero_iff_le.mp (Nat.lt_one_iff.mp hindex)) hlast
      obtain rfl : text = other := by simpa [hsame] using hother
      obtain rfl : (table.intern text).1 = name := hname.trans (congrArg Name.mk hsame.symm)
      exact knows_intern table text

/-! ### One request -/

theorem answer_of_mem (h : table.Lists texts) (hroom : texts.length ≤ Name.limit)
    (hmem : text ∈ texts) : table.answer (.intern text) = (.name ⟨texts.idxOf text⟩, table) := by
  have hindex : texts.idxOf text < Name.limit :=
    Nat.lt_of_lt_of_le (List.idxOf_lt_length_of_mem hmem) hroom
  simp [Interner.answer, intern?, h.intern_of_mem hmem, hindex]

theorem answer_of_new (h : table.Lists texts) (hroom : texts.length < Name.limit)
    (hnew : text ∉ texts) :
    table.answer (.intern text) = (.name ⟨texts.length⟩, (table.intern text).2) := by
  obtain ⟨hname, -⟩ := h.intern_of_new hnew
  simp [Interner.answer, intern?, hname, hroom]

variable {requests : List Request} {request : Request}

theorem answer_unchanged (h : table.Lists texts) (hroom : texts.length ≤ Name.limit)
    (hold : ∀ text, request = .intern text → text ∈ texts) : (table.answer request).2 = table := by
  cases request with
  | intern text => rw [h.answer_of_mem hroom (hold text rfl)]
  | lookup name => rfl
  | size => rfl

/-- As long as there are numbers, the table lists the texts of one more request too. -/
theorem answer (h : table.Lists (known requests))
    (hroom : (known (requests ++ [request])).length ≤ Name.limit) :
    (table.answer request).2.Lists (known (requests ++ [request])) := by
  by_cases hold : ∀ text, request = .intern text → text ∈ known requests
  · rw [known_concat_of_known hold] at hroom ⊢
    rwa [h.answer_unchanged hroom hold]
  · obtain ⟨text, htext⟩ := not_forall.mp hold
    obtain ⟨rfl, hnew⟩ := Classical.not_imp.mp htext
    rw [known_concat_of_new hnew] at hroom ⊢
    rw [List.length_append] at hroom
    rw [h.answer_of_new hroom hnew]
    exact (h.intern_of_new hnew).2

theorem answer_intern (h : table.Lists (known requests))
    (hroom : (known (requests ++ [.intern text])).length ≤ Name.limit) :
    (table.answer (.intern text)).1 =
      .name ⟨(known (requests ++ [.intern text])).idxOf text⟩ := by
  by_cases hmem : text ∈ known requests
  · rw [known_concat_of_known (by rintro _ ⟨⟩; exact hmem)] at hroom ⊢
    rw [h.answer_of_mem hroom hmem]
  · rw [known_concat_of_new hmem] at hroom ⊢
    rw [List.length_append] at hroom
    rw [h.answer_of_new hroom hmem, List.idxOf_append_of_notMem hmem, List.idxOf_cons_self]
    rfl

end Lists

/-! ## All requests -/

theorem serve_cons (table : Interner) (request : Request) (requests : List Request) :
    table.serve (request :: requests) =
      ((table.answer request).1 :: ((table.answer request).2.serve requests).1,
        ((table.answer request).2.serve requests).2) := rfl

theorem serve_append (table : Interner) (first second : List Request) :
    table.serve (first ++ second) =
      ((table.serve first).1 ++ ((table.serve first).2.serve second).1,
        ((table.serve first).2.serve second).2) := by
  induction first generalizing table with
  | nil => rfl
  | cons request requests ih =>
    rw [List.cons_append, serve_cons, ih, serve_cons, List.cons_append]

theorem length_serve (table : Interner) (requests : List Request) :
    (table.serve requests).1.length = requests.length := by
  induction requests generalizing table with
  | nil => rfl
  | cons request requests ih => exact congrArg (· + 1) (ih _)

/-- What a new table answers to requests. -/
def answersTo (requests : List Request) : List Answer := (empty.serve requests).1

/-- What becomes of a new table by requests. -/
def tableAfter (requests : List Request) : Interner := (empty.serve requests).2

section Requests

variable {requests : List Request} {request : Request} {text other : String} {name : Name}
  {i j : Nat}

theorem tableAfter_concat (requests : List Request) (request : Request) :
    tableAfter (requests ++ [request]) = ((tableAfter requests).answer request).2 := by
  unfold tableAfter
  rw [serve_append]
  rfl

/-- A request is answered by the table that the requests before it leave. -/
theorem getElem?_answersTo (h : requests[i]? = some request) :
    (answersTo requests)[i]? = some ((tableAfter (requests.take i)).answer request).1 := by
  obtain ⟨hi, rfl⟩ := List.getElem?_eq_some_iff.mp h
  have hlength : (empty.serve (requests.take i)).1.length = i := by
    rw [length_serve, List.length_take_of_le (Nat.le_of_lt hi)]
  have hsplit : requests = requests.take i ++ requests[i] :: requests.drop (i + 1) := by
    rw [← List.drop_eq_getElem_cons hi, List.take_append_drop]
  have hanswers : answersTo requests = (empty.serve (requests.take i)).1 ++
      ((tableAfter (requests.take i)).serve (requests[i] :: requests.drop (i + 1))).1 := by
    conv_lhs => rw [answersTo, hsplit, serve_append]
    rfl
  rw [hanswers, List.getElem?_append_right (Nat.le_of_eq hlength), hlength, Nat.sub_self]
  rfl

/-- As long as there are numbers, a table lists the texts of its requests. -/
theorem lists_tableAfter (requests : List Request) (hroom : (known requests).length ≤ Name.limit) :
    (tableAfter requests).Lists (known requests) := by
  -- By the last request, because `known` tells what one more request adds at the end.
  induction requests using List.reverseRecOn with
  | nil => exact lists_empty
  | append_singleton requests request ih =>
    have hgrows : known requests <+: known (requests ++ [request]) :=
      known_append requests [request] ▸ List.prefix_append _ _
    rw [tableAfter_concat]
    exact (ih (Nat.le_trans hgrows.length_le hroom)).answer hroom

theorem lists_take (hroom : (known requests).length ≤ Name.limit) (i : Nat) :
    (tableAfter (requests.take i)).Lists (known (requests.take i)) :=
  lists_tableAfter _ (Nat.le_trans (known_take requests i).length_le hroom)

theorem tableAfter_take_succ (h : requests[i]? = some request) :
    tableAfter (requests.take (i + 1)) = ((tableAfter (requests.take i)).answer request).2 := by
  rw [List.take_add_one, h]
  exact tableAfter_concat _ _

theorem mem_known_take (h : requests[i]? = some (.intern text)) (hlater : i < j) :
    text ∈ known (requests.take j) :=
  mem_known.mpr (.inr (List.mem_of_getElem? ((List.getElem?_take_of_lt hlater).trans h)))

/-- The name of a text is its place among all texts, whichever request asks for it. -/
theorem name_of_intern (hroom : (known requests).length ≤ Name.limit)
    (h : requests[i]? = some (.intern text)) :
    (answersTo requests)[i]? = some (.name ⟨(known requests).idxOf text⟩) := by
  -- The place is settled by the requests so far, and those that follow only list texts behind.
  have htake : requests.take (i + 1) = requests.take i ++ [.intern text] := by
    rw [List.take_add_one, h]
    rfl
  have hplace : (known (requests.take (i + 1))).idxOf text = (known requests).idxOf text :=
    (known_take requests (i + 1)).idxOf_eq_of_mem (mem_known_take h (Nat.lt_succ_self i))
  have hroom' := Nat.le_trans (known_take requests (i + 1)).length_le hroom
  rw [htake] at hplace hroom'
  rw [getElem?_answersTo h, (lists_take hroom i).answer_intern hroom', hplace]

/-- Whether the request at a place asks for the name of a text and is answered by this name. -/
def NamedAt (requests : List Request) (i : Nat) (text : String) (name : Name) : Prop :=
  requests[i]? = some (.intern text) ∧ (answersTo requests)[i]? = some (.name name)

namespace NamedAt

theorem eq_place (h : NamedAt requests i text name)
    (hroom : (known requests).length ≤ Name.limit) : name = ⟨(known requests).idxOf text⟩ :=
  Answer.name.inj (Option.some.inj (h.2.symm.trans (name_of_intern hroom h.1)))

/-- A name gives its text back as soon as it is there, and from then on. -/
theorem lookup (h : NamedAt requests i text name) (hroom : (known requests).length ≤ Name.limit)
    (hlater : i < j) : (tableAfter (requests.take j)).lookup name = text := by
  have hmem := mem_known_take h.1 hlater
  rw [h.eq_place hroom, ← (known_take requests j).idxOf_eq_of_mem hmem]
  exact (lists_take hroom j).lookup hmem

theorem name_eq_iff {otherName : Name} (h : NamedAt requests i text name)
    (hother : NamedAt requests j other otherName)
    (hroom : (known requests).length ≤ Name.limit) : name = otherName ↔ text = other := by
  have hmem : text ∈ known requests := mem_known.mpr (.inr (List.mem_of_getElem? h.1))
  rw [h.eq_place hroom, hother.eq_place hroom, Name.mk.injEq, List.idxOf_inj hmem]

end NamedAt

theorem idxOf_empty (requests : List Request) : (known requests).idxOf "" = 0 := by
  rw [known, asked, List.eraseDups_cons, List.idxOf_cons_self]

theorem lt_length_known_iff (hroom : (known requests).length ≤ Name.limit) (n : Nat) :
    n < (known requests).length ↔ n = 0 ∨ ∃ i text, NamedAt requests i text ⟨n⟩ := by
  constructor
  · intro hn
    have htext : (known requests)[n]? = some (known requests)[n] := List.getElem?_eq_getElem hn
    have hplace := (lists_tableAfter requests hroom).idxOf_eq htext
    rcases mem_known.mp (List.mem_of_getElem? htext) with hempty | hasked
    · rw [hempty, idxOf_empty] at hplace
      exact .inl hplace.symm
    · obtain ⟨i, hi⟩ := List.getElem?_of_mem hasked
      exact .inr ⟨i, _, hi, hplace ▸ name_of_intern hroom hi⟩
  · rintro (rfl | ⟨i, text, h⟩)
    · exact List.length_pos_of_mem (mem_known.mpr (.inl rfl))
    · have hplace : n = (known requests).idxOf text := congrArg Name.index (h.eq_place hroom)
      rw [hplace]
      exact List.idxOf_lt_length_of_mem (mem_known.mpr (.inr (List.mem_of_getElem? h.1)))

/-- Whatever a new table is asked, as long as there are numbers for all texts: each request for the
name of a text is granted, and the name is the place of the text in the order of first appearance
behind the empty text. So the numbers of names are all those below the number of texts, two names are
equal exactly when their texts are, and from the request on which it was given the name gives its
text back, in the table and in answers. The table changes only by texts that it does not know. -/
theorem names_stand_for_texts (requests : List Request)
    (hroom : (known requests).length ≤ Name.limit) :
    (∀ i text, requests[i]? = some (.intern text) →
      NamedAt requests i text ⟨(known requests).idxOf text⟩) ∧
    (known requests).idxOf "" = 0 ∧
    (∀ n, n < (known requests).length ↔ n = 0 ∨ ∃ i text, NamedAt requests i text ⟨n⟩) ∧
    (∀ i text name, NamedAt requests i text name →
      (∀ j other otherName, NamedAt requests j other otherName →
        (name = otherName ↔ text = other)) ∧
      (∀ j, i < j → (tableAfter (requests.take j)).lookup name = text) ∧
      ∀ j, i < j → requests[j]? = some (.lookup name) →
        (answersTo requests)[j]? = some (.text text)) ∧
    (∀ i request, requests[i]? = some request →
      (∀ text, request = .intern text → text ∈ known (requests.take i)) →
        tableAfter (requests.take (i + 1)) = tableAfter (requests.take i)) ∧
    (tableAfter requests).Lists (known requests) := by
  refine ⟨fun i text h => ⟨h, name_of_intern hroom h⟩, idxOf_empty requests,
    lt_length_known_iff hroom, fun i text name h => ⟨fun j other otherName hother =>
      h.name_eq_iff hother hroom, fun j hlater => h.lookup hroom hlater,
      fun j hlater hrequest => ?_⟩, fun i request hrequest hold => ?_,
    lists_tableAfter requests hroom⟩
  · rw [getElem?_answersTo hrequest, ← h.lookup hroom hlater]
    rfl
  · rw [tableAfter_take_succ hrequest]
    have hroom' := Nat.le_trans (known_take requests i).length_le hroom
    exact (lists_take hroom i).answer_unchanged hroom' hold

/-! ### Two texts -/

/-- Requests for two texts, one of them asked for twice, and for the empty one. -/
def mixed : List Request :=
  [.intern "b", .lookup ⟨1⟩, .intern "", .intern "a", .intern "b", .lookup ⟨2⟩]

theorem mixed_named :
    (known mixed).length ≤ Name.limit ∧
      NamedAt mixed 2 "" ⟨0⟩ ∧ NamedAt mixed 3 "a" ⟨2⟩ ∧ NamedAt mixed 4 "b" ⟨1⟩ ∧
      (answersTo mixed)[1]? = some (.text "b") ∧ (answersTo mixed)[5]? = some (.text "a") ∧
      tableAfter (mixed.take 5) = tableAfter (mixed.take 4) := by
  have hknown : known mixed = ["", "b", "a"] := by decide +kernel
  have hroom : (known mixed).length ≤ Name.limit := by
    rw [hknown]
    decide
  obtain ⟨hnamed, -, -, hnames, hsame, -⟩ := names_stand_for_texts mixed hroom
  rw [hknown] at hnamed
  have hfirst : NamedAt mixed 0 "b" ⟨1⟩ := hnamed 0 "b" rfl
  have ha : NamedAt mixed 3 "a" ⟨2⟩ := hnamed 3 "a" rfl
  exact ⟨hroom, hnamed 2 "" rfl, ha, hnamed 4 "b" rfl,
    (hnames 0 "b" ⟨1⟩ hfirst).2.2 1 (by decide) rfl,
    (hnames 3 "a" ⟨2⟩ ha).2.2 5 (by decide) rfl,
    hsame 4 (.intern "b") rfl (by rintro _ ⟨⟩; decide +kernel)⟩

end Requests
end ExprScript.Interner
