import ExprScript.Proofs.Evaluation.Counting

/-!
# Selecting elements

Between the brackets stand single indexes and ranges. A single index takes the element that it
points at, or the nearest one with a warning where it points outside. A range takes what lies
between its ends, both of which are moved inside. Only a single index into nothing is a fault.
-/
namespace ExprScript

/-! ## Elements -/

namespace Stretch

variable {α : Type}

theorem read_eq (items : List α) (stretch : Stretch items.length) :
    stretch.read items = (items.drop stretch.first).take (stretch.last - stretch.first) := by
  have hinside := stretch.inside
  refine List.ext_getElem ?_ fun j hj _ => ?_
  · simp only [read, List.length_ofFn, List.length_take, List.length_drop]
    omega
  · simp [read]

theorem getElem?_read_between (items : List α) (lo hi : Fin (items.length + 1)) (j : Nat) :
    ((between lo hi).read items)[j]? = if lo + j < hi then items[lo.val + j]? else none := by
  have hbehind : j < max lo.val hi - lo ↔ lo + j < hi.val := by omega
  simp only [read_eq, between, List.getElem?_take, List.getElem?_drop, hbehind]

/-- What lies before a place and what lies behind it make up the whole. -/
theorem read_append_read (items : List α) {k : Nat} (hk : k ≤ items.length) :
    (between 0 ⟨k, Nat.lt_succ_of_le hk⟩).read items ++
      (between ⟨k, Nat.lt_succ_of_le hk⟩ (Fin.last items.length)).read items = items := by
  have hrest : (items.drop k).length = max k items.length - k := by
    rw [List.length_drop, Nat.max_eq_right hk]
  simp only [read_eq, between, Fin.val_zero, Fin.val_last, List.drop_zero, Nat.sub_zero,
    Nat.zero_max]
  rw [← hrest, List.take_length, List.take_append_drop]

end Stretch

namespace Sequence

/-- The elements one by one; one character is a text of its own. -/
def elements : Sequence → List Value
  | .list items => items
  | .text chars => chars.map fun c => .str (String.singleton c)

def isText : Sequence → Bool
  | .list _ => false
  | .text _ => true

/-- Whether a value is made of the elements from one place up to, but not including, another: a list
of elements of a list, a text of characters of a text. -/
def Part (s : Sequence) (lo hi : Nat) (v : Value) : Prop :=
  ∃ part : Sequence, ofValue? v = some part ∧ part.isText = s.isText ∧
    ∀ j, part.elements[j]? = if lo + j < hi then s.elements[lo + j]? else none

variable {s : Sequence} {v : Value} {lo hi : Nat}

def toValue : Sequence → Value
  | .list items => .list items
  | .text chars => .str (String.ofList chars)

theorem eq_toValue (h : ofValue? v = some s) : v = s.toValue := by
  cases v <;> cases h
  · exact congrArg Value.str String.ofList_toList.symm
  · rfl

@[simp] theorem length_elements (s : Sequence) : s.elements.length = s.size := by
  cases s <;> simp [elements, size]

theorem item_eq (s : Sequence) (i : Fin s.size) : s.elements[i.val]? = some (s.item i) := by
  cases s with
  | list items => exact List.getElem?_eq_getElem i.isLt
  | text chars =>
    rw [elements, List.getElem?_map, List.getElem?_eq_getElem i.isLt]
    rfl

theorem eq_of_elements {t : Sequence} (hkind : s.isText = t.isText)
    (h : s.elements = t.elements) : s = t := by
  cases s with
  | list items =>
    cases t with
    | list items' => exact congrArg list h
    | text chars => cases hkind
  | text chars =>
    cases t with
    | list items => cases hkind
    | text chars' =>
      have hchar : Function.Injective fun c => Value.str (String.singleton c) := fun c c' hc =>
        String.singleton_inj.mp (Value.str.inj hc)
      exact congrArg text (List.map_injective_iff.mpr hchar h)

/-- Where the later place does not lie behind the earlier one, the slice is empty. -/
theorem part_slice (s : Sequence) (lo hi : Fin (s.size + 1)) :
    s.Part lo hi (s.slice (.between lo hi)) := by
  cases s with
  | list items => exact ⟨_, rfl, rfl, Stretch.getElem?_read_between items lo hi⟩
  | text chars =>
    refine ⟨_, rfl, rfl, fun j => ?_⟩
    simp only [elements, String.toList_ofList, List.getElem?_map]
    have hread := Stretch.getElem?_read_between chars lo hi j
    refine (congrArg (Option.map _) hread).trans ?_
    split <;> rfl

theorem Part.unique {v' : Value} (h : s.Part lo hi v) (h' : s.Part lo hi v') : v = v' := by
  obtain ⟨part, hpart, hkind, helements⟩ := h
  obtain ⟨part', hpart', hkind', helements'⟩ := h'
  obtain rfl : part = part' := eq_of_elements (hkind.trans hkind'.symm)
    (List.ext_getElem? fun j => (helements j).trans (helements' j).symm)
  exact (eq_toValue hpart).trans (eq_toValue hpart').symm

end Sequence

namespace Select

/-- The place that a number means as an end of a range among `n` elements: a negative one counts
from the end, and no place lies outside. -/
def rangeEnd (n : Nat) (i : Int) : Nat :=
  (max 0 (min (if i < 0 then n + i else i) n)).toNat

@[simp] theorem val_clampBound (i : Int) (n : Nat) : (clampBound i n).val = rangeEnd n i := by
  simp only [clampBound, fromEnd, rangeEnd]
  split <;> omega

theorem rangeEnd_le (n : Nat) (i : Int) : rangeEnd n i ≤ n := by
  rw [← val_clampBound]
  exact Nat.le_of_lt_succ (clampBound i n).isLt

@[simp] theorem rangeEnd_zero (n : Nat) : rangeEnd n 0 = 0 := by simp [rangeEnd]

@[simp] theorem rangeEnd_self (n : Nat) : rangeEnd n n = n := by
  unfold rangeEnd
  split <;> omega

end Select

/-- The front of a sequence and the rest of it, put together as values. -/
theorem Sequence.append_parts {s : Sequence} {k : Nat} (hk : k ≤ s.size) {front back : Value}
    (hfront : s.Part 0 k front) (hback : s.Part k s.size back) (span span' : Span) :
    Operate.arithmetic .add span ⟨back, span'⟩ front #[] = .ok s.toValue #[] := by
  obtain rfl := hfront.unique (s.part_slice 0 ⟨k, Nat.lt_succ_of_le hk⟩)
  obtain rfl := hback.unique (s.part_slice ⟨k, Nat.lt_succ_of_le hk⟩ (Fin.last s.size))
  cases s with
  | list items =>
    have hwhole : (Stretch.between 0 ⟨k, Nat.lt_succ_of_le hk⟩).read items ++
        (Stretch.between ⟨k, Nat.lt_succ_of_le hk⟩ (Fin.last _)).read items = items :=
      Stretch.read_append_read items hk
    exact congrArg (fun items => EStateM.Result.ok (Value.list items) #[]) hwhole
  | text chars =>
    have hjoined := congrArg String.ofList (Stretch.read_append_read chars hk)
    rw [String.ofList_append] at hjoined
    exact congrArg (fun text => EStateM.Result.ok (Value.str text) #[]) hjoined

/-- The machine with a warning of an index outside of `n` elements, which is moved to a place. -/
def Machine.warnOutside (m : Machine) (span : Span) (i : Int) (n place : Nat) : Machine :=
  m.note m.context.script.source
    ⟨.listIndexOutOfRange, span, [toString i, toString n, toString place], [], none⟩

namespace Eval

/-! ## Bounds -/

/-- The bounds of a selection are ints, found one after the other. -/
def IntBounds (run : Task → Eval Value) : IndexSpec → Machine → Prop
  | .single index, m => ∃ i n, run (.node index) m = .ok (.int i) n
  | .range first last, m =>
    ∃ lo k hi n, run (.node first) m = .ok (.int lo) k ∧ run (.node last) k = .ok (.int hi) n

/-- A selection whose bounds are ints takes a value from a sequence. Afterwards the machine is the
one behind the bounds, but for a warning of an index outside. -/
inductive Takes (run : Task → Eval Value) (s : Sequence) :
    IndexSpec → Machine → Value → Machine → Prop
  | inside {index : NodeId} {m n : Machine} {i : Int64} {place : Nat} {v : Value}
      (hindex : run (.node index) m = .ok (.int i) n)
      (hplace : (place : Int) = if i.toInt < 0 then s.size + i.toInt else i.toInt)
      (hv : s.elements[place]? = some v) : Takes run s (.single index) m v n
  | beyond {index : NodeId} {m n : Machine} {i : Int64} {span : Span} {v : Value}
      (hindex : run (.node index) m = .ok (.int i) n) (hspan : spanOf index m = .ok span m)
      (hbeyond : s.size ≤ i.toInt) (hv : s.elements.getLast? = some v) :
      Takes run s (.single index) m v (n.warnOutside span i.toInt s.size (s.size - 1))
  | before {index : NodeId} {m n : Machine} {i : Int64} {span : Span} {v : Value}
      (hindex : run (.node index) m = .ok (.int i) n) (hspan : spanOf index m = .ok span m)
      (hbefore : i.toInt < -s.size) (hv : s.elements.head? = some v) :
      Takes run s (.single index) m v (n.warnOutside span i.toInt s.size 0)
  | range {first last : NodeId} {m k n : Machine} {lo hi : Int64} {v : Value}
      (hfirst : run (.node first) m = .ok (.int lo) k)
      (hlast : run (.node last) k = .ok (.int hi) n)
      (hv : s.Part (Select.rangeEnd s.size lo.toInt) (Select.rangeEnd s.size hi.toInt) v) :
      Takes run s (.range first last) m v n

/-- Selections that take their values one after another. -/
inductive TakesAll (run : Task → Eval Value) (s : Sequence) :
    List IndexSpec → Machine → List Value → Machine → Prop
  | nil (m : Machine) : TakesAll run s [] m [] m
  | cons {spec : IndexSpec} {specs : List IndexSpec} {m k n : Machine} {v : Value}
      {vs : List Value} (first : Takes run s spec m v k) (rest : TakesAll run s specs k vs n) :
      TakesAll run s (spec :: specs) m (v :: vs) n

section
variable {run : Task → Eval Value} {s : Sequence} {spec : IndexSpec} {m n n' : Machine}
  {v v' : Value}

theorem Takes.intBounds (h : Takes run s spec m v n) : IntBounds run spec m := by
  cases h with
  | inside hindex | beyond hindex | before hindex => exact ⟨_, _, hindex⟩
  | range hfirst hlast => exact ⟨_, _, _, _, hfirst, hlast⟩

/-- An index that points inside does not point outside. -/
theorem inside_range {i : Int} {place : Nat}
    (hplace : (place : Int) = if i < 0 then s.size + i else i) (hv : s.elements[place]? = some v) :
    -s.size ≤ i ∧ i < s.size := by
  obtain ⟨hlt, -⟩ := List.getElem?_eq_some_iff.mp hv
  rw [Sequence.length_elements] at hlt
  split at hplace <;> omega

theorem Takes.unique (h : Takes run s spec m v n) (h' : Takes run s spec m v' n') :
    v = v' ∧ n = n' := by
  cases h with
  | inside hindex hplace hv =>
    have hrange := inside_range hplace hv
    cases h' with
    | inside hindex' hplace' hv' =>
      cases hindex.symm.trans hindex'
      obtain rfl := Int.ofNat.inj (hplace.trans hplace'.symm)
      exact ⟨Option.some.inj (hv.symm.trans hv'), rfl⟩
    | beyond hindex' | before hindex' =>
      cases hindex.symm.trans hindex'
      omega
  | beyond hindex hspan hbeyond hv =>
    cases h' with
    | inside hindex' hplace' hv' =>
      cases hindex.symm.trans hindex'
      have hrange := inside_range hplace' hv'
      omega
    | beyond hindex' hspan' hbeyond' hv' =>
      cases hindex.symm.trans hindex'
      cases hspan.symm.trans hspan'
      exact ⟨Option.some.inj (hv.symm.trans hv'), rfl⟩
    | before hindex' =>
      cases hindex.symm.trans hindex'
      omega
  | before hindex hspan hbefore hv =>
    cases h' with
    | inside hindex' hplace' hv' =>
      cases hindex.symm.trans hindex'
      have hrange := inside_range hplace' hv'
      omega
    | beyond hindex' =>
      cases hindex.symm.trans hindex'
      omega
    | before hindex' hspan' hbefore' hv' =>
      cases hindex.symm.trans hindex'
      cases hspan.symm.trans hspan'
      exact ⟨Option.some.inj (hv.symm.trans hv'), rfl⟩
  | range hfirst hlast hv =>
    cases h' with
    | range hfirst' hlast' hv' =>
      cases hfirst.symm.trans hfirst'
      cases hlast.symm.trans hlast'
      exact ⟨hv.unique hv', rfl⟩

end

/-! ## One selection -/

section
variable {s : Sequence} {i : Int64} {span : Span} {m n k : Machine} {level : Nat}
  {spec : IndexSpec} {v : Value}

theorem checked_bound (size : Nat) :
    checked (Select.bound size (.int i) span) m = .ok (Select.clampBound i.toInt size) m :=
  rfl

theorem checked_position {size : Nat} (hsize : 0 < size) :
    checked (Select.position size (.int i) span) m =
      .ok (Select.clampIndex i.toInt size hsize)
        (if ((Select.clampIndex i.toInt size hsize).val : Int) ≠ Select.fromEnd i.toInt size then
          m.warnOutside span i.toInt size (Select.clampIndex i.toInt size hsize).val
        else m) := by
  have hposition : Select.position size (.int i) span = do
      if ((Select.clampIndex i.toInt size hsize).val : Int) ≠ Select.fromEnd i.toInt size then
        Checked.warn .listIndexOutOfRange span [toString i.toInt, toString size,
          toString (Select.clampIndex i.toInt size hsize).val]
      return Select.clampIndex i.toInt size hsize :=
    dif_pos hsize
  rw [hposition]
  split <;> rfl

theorem checked_position_of_empty {size : Nat} (hsize : size = 0) :
    checked (Select.position size (.int i) span) m =
      .error (.fatal (Fault.illegalValue span "Cannot index into an empty sequence")) m := by
  subst hsize
  rfl

theorem script_of_eval {id : NodeId} (h : eval level (.node id) m = .ok v n) :
    n.context.script = m.context.script := by
  have hafter : after (eval level (.node id)) m = n := by
    unfold after
    rw [h]
  exact hafter ▸ (Simulation.inside_after (Simulation.inside_eval level m.context.script ()
    (.node id) trivial) ⟨rfl, rfl⟩).script

theorem spanOf_congr {id : NodeId} (hscript : n.context.script = m.context.script)
    (h : spanOf id n = .ok span n) : spanOf id m = .ok span m := by
  unfold spanOf at h ⊢
  rw [bind_apply] at h ⊢
  unfold Eval.node at h ⊢
  rw [hscript] at h
  cases hnode : m.context.script.arena.node? id with
  | none =>
    rw [hnode] at h
    cases h
  | some node =>
    rw [hnode] at h
    cases h
    rfl

/-- The place of an index is the one meant, or the end of the sequence that is nearest. -/
theorem takes_item {index : NodeId} (hindex : eval level (.node index) m = .ok (.int i) n)
    (hspan : spanOf index m = .ok span m) (hsize : 0 < s.size) :
    Takes (eval level) s (.single index) m (s.item (Select.clampIndex i.toInt s.size hsize))
      (if ((Select.clampIndex i.toInt s.size hsize).val : Int) ≠ Select.fromEnd i.toInt s.size then
        n.warnOutside span i.toInt s.size (Select.clampIndex i.toInt s.size hsize).val
      else n) := by
  have hitem := s.item_eq (Select.clampIndex i.toInt s.size hsize)
  have hplace : (Select.clampIndex i.toInt s.size hsize).val =
      min (Select.fromEnd i.toInt s.size).toNat (s.size - 1) := rfl
  have hmeant : Select.fromEnd i.toInt s.size =
      if i.toInt < 0 then s.size + i.toInt else i.toInt := by
    unfold Select.fromEnd
    split <;> omega
  generalize Select.clampIndex i.toInt s.size hsize = place at hitem hplace ⊢
  split
  · rename_i houtside
    by_cases hneg : i.toInt < 0
    · rw [if_pos hneg] at hmeant
      have hzero : place.val = 0 := by omega
      rw [hzero] at hitem ⊢
      refine .before hindex hspan (by omega) ?_
      rwa [List.head?_eq_getElem?]
    · rw [if_neg hneg] at hmeant
      have hlast : place.val = s.size - 1 := by omega
      rw [hlast] at hitem ⊢
      refine .beyond hindex hspan (by omega) ?_
      rwa [List.getLast?_eq_getElem?, s.length_elements]
  · rename_i hinside
    exact .inside hindex ((not_not.mp hinside).trans hmeant) hitem

theorem selectOne_takes (hbounds : IntBounds (eval level) spec m)
    (hsome : 0 < s.size ∨ ∀ index, spec ≠ .single index) :
    ∃ v n, Takes (eval level) s spec m v n ∧
      selectOne (fun id => eval level (.node id)) s spec m = .ok v n := by
  cases spec with
  | single index =>
    obtain ⟨i, n, hindex⟩ := hbounds
    obtain ⟨span, hspan⟩ := CountingLoop.spanOf_of_eval hindex
    have hsize : 0 < s.size := hsome.resolve_right fun h => h index rfl
    refine ⟨_, _, takes_item hindex hspan hsize, ?_⟩
    unfold selectOne
    dsimp only
    rw [bind_of_ok hspan, bind_of_ok hindex, bind_of_ok (checked_position hsize)]
    rfl
  | range first last =>
    obtain ⟨lo, k, hi, n, hfirst, hlast⟩ := hbounds
    obtain ⟨firstSpan, hfirstSpan⟩ := CountingLoop.spanOf_of_eval hfirst
    obtain ⟨lastSpan, hlastSpan⟩ := CountingLoop.spanOf_of_eval hlast
    have hlastSpan : spanOf last m = .ok lastSpan m :=
      spanOf_congr (script_of_eval hfirst) hlastSpan
    have hpart :=
      s.part_slice (Select.clampBound lo.toInt s.size) (Select.clampBound hi.toInt s.size)
    rw [Select.val_clampBound, Select.val_clampBound] at hpart
    refine ⟨_, n, .range hfirst hlast hpart, ?_⟩
    unfold selectOne
    dsimp only
    rw [bind_of_ok hfirstSpan, bind_of_ok hlastSpan, bind_of_ok hfirst, bind_of_ok hlast,
      bind_of_ok (checked_bound s.size), bind_of_ok (checked_bound s.size)]
    rfl

theorem selectOne_of_empty (hempty : s.size = 0) {index : NodeId}
    (hbounds : IntBounds (eval level) (.single index) m) :
    ∃ span n, selectOne (fun id => eval level (.node id)) s (.single index) m =
      .error (.fatal (Fault.illegalValue span "Cannot index into an empty sequence")) n := by
  obtain ⟨i, n, hindex⟩ := hbounds
  obtain ⟨span, hspan⟩ := CountingLoop.spanOf_of_eval hindex
  refine ⟨span, n, ?_⟩
  unfold selectOne
  dsimp only
  rw [bind_of_ok hspan, bind_of_ok hindex, bind_apply, checked_position_of_empty hempty]

end

/-! ## All selections -/

section
variable {s : Sequence} {m n k start : Machine} {level : Nat} {specs : List IndexSpec}
  {values : List Value}

def AllIntBounds (run : Task → Eval Value) (s : Sequence) (specs : List IndexSpec)
    (start : Machine) : Prop :=
  ∀ taken spec rest values m, specs = taken ++ spec :: rest →
    TakesAll run s taken start values m → IntBounds run spec m

theorem AllIntBounds.first {run : Task → Eval Value} {spec : IndexSpec}
    (h : AllIntBounds run s (spec :: specs) m) : IntBounds run spec m :=
  h [] spec specs [] m rfl (.nil m)

theorem AllIntBounds.rest {run : Task → Eval Value} {spec : IndexSpec} {v : Value}
    (h : AllIntBounds run s (spec :: specs) m) (htakes : Takes run s spec m v k) :
    AllIntBounds run s specs k := by
  intro taken other rest values n hspecs hall
  exact h (spec :: taken) other rest (v :: values) n (congrArg (spec :: ·) hspecs)
    (.cons htakes hall)

theorem TakesAll.unique {run : Task → Eval Value} {values' : List Value} {n' : Machine}
    (h : TakesAll run s specs m values n) (h' : TakesAll run s specs m values' n') :
    values = values' ∧ n = n' := by
  induction h generalizing values' n' with
  | nil m =>
    cases h'
    exact ⟨rfl, rfl⟩
  | cons first rest ih =>
    cases h' with
    | cons first' rest' =>
      obtain ⟨rfl, rfl⟩ := first.unique first'
      obtain ⟨rfl, rfl⟩ := ih rest'
      exact ⟨rfl, rfl⟩

theorem TakesAll.allIntBounds {run : Task → Eval Value} (h : TakesAll run s specs m values n) :
    AllIntBounds run s specs m := by
  intro taken spec rest before k hspecs htaken
  induction htaken generalizing specs values with
  | nil m =>
    subst hspecs
    cases h with
    | cons first _ => exact first.intBounds
  | cons first _ ih =>
    subst hspecs
    cases h with
    | cons first' others =>
      obtain ⟨rfl, rfl⟩ := first.unique first'
      exact ih others rfl

/-- From something, and ranges from nothing, all selections take a value. -/
theorem mapM_takesAll (hbounds : AllIntBounds (eval level) s specs m)
    (hsome : 0 < s.size ∨ ∀ index, IndexSpec.single index ∉ specs) :
    ∃ values n, TakesAll (eval level) s specs m values n ∧
      specs.mapM (selectOne (fun id => eval level (.node id)) s) m = .ok values n := by
  induction specs generalizing m with
  | nil => exact ⟨[], m, .nil m, rfl⟩
  | cons spec specs ih =>
    obtain ⟨v, k, htakes, hselect⟩ := selectOne_takes (s := s) hbounds.first
      (hsome.imp_right fun h index heq => h index (heq ▸ List.mem_cons_self))
    obtain ⟨values, n, hall, hrest⟩ := ih (hbounds.rest htakes)
      (hsome.imp_right fun h index hmem => h index (List.mem_cons_of_mem _ hmem))
    refine ⟨v :: values, n, .cons htakes hall, ?_⟩
    rw [List.mapM_cons, bind_of_ok hselect, bind_of_ok hrest]
    rfl

theorem mapM_of_empty (hempty : s.size = 0) (hbounds : AllIntBounds (eval level) s specs m)
    (hsingle : ∃ index, IndexSpec.single index ∈ specs) :
    ∃ span n, specs.mapM (selectOne (fun id => eval level (.node id)) s) m =
      .error (.fatal (Fault.illegalValue span "Cannot index into an empty sequence")) n := by
  induction specs generalizing m with
  | nil => simp at hsingle
  | cons spec specs ih =>
    rw [List.mapM_cons]
    cases spec with
    | single index =>
      obtain ⟨span, n, hselect⟩ := selectOne_of_empty hempty hbounds.first
      exact ⟨span, n, by rw [bind_apply, hselect]⟩
    | range first last =>
      obtain ⟨v, k, htakes, hselect⟩ := selectOne_takes (s := s) hbounds.first (.inr (by simp))
      obtain ⟨span, n, hrest⟩ := ih (hbounds.rest htakes) (by simpa using hsingle)
      exact ⟨span, n, by rw [bind_of_ok hselect, bind_apply, hrest]⟩

end

/-! ## Indexing -/

/-- What selections together give: the value of the only one, or the list of the values. -/
def gathered : List Value → Value
  | [only] => only
  | values => .list values

/-- A node indexes a list or a text, the bounds of whose selections are ints. -/
structure Indexing (level : Nat) (id : NodeId) (m : Machine) (value : Value) (s : Sequence)
    (specs : List IndexSpec) (start : Machine) : Prop where
  node : ∃ target run span, m.context.script.arena.node? id = some ⟨.index target run, span⟩ ∧
    run.entries? m.context.script.arena.specs = some specs ∧
    eval level (.node target) m = .ok value start
  sequence : Sequence.ofValue? value = some s
  nonempty : specs ≠ []
  bounds : AllIntBounds (eval level) s specs start

section
variable {level : Nat} {id : NodeId} {m : Machine} {value : Value} {s : Sequence}
  {specs : List IndexSpec} {start : Machine}

/-- Indexing is what its selections are, one after another. -/
theorem Indexing.eval (h : Indexing level id m value s specs start) :
    eval (level + 1) (.node id) m =
      match specs.mapM (selectOne (fun id => eval level (.node id)) s) start with
      | .ok values n => .ok (gathered values) n
      | .error e n => .error e n := by
  obtain ⟨target, run, span, hnode, hentries, htarget⟩ := h.node
  obtain ⟨targetSpan, hspan⟩ := CountingLoop.spanOf_of_eval htarget
  have hread : Eval.node id m = .ok ⟨.index target run, span⟩ m := by
    unfold Eval.node
    rw [hnode]
  have hselections : entries run Arena.specs start = .ok specs start :=
    entries_of_some (script_of_eval htarget ▸ hentries)
  rw [Simulation.eval_succ, runTask, bind_of_ok hread]
  unfold evalExpr evalIndex
  dsimp only
  rw [bind_of_ok hspan, bind_of_ok htarget, h.sequence]
  dsimp only
  rw [bind_of_ok hselections, bind_apply]
  cases specs.mapM (selectOne (fun id => Eval.eval level (.node id)) s) start with
  | error e n => rfl
  | ok values n => rcases values with _ | ⟨v, _ | ⟨w, values⟩⟩ <;> rfl

/-- With ints as bounds, indexing fails only where a single index is to take something from nothing,
and then it does fail. Otherwise its selections take their values one after another: a single
index the element at it, or at the one counted from the end if it is negative, or else the last or
the first element with a warning, and a range the elements between its ends. One of them gives its
value itself, several give the list of their values. What lies before any place and what lies from
there on make up the whole. -/
theorem index_takes (h : Indexing level id m value s specs start) :
    ((0 < s.size ∨ ∀ index, IndexSpec.single index ∉ specs) →
      ∃ values n, TakesAll (Eval.eval level) s specs start values n ∧
        eval (level + 1) (.node id) m = .ok (gathered values) n) ∧
    (s.size = 0 → (∃ index, IndexSpec.single index ∈ specs) →
      ∃ span n, eval (level + 1) (.node id) m =
        .error (.fatal (Fault.illegalValue span "Cannot index into an empty sequence")) n) ∧
    ∀ k front back, s.Part (Select.rangeEnd s.size 0) (Select.rangeEnd s.size k) front →
      s.Part (Select.rangeEnd s.size k) (Select.rangeEnd s.size s.size) back →
      ∀ span span', Operate.arithmetic .add span ⟨back, span'⟩ front #[] = .ok value #[] := by
  refine ⟨fun hsome => ?_, fun hempty hsingle => ?_, fun k front back hfront hback span span' => ?_⟩
  · obtain ⟨values, n, htakes, hmapM⟩ := mapM_takesAll h.bounds hsome
    exact ⟨values, n, htakes, by rw [h.eval, hmapM]⟩
  · obtain ⟨span, n, hmapM⟩ := mapM_of_empty hempty h.bounds hsingle
    exact ⟨span, n, by rw [h.eval, hmapM]⟩
  · rw [Select.rangeEnd_zero] at hfront
    rw [Select.rangeEnd_self] at hback
    rw [Sequence.eq_toValue h.sequence]
    exact Sequence.append_parts (Select.rangeEnd_le _ _) hfront hback span span'

end

/-! ### A list and a range of it -/

/-- A script that is `[10, 20][5, 0 to 1]`. -/
def indexedList : Script where
  source := ⟨"", ""⟩
  arena :=
    { nodes := #[⟨.int 10, {}⟩, ⟨.int 20, {}⟩, ⟨.list ⟨0, 2⟩, {}⟩, ⟨.int 5, {}⟩, ⟨.int 0, {}⟩,
        ⟨.int 1, {}⟩, ⟨.index ⟨2⟩ ⟨0, 2⟩, {}⟩]
      lists := #[⟨0⟩, ⟨1⟩]
      specs := #[.single ⟨3⟩, .range ⟨4⟩ ⟨5⟩] }
  root := ⟨6⟩

/-- The machine at the start of the script, with the warning of an index of 5 in a list of 2. -/
def warnedOfFive : Machine :=
  (CountingLoop.standing indexedList).warnOutside {} 5 2 1

theorem index_takes_last :
    Indexing 2 ⟨6⟩ (CountingLoop.standing indexedList) (.list [.int 10, .int 20])
        (.list [.int 10, .int 20]) [.single ⟨3⟩, .range ⟨4⟩ ⟨5⟩]
        (CountingLoop.standing indexedList) ∧
      eval 3 (.node ⟨6⟩) (CountingLoop.standing indexedList) =
        .ok (.list [.int 20, .list [.int 10]]) warnedOfFive := by
  have htakes : TakesAll (eval 2) (.list [.int 10, .int 20]) [.single ⟨3⟩, .range ⟨4⟩ ⟨5⟩]
      (CountingLoop.standing indexedList) [.int 20, .list [.int 10]] warnedOfFive :=
    .cons (.beyond rfl rfl (by decide) rfl)
      (.cons (.range rfl rfl (Sequence.part_slice _ 0 1)) (.nil _))
  have h : Indexing 2 ⟨6⟩ (CountingLoop.standing indexedList) (.list [.int 10, .int 20])
      (.list [.int 10, .int 20]) [.single ⟨3⟩, .range ⟨4⟩ ⟨5⟩]
      (CountingLoop.standing indexedList) :=
    ⟨⟨⟨2⟩, ⟨0, 2⟩, {}, rfl, rfl, rfl⟩, rfl, by simp, htakes.allIntBounds⟩
  obtain ⟨values, n, htakes', heval⟩ := (index_takes h).1 (.inl (by decide))
  obtain ⟨rfl, rfl⟩ := htakes.unique htakes'
  exact ⟨h, heval⟩

end Eval
end ExprScript
