import ExprScript.Proofs.Evaluation.Arguments
import Mathlib.Data.List.ReduceOption

/-!
# Which argument goes to which parameter

A named argument claims the first parameter of its name. The positional arguments go to the
parameters that nobody claims, from left to right: one to each that needs an argument, and what is
to spare to the leftmost optional ones. A call is refused exactly if a name is unknown or given
twice, or if the positional arguments are too many or too few, and for the first of these reasons.
-/
namespace ExprScript.Arguments

def claim? (formals : List Formal) (arg : Given) : Option Nat :=
  arg.name.bind fun name => formals.findIdx? (·.name = name)

def unclaimed (formals : List Formal) (given : List Given) : List (Formal × Nat) :=
  formals.zipIdx.filter fun p => ∀ arg ∈ given, claim? formals arg ≠ some p.2

def wanting (formals : List Formal) (given : List Given) : List (Formal × Nat) :=
  (unclaimed formals given).filter (!·.1.optional)

def positional (given : List Given) : List Given :=
  given.filter (·.name.isNone)

def named (given : List Given) : List Given :=
  given.filter (!·.name.isNone)

/-- Every name is that of a parameter, and no name is given twice. -/
structure NamedWell (formals : List Formal) (given : List Given) : Prop where
  known : ∀ arg ∈ given, ∀ name, arg.name = some name → ∃ formal ∈ formals, formal.name = name
  distinct : (given.filterMap (·.name)).Nodup

/-- The arguments that a list of parameters accepts. -/
structure Admissible (formals : List Formal) (given : List Given) : Prop
    extends NamedWell formals given where
  notTooMany : (positional given).length ≤ (unclaimed formals given).length
  notTooFew : (wanting formals given).length ≤ (positional given).length

/-- Every argument is with the parameter that it belongs to. -/
structure Bound (formals : List Formal) (given : List Given) (slots : List (Option Given)) :
    Prop where
  length : slots.length = formals.length
  /-- No argument is dropped or doubled. -/
  once : slots.reduceOption.Perm given
  byName : ∀ arg ∈ given, arg.name.isSome →
    ∃ i, claim? formals arg = some i ∧ slots[i]? = some (some arg)
  byPlace : ∀ i arg, slots[i]? = some (some arg) → arg.name = none ∨ claim? formals arg = some i
  inOrder : positional slots.reduceOption = positional given
  leftmost : ∀ p ∈ unclaimed formals given, ∀ q ∈ unclaimed formals given,
    p.1.optional = true → q.1.optional = true → p.2 < q.2 →
    slots[p.2]? = some none → slots[q.2]? = some none
  required : ∀ (i : Nat) (formal : Formal), formals[i]? = some formal → formal.optional = false →
    ∃ arg, slots[i]? = some (some arg)

/-- The reasons to refuse a call, the first faulty name before any wrong number. -/
inductive Refused (function : String) (formals : List Formal) (span : Span) :
    List Given → Diagnostic → Prop
  | unknown {before after : List Given} {arg : Given} {name : String}
      (hbefore : NamedWell formals before) (hname : arg.name = some name)
      (hunknown : ∀ formal ∈ formals, formal.name ≠ name) :
      Refused function formals span (before ++ arg :: after)
        (Fault.unknownAttribute arg.span s!"function '{function}'" name)
  | repeated {before after : List Given} {arg : Given} {name : String}
      (hbefore : NamedWell formals before) (hname : arg.name = some name)
      (hrepeated : name ∈ before.filterMap (·.name)) :
      Refused function formals span (before ++ arg :: after)
        (Fault.wrongArguments arg.span function s!"argument '{name}' given more than once")
  | tooMany {given : List Given} (hnamed : NamedWell formals given)
      (hmany : (unclaimed formals given).length < (positional given).length) :
      Refused function formals span given
        (Fault.wrongArguments span function
          s!"expected at most {formals.length} arguments, got {given.length}")
  | missing {given : List Given} {formal : Formal} {i : Nat} (hnamed : NamedWell formals given)
      (hmissing : (wanting formals given)[(positional given).length]? = some (formal, i)) :
      Refused function formals span given
        (Fault.wrongArguments span function s!"missing argument '{formal.name}'")

variable {function : String} {formals : List Formal} {given before after : List Given}
  {slots : List (Option Given)} {arg : Given} {span : Span} {d : Diagnostic}

/-- Every reason to refuse a call is a good one. -/
theorem Refused.not_admissible (h : Refused function formals span given d) :
    ¬Admissible formals given := by
  intro hadmissible
  cases h with
  | unknown _ hname hunknown =>
    obtain ⟨formal, hformal, heq⟩ := hadmissible.known _ (by simp) _ hname
    exact hunknown formal hformal heq
  | repeated _ hname hrepeated =>
    have hdistinct := hadmissible.distinct
    rw [List.filterMap_append, List.filterMap_cons_some hname, List.nodup_append] at hdistinct
    exact hdistinct.2.2 _ hrepeated _ (by simp) rfl
  | tooMany _ hmany => exact absurd hadmissible.notTooMany (by omega)
  | missing _ hmissing =>
    obtain ⟨hlt, -⟩ := List.getElem?_eq_some_iff.mp hmissing
    exact absurd hadmissible.notTooFew (by omega)

/-! ## Named arguments -/

theorem claim?_eq_none (h : arg.name = none) : claim? formals arg = none := by
  simp [claim?, h]

theorem name_of_claim? {i : Nat} (h : claim? formals arg = some i) :
    ∃ name, arg.name = some name ∧ ∃ formal, formals[i]? = some formal ∧ formal.name = name := by
  unfold claim? at h
  obtain ⟨name, hname, hfind⟩ := Option.bind_eq_some_iff.mp h
  obtain ⟨hi, heq, -⟩ := List.findIdx?_eq_some_iff_getElem.mp hfind
  exact ⟨name, hname, formals[i], List.getElem?_eq_getElem hi, by simpa using heq⟩

/-- Two arguments with the same claim have the same name. -/
theorem name_eq_of_claim? {other : Given} {i : Nat} (h : claim? formals arg = some i)
    (hother : claim? formals other = some i) : arg.name = other.name := by
  obtain ⟨name, hname, formal, hformal, rfl⟩ := name_of_claim? h
  obtain ⟨name, hname', formal', hformal', rfl⟩ := name_of_claim? hother
  rw [hformal, Option.some.injEq] at hformal'
  rw [hname, hname', hformal']

/-- The arguments that have been read are placed if they are named, and nothing else is. -/
structure Placed (formals : List Formal) (before : List Given) (slots : List (Option Given)) :
    Prop where
  length : slots.length = formals.length
  sits : ∀ arg ∈ before, ∀ i, claim? formals arg = some i → slots[i]? = some (some arg)
  only : ∀ i arg, slots[i]? = some (some arg) → arg ∈ before ∧ claim? formals arg = some i
  once : slots.reduceOption.Perm (named before)

namespace Placed

theorem nil : Placed formals [] (formals.map fun _ => none) where
  length := List.length_map _
  sits arg harg := nomatch harg
  only i arg h := by
    obtain ⟨formal, -, hnone⟩ := List.mem_map.mp (List.mem_of_getElem? h)
    cases hnone
  once := by
    have hnone : (formals.map fun _ => (none : Option Given)).reduceOption = [] := by
      simp [List.reduceOption]
    rw [hnone]
    rfl

theorem skip (h : Placed formals before slots) (hname : arg.name = none) :
    Placed formals (before ++ [arg]) slots where
  length := h.length
  sits other hother i hclaim := by
    rcases List.mem_append.mp hother with hother | hother
    · exact h.sits other hother i hclaim
    · rw [List.mem_singleton.mp hother, claim?_eq_none hname] at hclaim
      cases hclaim
  only i other hslot := (h.only i other hslot).imp_left (List.mem_append_left [arg])
  once := by
    simpa [named, List.filter_append, hname] using h.once

theorem reduceOption_set {i : Nat} (h : slots[i]? = some none) :
    (slots.set i (some arg)).reduceOption.Perm (arg :: slots.reduceOption) := by
  induction slots generalizing i with
  | nil => simp at h
  | cons slot slots ih =>
    cases i with
    | zero =>
      cases h
      simp
    | succ i =>
      have hrest := ih (by simpa using h)
      cases slot with
      | none => simpa using hrest
      | some taken =>
        rw [List.set_cons_succ, List.reduceOption_cons_of_some, List.reduceOption_cons_of_some]
        exact (hrest.cons taken).trans (.swap arg taken _)

theorem put {i : Nat} (h : Placed formals before slots) (hclaim : claim? formals arg = some i)
    (hfree : slots[i]? = some none) :
    Placed formals (before ++ [arg]) (slots.set i (some arg)) where
  length := by rw [List.length_set, h.length]
  sits other hother j hother_claim := by
    rcases List.mem_append.mp hother with hother | hother
    · have hslot := h.sits other hother j hother_claim
      have hne : i ≠ j := by
        rintro rfl
        rw [hfree] at hslot
        cases hslot
      rw [List.getElem?_set_ne hne, hslot]
    · rw [List.mem_singleton.mp hother, hclaim, Option.some.injEq] at hother_claim
      subst hother_claim
      rw [List.mem_singleton.mp hother, List.getElem?_set_self']
      simp [hfree]
  only j other hslot := by
    by_cases hij : i = j
    · subst hij
      rw [List.getElem?_set_self', hfree] at hslot
      obtain rfl : arg = other := by simpa using hslot
      exact ⟨by simp, hclaim⟩
    · rw [List.getElem?_set_ne hij] at hslot
      exact (h.only j other hslot).imp_left (List.mem_append_left [arg])
  once := by
    obtain ⟨name, hname, -⟩ := name_of_claim? hclaim
    have hnamed : named (before ++ [arg]) = named before ++ [arg] := by
      simp [named, List.filter_append, hname]
    rw [hnamed]
    exact (reduceOption_set hfree).trans
      ((h.once.cons arg).trans (List.perm_append_singleton arg _).symm)

end Placed

namespace NamedWell

theorem nil : NamedWell formals [] where
  known _ harg := nomatch harg
  distinct := .nil

theorem skip (h : NamedWell formals before) (hname : arg.name = none) :
    NamedWell formals (before ++ [arg]) where
  known other hother name hother_name := by
    rcases List.mem_append.mp hother with hother | hother
    · exact h.known other hother name hother_name
    · rw [List.mem_singleton.mp hother, hname] at hother_name
      cases hother_name
  distinct := by simpa [List.filterMap_append, hname] using h.distinct

theorem put {name : String} {i : Nat} (h : NamedWell formals before) (hname : arg.name = some name)
    (hclaim : claim? formals arg = some i) (hnew : name ∉ before.filterMap (·.name)) :
    NamedWell formals (before ++ [arg]) where
  known other hother other_name hother_name := by
    rcases List.mem_append.mp hother with hother | hother
    · exact h.known other hother other_name hother_name
    · obtain ⟨claimed, hclaimed, formal, hformal, rfl⟩ := name_of_claim? hclaim
      rw [List.mem_singleton.mp hother, hclaimed, Option.some.injEq] at hother_name
      exact ⟨formal, List.mem_of_getElem? hformal, hother_name⟩
  distinct := by
    rw [List.filterMap_append, List.filterMap_cons_some hname, List.filterMap_nil]
    rw [(List.perm_append_singleton name _).nodup_iff]
    exact List.nodup_cons.mpr ⟨hnew, h.distinct⟩

theorem claim?_isSome (h : NamedWell formals given) (harg : arg ∈ given)
    (hname : arg.name.isSome = true) : ∃ i, claim? formals arg = some i := by
  obtain ⟨name, hname⟩ := Option.isSome_iff_exists.mp hname
  obtain ⟨formal, hformal, hformal_name⟩ := h.known arg harg name hname
  refine Option.isSome_iff_exists.mp ?_
  rw [claim?, hname, Option.bind_some, List.findIdx?_isSome]
  exact List.any_eq_true.mpr ⟨formal, hformal, decide_eq_true hformal_name⟩

end NamedWell

/-- A parameter is taken exactly if the name of the argument that claims it came before. -/
theorem Placed.isSome_iff {name : String} {i : Nat} (h : Placed formals before slots)
    (hname : arg.name = some name) (hclaim : claim? formals arg = some i) :
    slots[i]?.join.isSome = true ↔ name ∈ before.filterMap (·.name) := by
  constructor
  · intro hsome
    obtain ⟨taken, htaken⟩ := Option.isSome_iff_exists.mp hsome
    obtain ⟨hmem, htaken_claim⟩ := h.only i taken (Option.join_eq_some_iff.mp htaken)
    exact List.mem_filterMap.mpr ⟨taken, hmem, (name_eq_of_claim? htaken_claim hclaim).trans hname⟩
  · intro hmem
    obtain ⟨taken, htaken, htaken_name⟩ := List.mem_filterMap.mp hmem
    have htaken_claim : claim? formals taken = some i := by
      rw [← hclaim]
      simp only [claim?, htaken_name, hname]
    simp [h.sits taken htaken i htaken_claim]

theorem Placed.free_of_claim? {i : Nat} (h : Placed formals before slots)
    (hclaim : claim? formals arg = some i) (hfree : ¬slots[i]?.join.isSome = true) :
    slots[i]? = some none := by
  obtain ⟨-, -, formal, hformal, -⟩ := name_of_claim? hclaim
  obtain ⟨hi, -⟩ := List.getElem?_eq_some_iff.mp hformal
  rw [← h.length] at hi
  rw [List.getElem?_eq_getElem hi] at hfree ⊢
  simpa using hfree

/-- Reading the arguments places those with names, or stops at the first faulty name. -/
theorem placeNamed_spec (function : String) (span : Span) (hnamed : NamedWell formals before)
    (hplaced : Placed formals before slots) (given : List Given) :
    match placeNamed function formals given slots with
    | .ok result => NamedWell formals (before ++ given) ∧ Placed formals (before ++ given) result
    | .error d => Refused function formals span (before ++ given) d := by
  induction given generalizing before slots with
  | nil => simpa [placeNamed] using ⟨hnamed, hplaced⟩
  | cons arg rest ih =>
    have happend : before ++ arg :: rest = (before ++ [arg]) ++ rest := by simp
    unfold placeNamed
    cases hname : arg.name with
    | none =>
      rw [happend]
      exact ih (hnamed.skip hname) (hplaced.skip hname)
    | some name =>
      dsimp only
      cases hfind : formals.findIdx? (·.name = name) with
      | none =>
        refine .unknown hnamed hname fun formal hformal => ?_
        simpa using List.findIdx?_eq_none_iff.mp hfind formal hformal
      | some i =>
        have hclaim : claim? formals arg = some i := by simp [claim?, hname, hfind]
        have htaken := hplaced.isSome_iff hname hclaim
        dsimp only
        by_cases hsome : slots[i]?.join.isSome = true
        · rw [if_pos hsome]
          exact .repeated hnamed hname (htaken.mp hsome)
        · rw [if_neg hsome, happend]
          exact ih (hnamed.put hname hclaim fun hmem => hsome (htaken.mpr hmem))
            (hplaced.put hclaim (hplaced.free_of_claim? hclaim hsome))

/-! ## Positional arguments -/

theorem positional_cons_of_none (h : arg.name = none) :
    positional (arg :: given) = arg :: positional given := by simp [positional, h]

theorem positional_cons_of_some (h : arg.name ≠ none) :
    positional (arg :: given) = positional given := by simp [positional, h]

theorem named_cons_of_none (h : arg.name = none) : named (arg :: given) = named given := by
  simp [named, h]

theorem named_cons_of_some (h : arg.name ≠ none) :
    named (arg :: given) = arg :: named given :=
  List.filter_cons_of_pos (by simpa [Option.isSome_iff_ne_none] using h)

theorem positional_eq_nil_cons :
    positional (arg :: given) = [] ↔ arg.name ≠ none ∧ positional given = [] := by
  simp [positional]

theorem positional_eq_self_cons :
    positional (arg :: given) = arg :: given ↔ arg.name = none ∧ positional given = given := by
  simp [positional]

@[simp] theorem free_nil : free [] slots = [] := rfl

@[simp] theorem free_cons_some {formal : Formal} :
    free (formal :: formals) (some arg :: slots) = free formals slots := rfl

@[simp] theorem free_cons_none {formal : Formal} :
    free (formal :: formals) (none :: slots) = formal :: free formals slots := rfl

def needed (formals : List Formal) (slots : List (Option Given)) : List Formal :=
  (free formals slots).filter (!·.optional)

@[simp] theorem needed_nil : needed [] slots = [] := rfl

@[simp] theorem needed_cons_some {formal : Formal} :
    needed (formal :: formals) (some arg :: slots) = needed formals slots := rfl

@[simp] theorem needed_cons_none {formal : Formal} :
    needed (formal :: formals) (none :: slots) =
      if formal.optional then needed formals slots else formal :: needed formals slots := by
  cases h : formal.optional <;> simp [needed, h]

theorem missing?_eq : missing? formals slots = (needed formals slots).head? :=
  List.head?_filter.symm

inductive Fills : List Formal → List (Option Given) → Nat → List Given → List (Option Given) → Prop
  | nil {spare : Nat} {given : List Given} : Fills [] [] spare given []
  | taken {formal : Formal} {arg : Given} {formals slots spare given result}
      (h : Fills formals slots spare given result) :
      Fills (formal :: formals) (some arg :: slots) spare given (some arg :: result)
  | leave {formal : Formal} {formals slots spare result} (h : Fills formals slots spare [] result) :
      Fills (formal :: formals) (none :: slots) spare [] (none :: result)
  | supply {formal : Formal} {arg : Given} {formals slots spare given result}
      (hneeds : formal.optional = false) (h : Fills formals slots spare given result) :
      Fills (formal :: formals) (none :: slots) spare (arg :: given) (some arg :: result)
  | pass {formal : Formal} {arg : Given} {formals slots given result}
      (hoptional : formal.optional = true) (h : Fills formals slots 0 (arg :: given) result) :
      Fills (formal :: formals) (none :: slots) 0 (arg :: given) (none :: result)
  | spend {formal : Formal} {arg : Given} {formals slots spare given result}
      (hoptional : formal.optional = true) (h : Fills formals slots spare given result) :
      Fills (formal :: formals) (none :: slots) (spare + 1) (arg :: given) (some arg :: result)

theorem fills_fillFree (h : slots.length = formals.length) (spare : Nat) (given : List Given) :
    Fills formals slots spare given (fillFree formals slots spare given) := by
  induction formals generalizing slots spare given with
  | nil =>
    obtain rfl := List.eq_nil_of_length_eq_zero h
    exact .nil
  | cons formal formals ih =>
    obtain ⟨slot, slots, rfl⟩ := List.exists_cons_of_length_eq_add_one h
    have hrest := ih (Nat.succ.inj h)
    cases slot with
    | some taken => exact .taken (hrest spare given)
    | none =>
      cases given with
      | nil => exact .leave (hrest spare [])
      | cons arg given =>
        cases hoptional : formal.optional with
        | false => simpa [fillFree, hoptional] using .supply hoptional (hrest spare given)
        | true =>
          cases spare with
          | zero => simpa [fillFree, hoptional] using .pass hoptional (hrest 0 (arg :: given))
          | succ spare => simpa [fillFree, hoptional] using .spend hoptional (hrest spare given)

/-- Whether there is an optional parameter at a place, and it is free. -/
def FreeOptional (formals : List Formal) (slots : List (Option Given)) (i : Nat) : Prop :=
  (∃ formal, formals[i]? = some formal ∧ formal.optional = true) ∧ slots[i]? = some none

theorem freeOptional_cons_succ {formal : Formal} {slot : Option Given} {i : Nat} :
    FreeOptional (formal :: formals) (slot :: slots) (i + 1) ↔ FreeOptional formals slots i := by
  simp [FreeOptional]

namespace Fills

variable {spare : Nat} {result : List (Option Given)}

theorem length_eq (h : Fills formals slots spare given result) :
    result.length = formals.length := by
  induction h <;> simp_all

theorem getElem?_taken {i : Nat} (h : Fills formals slots spare given result)
    (htaken : slots[i]? = some (some arg)) : result[i]? = some (some arg) := by
  induction h generalizing i with
  | nil => simp at htaken
  | taken _ ih => cases i <;> simp_all
  | leave _ ih | supply _ _ ih | pass _ _ ih | spend _ _ ih =>
    cases i with
    | zero => simp at htaken
    | succ i => simpa using ih (by simpa using htaken)

theorem mem_of_getElem? {i : Nat} (h : Fills formals slots spare given result)
    (hresult : result[i]? = some (some arg)) : slots[i]? = some (some arg) ∨ arg ∈ given := by
  induction h generalizing i with
  | nil => simp at hresult
  | taken _ ih | leave _ ih | pass _ _ ih => cases i <;> simp_all
  | supply _ _ ih | spend _ _ ih =>
    cases i with
    | zero => simp_all
    | succ i => exact (ih (by simpa using hresult)).imp (by simp) (List.mem_cons_of_mem _)

/-- Each argument meets a need as long as there are needs. -/
theorem needed_eq (h : Fills formals slots spare given result)
    (hspare : spare = given.length - (needed formals slots).length) :
    needed formals result = (needed formals slots).drop given.length := by
  -- What is to spare remains the surplus over the needs, since both go down together.
  induction h with
  | nil => simp
  | taken _ ih => simpa using ih hspare
  | leave _ ih =>
    have hrest := ih (by simpa using hspare)
    rw [List.length_nil, List.drop_zero] at hrest ⊢
    simp only [needed_cons_none, hrest]
  | supply hneeds _ ih =>
    simp only [needed_cons_none, hneeds, Bool.false_eq_true, if_false, List.length_cons] at hspare ⊢
    simpa using ih (by omega)
  | pass hoptional _ ih =>
    simp only [needed_cons_none, hoptional, if_true] at hspare ⊢
    exact ih hspare
  | @spend _ _ formals slots _ given _ hoptional _ ih =>
    simp only [needed_cons_none, hoptional, if_true, List.length_cons] at hspare
    have henough : (needed formals slots).length ≤ given.length := by omega
    simp only [needed_cons_none, needed_cons_some, hoptional, if_true, List.length_cons]
    rw [ih (by omega), List.drop_eq_nil_of_le henough, List.drop_eq_nil_of_le (by omega)]

theorem length_needed_le : (needed formals slots).length ≤ (free formals slots).length :=
  List.length_filter_le _ _

/-- If there are not more arguments than free parameters, all of them are placed in their order. -/
theorem positional_eq (h : Fills formals slots spare given result)
    (hspare : spare = given.length - (needed formals slots).length)
    (hlength : given.length ≤ (free formals slots).length)
    (hslots : positional slots.reduceOption = []) (hgiven : positional given = given) :
    positional result.reduceOption = given := by
  induction h with
  | nil => exact (List.eq_nil_of_length_eq_zero (Nat.le_zero.mp hlength)).symm
  | @taken _ arg _ _ _ _ result _ ih =>
    rw [List.reduceOption_cons_of_some, positional_eq_nil_cons] at hslots
    rw [List.reduceOption_cons_of_some, positional_cons_of_some hslots.1]
    exact ih hspare hlength hslots.2 hgiven
  | leave _ ih => exact ih (by simpa using hspare) (Nat.zero_le _) hslots hgiven
  | supply hneeds _ ih =>
    obtain ⟨hname, hgiven⟩ := positional_eq_self_cons.mp hgiven
    rw [List.reduceOption_cons_of_some, positional_cons_of_none hname]
    simp only [needed_cons_none, hneeds, Bool.false_eq_true, if_false, List.length_cons] at hspare
    simp only [free_cons_none, List.length_cons] at hlength
    rw [ih (by omega) (by omega) hslots hgiven]
  | pass hoptional _ ih =>
    -- With nothing to spare the needs alone are at least as many as the arguments.
    simp only [needed_cons_none, hoptional, if_true, List.length_cons] at hspare
    refine ih hspare ?_ hslots hgiven
    exact Nat.le_trans (by rw [List.length_cons]; omega) length_needed_le
  | spend hoptional _ ih =>
    obtain ⟨hname, hgiven⟩ := positional_eq_self_cons.mp hgiven
    rw [List.reduceOption_cons_of_some, positional_cons_of_none hname]
    simp only [needed_cons_none, hoptional, if_true, List.length_cons] at hspare
    simp only [free_cons_none, List.length_cons] at hlength
    rw [ih (by omega) (by omega) hslots hgiven]

theorem named_eq (h : Fills formals slots spare given result)
    (hslots : positional slots.reduceOption = []) (hgiven : positional given = given) :
    named result.reduceOption = slots.reduceOption := by
  induction h with
  | nil => rfl
  | taken _ ih =>
    rw [List.reduceOption_cons_of_some, positional_eq_nil_cons] at hslots
    rw [List.reduceOption_cons_of_some, List.reduceOption_cons_of_some,
      named_cons_of_some hslots.1, ih hslots.2 hgiven]
  | leave _ ih | pass _ _ ih => exact ih hslots hgiven
  | supply _ _ ih | spend _ _ ih =>
    obtain ⟨hname, hgiven⟩ := positional_eq_self_cons.mp hgiven
    rw [List.reduceOption_cons_of_some, named_cons_of_none hname]
    exact ih hslots hgiven

/-- Without anything to spare, optional parameters are passed over. -/
theorem passes {i : Nat} (h : Fills formals slots spare given result)
    (hnothing : spare = 0 ∨ given = []) (hfree : FreeOptional formals slots i) :
    result[i]? = some none := by
  induction h generalizing i with
  | nil => simp [FreeOptional] at hfree
  | taken _ ih | leave _ ih | supply _ _ ih | pass _ _ ih =>
    cases i with
    | zero => simp_all [FreeOptional]
    | succ i => exact ih (by simp_all) (freeOptional_cons_succ.mp hfree)
  | spend => simp at hnothing

/-- No optional parameter is passed over before one that is filled. -/
theorem leftmost {i j : Nat} (h : Fills formals slots spare given result)
    (hi : FreeOptional formals slots i) (hj : FreeOptional formals slots j) (hij : i < j)
    (hpassed : result[i]? = some none) : result[j]? = some none := by
  induction h generalizing i j with
  | nil => simp [FreeOptional] at hi
  | taken h ih | leave h ih | supply _ h ih | pass _ h ih | spend _ h ih =>
    obtain ⟨j, rfl⟩ : ∃ k, j = k + 1 := ⟨j - 1, by omega⟩
    have hlater := freeOptional_cons_succ.mp hj
    cases i with
    | zero =>
      have hrest := fun hnothing => h.passes hnothing hlater
      simp_all [FreeOptional]
    | succ i => exact ih (freeOptional_cons_succ.mp hi) hlater (by omega) hpassed

end Fills

/-! ## Both -/

theorem free_eq_zipIdx (unused : Nat → Bool) {k : Nat} (hlength : slots.length = formals.length)
    (h : ∀ i slot, slots[i]? = some slot → slot.isNone = unused (i + k)) :
    free formals slots = ((formals.zipIdx k).filter fun p => unused p.2).map (·.1) := by
  induction formals generalizing slots k with
  | nil => rfl
  | cons formal formals ih =>
    obtain ⟨slot, slots, rfl⟩ := List.exists_cons_of_length_eq_add_one hlength
    have hfirst : unused k = slot.isNone := by simpa using (h 0 slot rfl).symm
    have hrest := ih (Nat.succ.inj hlength) (k := k + 1) fun i slot hslot => by
      simpa [Nat.add_right_comm, Nat.add_assoc] using h (i + 1) slot hslot
    rw [List.zipIdx_cons, List.filter_cons]
    cases slot with
    | none => rw [free_cons_none, hrest, if_pos (by simpa using hfirst), List.map_cons]
    | some taken => rw [free_cons_some, hrest, if_neg (by simpa using hfirst)]

namespace Placed

theorem free_eq (h : Placed formals given slots) :
    free formals slots = (unclaimed formals given).map (·.1) := by
  refine free_eq_zipIdx (fun i => decide (∀ arg ∈ given, claim? formals arg ≠ some i)) h.length
    fun i slot hslot => ?_
  cases slot with
  | none =>
    symm
    refine decide_eq_true fun arg harg hclaim => ?_
    rw [h.sits arg harg i hclaim] at hslot
    cases hslot
  | some arg =>
    obtain ⟨harg, hclaim⟩ := h.only i arg hslot
    symm
    exact decide_eq_false fun hnone => hnone arg harg hclaim

theorem needed_eq (h : Placed formals given slots) :
    needed formals slots = (wanting formals given).map (·.1) := by
  rw [needed, h.free_eq, List.filter_map]
  rfl

theorem positional_eq_nil (h : Placed formals given slots) :
    positional slots.reduceOption = [] := by
  refine List.filter_eq_nil_iff.mpr fun arg harg hname => ?_
  have hnamed := (List.mem_filter.mp (h.once.mem_iff.mp harg)).2
  simp [hname] at hnamed

theorem freeOptional (h : Placed formals given slots) {p : Formal × Nat}
    (hp : p ∈ unclaimed formals given) (hoptional : p.1.optional = true) :
    FreeOptional formals slots p.2 := by
  obtain ⟨hmem, hnone⟩ := List.mem_filter.mp hp
  have hformal : formals[p.2]? = some p.1 := List.mem_zipIdx_iff_getElem?.mp hmem
  obtain ⟨hi, -⟩ := List.getElem?_eq_some_iff.mp hformal
  rw [← h.length] at hi
  refine ⟨⟨p.1, hformal, hoptional⟩, ?_⟩
  cases hslot : slots[p.2] with
  | none => rw [List.getElem?_eq_getElem hi, hslot]
  | some arg =>
    obtain ⟨harg, hclaim⟩ := h.only p.2 arg (by rw [List.getElem?_eq_getElem hi, hslot])
    exact absurd hclaim (of_decide_eq_true hnone arg harg)

theorem bound {spare : Nat} {result : List (Option Given)} (h : Placed formals given slots)
    (hnamed : NamedWell formals given)
    (hfills : Fills formals slots spare (positional given) result)
    (hspare : spare = (positional given).length - (needed formals slots).length)
    (hcount : (positional given).length ≤ (free formals slots).length)
    (hmissing : missing? formals result = none) : Bound formals given result := by
  have hgiven : positional (positional given) = positional given := by
    simp [positional]
  have horder := hfills.positional_eq hspare hcount h.positional_eq_nil hgiven
  refine ⟨hfills.length_eq, ?_, fun arg harg hname => ?_, fun i arg hslot => ?_, horder,
    fun p hp q hq hp_optional hq_optional hlt hpassed =>
      hfills.leftmost (h.freeOptional hp hp_optional) (h.freeOptional hq hq_optional) hlt hpassed,
    fun i formal hformal hneeds => ?_⟩
  · refine (List.filter_append_perm (·.name.isNone) _).symm.trans ?_
    have hnamed_eq := hfills.named_eq h.positional_eq_nil hgiven
    change (positional result.reduceOption ++ named result.reduceOption).Perm given
    rw [horder, hnamed_eq]
    exact (h.once.append_left _).trans (List.filter_append_perm _ _)
  · obtain ⟨i, hclaim⟩ := hnamed.claim?_isSome harg hname
    exact ⟨i, hclaim, hfills.getElem?_taken (h.sits arg harg i hclaim)⟩
  · rcases hfills.mem_of_getElem? hslot with hplaced | hpositional
    · exact .inr (h.only i arg hplaced).2
    · exact .inl (by simpa using (List.mem_filter.mp hpositional).2)
  · obtain ⟨hi, -⟩ := List.getElem?_eq_some_iff.mp hformal
    rw [← hfills.length_eq] at hi
    cases hslot : result[i] with
    | some arg => exact ⟨arg, by rw [List.getElem?_eq_getElem hi, hslot]⟩
    | none =>
      have hresult : result[i]? = some none := by rw [List.getElem?_eq_getElem hi, hslot]
      have hpair : (formal, none) ∈ formals.zip result :=
        List.mem_of_getElem? (List.getElem?_zip_eq_some.mpr ⟨hformal, hresult⟩)
      rw [optional_of_missing hmissing _ hpair rfl] at hneeds
      cases hneeds

end Placed

theorem bind_of_placeNamed (h : placeNamed function formals given (formals.map fun _ => none) =
      .ok slots) :
    bind function formals given span =
      if (free formals slots).length < (positional given).length then
        .error (Fault.wrongArguments span function
          s!"expected at most {formals.length} arguments, got {given.length}")
      else
        let result := fillFree formals slots
          ((positional given).length - (needed formals slots).length) (positional given)
        match missing? formals result with
        | some formal =>
          .error (Fault.wrongArguments span function s!"missing argument '{formal.name}'")
        | none => .ok result := by
  unfold bind
  rw [h]
  rfl

/-- A call binds its arguments exactly if its parameters accept them, each to the parameter that it
belongs to, and is refused for the first reason otherwise. -/
theorem bind_places (function : String) (formals : List Formal) (given : List Given) (span : Span) :
    match bind function formals given span with
    | .ok slots => Admissible formals given ∧ Bound formals given slots
    | .error d => ¬Admissible formals given ∧ Refused function formals span given d := by
  have refused_of {d : Diagnostic} (h : Refused function formals span given d) :
      ¬Admissible formals given ∧ Refused function formals span given d := ⟨h.not_admissible, h⟩
  have hplaced := placeNamed_spec function span (@NamedWell.nil formals) Placed.nil given
  rw [List.nil_append] at hplaced
  cases hslots : placeNamed function formals given (formals.map fun _ => none) with
  | error d =>
    rw [hslots] at hplaced
    have hbind : bind function formals given span = .error d := by
      unfold bind
      rw [hslots]
      rfl
    rw [hbind]
    exact refused_of hplaced
  | ok slots =>
    rw [hslots] at hplaced
    obtain ⟨hnamed, hplaced⟩ := hplaced
    have hvacant : (free formals slots).length = (unclaimed formals given).length := by
      rw [hplaced.free_eq, List.length_map]
    rw [bind_of_placeNamed hslots]
    by_cases hmany : (free formals slots).length < (positional given).length
    · rw [if_pos hmany]
      exact refused_of (.tooMany hnamed (hvacant ▸ hmany))
    rw [if_neg hmany]
    have hfills := fills_fillFree hplaced.length
      ((positional given).length - (needed formals slots).length) (positional given)
    generalize fillFree formals slots _ (positional given) = result at hfills
    have hmissing : missing? formals result =
        ((wanting formals given)[(positional given).length]?).map (·.1) := by
      rw [missing?_eq, hfills.needed_eq rfl, List.head?_drop, hplaced.needed_eq, List.getElem?_map]
    dsimp only
    cases hwanting : (wanting formals given)[(positional given).length]? with
    | none =>
      rw [hwanting, Option.map_none] at hmissing
      rw [hmissing]
      exact ⟨⟨hnamed, by omega, List.getElem?_eq_none_iff.mp hwanting⟩,
        hplaced.bound hnamed hfills rfl (Nat.le_of_not_lt hmany) hmissing⟩
    | some p =>
      rw [hwanting, Option.map_some] at hmissing
      rw [hmissing]
      exact refused_of (.missing hnamed hwanting)

end ExprScript.Arguments
