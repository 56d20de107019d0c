import ExprScript.Proofs.Evaluation.Literals
import ExprScript.Proofs.Evaluation.Returns
import ExprScript.Proofs.Value.Arithmetic

/-!
# Counting loops

A loop that counts from one int to another gives its counter the first number, the number one step
on, and so on, as long as they are short of the end. After each run of the body it goes one step on.
This holds for the last run too, behind which the number need not be an int any more.
-/
namespace ExprScript

namespace Eval

/-! ## The numbers -/

/-- Whether a number is short of the end `b` of a loop with steps of `k`. -/
def ShortOf (b k x : Int) : Prop := if 0 < k then x < b else b < x

instance (b k x : Int) : Decidable (ShortOf b k x) :=
  inferInstanceAs (Decidable (if 0 < k then x < b else b < x))

/-- How often a loop from `a` to `b` runs: the distance in steps of `k`, rounded up. -/
def roundCount (a b k : Int) : Nat := (-(a - b).fdiv k).toNat

section
variable {a b k : Int}

theorem lt_roundCount_iff (hk : k ≠ 0) (j : Nat) :
    j < roundCount a b k ↔ ShortOf b k (a + j * k) := by
  unfold roundCount ShortOf
  rw [Int.lt_toNat, lt_neg]
  rcases lt_or_gt_of_ne hk with hneg | hpos
  · rw [if_neg (by omega), ← Int.neg_fdiv_neg, Int.fdiv_eq_ediv_of_nonneg _ (by omega),
      Int.ediv_lt_iff_lt_mul (by omega)]
    constructor <;> intro h <;> linarith
  · rw [if_pos hpos, Int.fdiv_eq_ediv_of_nonneg _ (by omega), Int.ediv_lt_iff_lt_mul hpos]
    constructor <;> intro h <;> linarith

theorem roundCount_of_not (hk : k ≠ 0) (h : ¬ShortOf b k a) : roundCount a b k = 0 := by
  refine Nat.eq_zero_of_not_pos fun hpos => h ?_
  simpa using (lt_roundCount_iff hk 0).mp hpos

theorem roundCount_of_shortOf (hk : k ≠ 0) (h : ShortOf b k a) :
    roundCount a b k = roundCount (a + k) b k + 1 := by
  refine eq_of_forall_lt_iff fun j => ?_
  rw [lt_roundCount_iff hk]
  cases j with
  | zero => simpa using h
  | succ j =>
    have hnumber : a + ((j + 1 : Nat) : Int) * k = a + k + j * k := by
      push_cast
      ring
    rw [hnumber, Nat.succ_lt_succ_iff, lt_roundCount_iff hk]

/-- A number on the way from one int to another is an int. -/
theorem fitsInt64_of_shortOf (ha : FitsInt64 a) (hb : FitsInt64 b) (j : Nat)
    (h : ShortOf b k (a + j * k)) : FitsInt64 (a + j * k) := by
  unfold ShortOf at h
  obtain ⟨hlow, hhigh⟩ := ha
  obtain ⟨hlow', hhigh'⟩ := hb
  split at h
  · have hgone : 0 ≤ (j : Int) * k := mul_nonneg (by omega) (by omega)
    constructor <;> omega
  · have hgone : (j : Int) * k ≤ 0 := mul_nonpos_of_nonneg_of_nonpos (by omega) (by omega)
    constructor <;> omega

end

def counted (a b k : Int64) : List Int64 :=
  (List.range (roundCount a.toInt b.toInt k.toInt)).map fun j : Nat =>
    Int64.ofInt (a.toInt + j * k.toInt)

variable {a b k v : Int64}

theorem toInt_ne_zero (hk : k ≠ 0) : k.toInt ≠ 0 := fun h => hk (Int64.toInt_inj.mp h)

theorem toInt_counted (hk : k ≠ 0) :
    (counted a b k).map Int64.toInt =
      (List.range (roundCount a.toInt b.toInt k.toInt)).map fun j : Nat =>
        a.toInt + j * k.toInt := by
  unfold counted
  rw [List.map_map]
  refine List.map_congr_left fun j hj => ?_
  have hshort := (lt_roundCount_iff (toInt_ne_zero hk) j).mp (List.mem_range.mp hj)
  obtain ⟨hlow, hhigh⟩ := fitsInt64_of_shortOf (fitsInt64_toInt a) (fitsInt64_toInt b) j hshort
  exact Int64.toInt_ofInt_of_le hlow hhigh

theorem counted_of_not (hk : k ≠ 0) (h : ¬ShortOf b.toInt k.toInt a.toInt) :
    counted a b k = [] := by
  unfold counted
  rw [roundCount_of_not (toInt_ne_zero hk) h]
  rfl

theorem counted_of_add? (hk : k ≠ 0) (h : ShortOf b.toInt k.toInt a.toInt) {next : Int64}
    (hnext : Int64Ops.add? a k = some next) : counted a b k = a :: counted next b k := by
  have hsum : next.toInt = a.toInt + k.toInt := int64?_eq_some_iff.mp hnext
  unfold counted
  rw [roundCount_of_shortOf (toInt_ne_zero hk) h, List.range_succ_eq_map, List.map_cons,
    List.map_map, hsum]
  refine congrArg₂ _ (by simp) (List.map_congr_left fun j _ => congrArg Int64.ofInt ?_)
  push_cast
  ring

/-- Where one step more leaves the ints there is no further number. -/
theorem counted_of_overflow (hk : k ≠ 0) (h : ShortOf b.toInt k.toInt a.toInt)
    (hnext : Int64Ops.add? a k = none) : counted a b k = [a] := by
  have hover : ¬FitsInt64 (a.toInt + k.toInt) := int64?_eq_none_iff.mp hnext
  have hend : ¬ShortOf b.toInt k.toInt (a.toInt + k.toInt) := fun hshort => by
    have hfits := fitsInt64_of_shortOf (k := k.toInt) (fitsInt64_toInt a) (fitsInt64_toInt b) 1
    simp only [Nat.cast_one, one_mul] at hfits
    exact hover (hfits hshort)
  unfold counted
  rw [roundCount_of_shortOf (toInt_ne_zero hk) h, roundCount_of_not (toInt_ne_zero hk) hend]
  simp

/-- The first number, if there is one, is the start, which is short of the end. -/
theorem counted_eq_cons (hk : k ≠ 0) {rest : List Int64} (h : counted a b k = v :: rest) :
    a = v ∧ ShortOf b.toInt k.toInt a.toInt := by
  have hshort : ShortOf b.toInt k.toInt a.toInt := by
    by_contra hend
    rw [counted_of_not hk hend] at h
    cases h
  refine ⟨?_, hshort⟩
  cases hnext : Int64Ops.add? a k with
  | some next =>
    rw [counted_of_add? hk hshort hnext] at h
    exact (List.cons_eq_cons.mp h).1
  | none =>
    rw [counted_of_overflow hk hshort hnext] at h
    exact (List.cons_eq_cons.mp h).1

theorem towardLast_eq (hk : k ≠ 0) :
    towardLast (.int k) = if 0 < k.toInt then .lt else .gt := by
  have hzero : k.toInt ≠ 0 := toInt_ne_zero hk
  have hsign : k < 0 ↔ ¬0 < k.toInt := by
    rw [Int64.lt_iff_toInt_lt, Int64.toInt_zero]
    omega
  unfold towardLast Number.isNegative
  by_cases hpos : 0 < k.toInt <;> simp [hsign, hpos]

theorem order?_towardLast (hk : k ≠ 0) :
    (Number.int a).order? (.int b) = some (towardLast (.int k)) ↔
      ShortOf b.toInt k.toInt a.toInt := by
  rw [towardLast_eq hk, Number.order?, ShortOf, Option.some_inj]
  split
  · exact compare_lt_iff_lt
  · exact compare_gt_iff_gt

theorem order?_swap (hk : k ≠ 0) :
    (Number.int a).order? (.int b) = some (towardLast (.int k)).swap ↔
      ShortOf a.toInt k.toInt b.toInt := by
  rw [towardLast_eq hk, Number.order?, ShortOf, Option.some_inj]
  split
  · exact compare_gt_iff_gt
  · exact compare_lt_iff_lt

end Eval

/-! ## The machine -/

/-- The machine in which a counter has been given a number. -/
def Machine.counting (m : Machine) (counter : Name) (v : Int64) : Machine :=
  { m with scopes := m.scopes.setVariable m.context.scope counter ⟨.int v, .auto⟩ }

def Machine.backIn (m : Machine) (scope : ScopeId) : Machine :=
  { m with context := { m.context with scope } }

namespace Eval

/-- The result of a run in a new scope, back in the scope before. -/
def leaving {α : Type} (scope : ScopeId) :
    EStateM.Result Interrupt Machine α → EStateM.Result Interrupt Machine α
  | .ok v n => .ok v (n.backIn scope)
  | .error e n => .error e (n.backIn scope)

theorem inNewScope_eq {α : Type} (p : Eval α) (m : Machine) :
    inNewScope p m = leaving m.context.scope (p (m.inChildOf m.context.scope)) := rfl

/-- A loop `iterate first to last step step :: counter { … }`, with a label or without. -/
structure CountingLoop where
  label : Option Name
  first : NodeId
  last : NodeId
  step : NodeId
  counter : Name
  body : NodeId

namespace CountingLoop

def parts (l : CountingLoop) : IterateParts :=
  ⟨l.label, some l.first, l.last, some l.step, some l.counter, l.body⟩

def expr (l : CountingLoop) : Expr :=
  .iterate l.label (some l.first) l.last (some l.step) (some l.counter) l.body

variable (l : CountingLoop)

/-- One run of the body, from a machine before the counter is given its value to the machine after
the run: it ends normally or in a `continue` for the loop, and the counter has kept its value. -/
structure Round (body : Eval Value) (v : Int64) (m n : Machine) : Prop where
  passes : (∃ result, body (m.counting l.counter v) = .ok result n) ∨
    ∃ signal, aimsAt l.label signal = true ∧
      body (m.counting l.counter v) = .error (.continued signal) n
  kept : (n.scopes.entry? n.context.scope l.counter).map Entry.value = some (.int v)

/-- Runs of the body one after another, each with the value of the counter and the machine from
which the body starts. -/
inductive Rounds (body : Eval Value) : List (Int64 × Machine) → Machine → Machine → Prop
  | none (m : Machine) : Rounds body [] m m
  | next {v : Int64} {m n k : Machine} {runs : List (Int64 × Machine)} (first : l.Round body v m n)
      (rest : Rounds body runs n k) : Rounds body ((v, m.counting l.counter v) :: runs) m k

/-- The loop from where its counter has come to, with so many rounds left. -/
def count (body : Eval Value) (b k : Int64) (span : Span) (rounds : Nat) (v : Int64) :
    Eval Value :=
  countLoop l.parts body (.int b) (.int k) (towardLast (.int k)) span rounds (.int v)

variable {l} {body : Eval Value} {b k v : Int64} {m n : Machine} {span : Span} {rounds : Nat}
  {runs : List (Int64 × Machine)}

theorem Round.runBody (h : l.Round body v m n) :
    Eval.runBody l.label body (m.counting l.counter v) = .ok .next n := by
  unfold Eval.runBody
  rcases h.passes with ⟨result, hrun⟩ | ⟨signal, haims, hrun⟩
  · rw [hrun]
  · rw [hrun]
    exact if_pos haims

theorem Round.readCounter (h : l.Round body v m n) (expected : Number) (span : Span) :
    Eval.readCounter (some l.counter) expected span n = .ok (.int v) n := by
  obtain ⟨entry, hentry, hvalue⟩ := Option.map_eq_some_iff.mp h.kept
  unfold Eval.readCounter
  dsimp only
  rw [bind_apply, Eval.entry?, hentry]
  dsimp only
  rw [hvalue]
  rfl

theorem Round.unique {n' : Machine} (h : l.Round body v m n) (h' : l.Round body v m n') :
    n = n' := by
  have hrun := h.runBody.symm.trans h'.runBody
  cases hrun
  rfl

theorem count_of_not (hk : k ≠ 0) (h : ¬ShortOf b.toInt k.toInt v.toInt) :
    l.count body b k span (rounds + 1) v m = .ok .null m := by
  unfold count countLoop
  rw [if_neg fun horder => h ((order?_towardLast hk).mp horder)]
  rfl

/-- Short of its end, a loop gives the counter its value and runs the body. -/
theorem count_of_shortOf (hk : k ≠ 0) (h : ShortOf b.toInt k.toInt v.toInt) :
    l.count body b k span (rounds + 1) v m =
      (Eval.runBody l.label body >>= fun flow => do
        let counter ← Eval.readCounter (some l.counter) (.int v) span
        match flow with
        | .stop => return .null
        | .next =>
          match counter.advance? (.int k) with
          | some counter =>
            countLoop l.parts body (.int b) (.int k) (towardLast (.int k)) span rounds counter
          | none => fault (Fault.overflow span "iterate")) (m.counting l.counter v) := by
  have hset : setCounter (some l.counter) (Number.int v).toValue m =
      .ok () (m.counting l.counter v) := rfl
  unfold count
  rw [countLoop, if_pos ((order?_towardLast hk).mpr h)]
  change (setCounter (some l.counter) _ >>= _) m = _
  rw [bind_of_ok hset]
  rfl

theorem count_of_round (hk : k ≠ 0) (h : ShortOf b.toInt k.toInt v.toInt)
    (hround : l.Round body v m n) :
    l.count body b k span (rounds + 1) v m =
      match Int64Ops.add? v k with
      | some next => l.count body b k span rounds next n
      | none => .error (.fatal (Fault.overflow span "iterate")) n := by
  rw [count_of_shortOf hk h, bind_of_ok hround.runBody, bind_of_ok (hround.readCounter _ span)]
  dsimp only [Number.advance?]
  cases Int64Ops.add? v k <;> rfl

/-- A loop whose body has a run for each of its numbers ends behind the last of them, unless one
step more leaves the ints. -/
theorem count_of_rounds (hk : k ≠ 0) (hruns : l.Rounds body runs m n) {a : Int64}
    (hvalues : runs.map (·.1) = counted a b k) (hrounds : runs.length < rounds) :
    l.count body b k span rounds a m =
      if FitsInt64 (a.toInt + runs.length * k.toInt) then .ok .null n
      else .error (.fatal (Fault.overflow span "iterate")) n := by
  induction hruns generalizing a rounds with
  | none m =>
    have hend : ¬ShortOf b.toInt k.toInt a.toInt := by
      intro hshort
      cases hnext : Int64Ops.add? a k with
      | some next => simp [counted_of_add? hk hshort hnext] at hvalues
      | none => simp [counted_of_overflow hk hshort hnext] at hvalues
    obtain ⟨rounds, rfl⟩ := Nat.exists_eq_add_of_lt hrounds
    rw [count_of_not hk hend, if_pos (by simpa using fitsInt64_toInt a)]
  | @next v m n' n runs first rest ih =>
    obtain ⟨rounds, rfl⟩ : ∃ more, rounds = more + 1 := ⟨rounds - 1, by omega⟩
    obtain ⟨rfl, hshort⟩ := counted_eq_cons hk hvalues.symm
    rw [count_of_round hk hshort first]
    cases hnext : Int64Ops.add? a k with
    | some next =>
      rw [counted_of_add? hk hshort hnext] at hvalues
      have hsum : next.toInt = a.toInt + k.toInt := int64?_eq_some_iff.mp hnext
      dsimp only
      rw [ih (List.cons_eq_cons.mp hvalues).2 (by simpa using hrounds), hsum, List.length_cons]
      push_cast
      ring_nf
    | none =>
      rw [counted_of_overflow hk hshort hnext] at hvalues
      obtain rfl := List.map_eq_nil_iff.mp (List.cons_eq_cons.mp hvalues).2
      cases rest
      have hover : ¬FitsInt64 (a.toInt + k.toInt) := int64?_eq_none_iff.mp hnext
      rw [if_neg (by simpa using hover)]

theorem exits_count (hk : k ≠ 0) {other : Eval Value} {x : Machine} {status : Int}
    (hsame : ∀ y, y ≠ x → other y = body y) (hexits : Exits other status x)
    (hruns : l.Rounds body runs m n) (hx : ∃ r ∈ runs, r.2 = x) {a : Int64}
    (hvalues : runs.map (·.1) = counted a b k) (hrounds : runs.length < rounds) :
    Exits (l.count other b k span rounds a) status m := by
  induction hruns generalizing a rounds with
  | none m =>
    obtain ⟨_, hmem, -⟩ := hx
    cases hmem
  | @next v m n' n runs first rest ih =>
    obtain ⟨rounds, rfl⟩ : ∃ more, rounds = more + 1 := ⟨rounds - 1, by omega⟩
    obtain ⟨rfl, hshort⟩ := counted_eq_cons hk hvalues.symm
    by_cases hhere : m.counting l.counter a = x
    · obtain ⟨y, hy⟩ := hexits
      have hbody : Exits (Eval.runBody l.label other) status (m.counting l.counter a) :=
        ⟨y, by rw [hhere, Eval.runBody, hy]⟩
      obtain ⟨z, hz⟩ := hbody.bind _
      exact ⟨z, (count_of_shortOf hk hshort).trans hz⟩
    · have hround : l.Round other a m n' := ⟨hsame _ hhere ▸ first.passes, first.kept⟩
      obtain ⟨r, hr, rfl⟩ := hx
      have hlater : r ∈ runs := (List.mem_cons.mp hr).resolve_left fun heq => hhere (by rw [heq])
      cases hnext : Int64Ops.add? a k with
      | some next =>
        rw [counted_of_add? hk hshort hnext] at hvalues
        obtain ⟨z, hz⟩ := ih ⟨r, hlater, rfl⟩ (List.cons_eq_cons.mp hvalues).2
          (by simpa using hrounds)
        exact ⟨z, by rw [count_of_round hk hshort hround, hnext]; exact hz⟩
      | none =>
        rw [counted_of_overflow hk hshort hnext] at hvalues
        obtain rfl := List.map_eq_nil_iff.mp (List.cons_eq_cons.mp hvalues).2
        cases hlater

/-! ### All runs -/

theorem length_of_counted {a : Int64} (h : runs.map (·.1) = counted a b k) :
    runs.length = roundCount a.toInt b.toInt k.toInt := by
  have hsame := congrArg List.length h
  simpa [counted] using hsame

theorem Rounds.concat {start : Machine} (hruns : l.Rounds body runs start m)
    (hround : l.Round body v m n) :
    l.Rounds body (runs ++ [(v, m.counting l.counter v)]) start n := by
  induction hruns with
  | none m => exact .next hround (.none n)
  | next first _ ih => exact .next first (ih hround)

/-- If another run is always possible, then there are runs for all numbers. -/
theorem exists_rounds {start : Machine} {values : List Int64}
    (hbody : ∀ runs m v rest, l.Rounds body runs start m →
      values = runs.map (·.1) ++ v :: rest → ∃ n, l.Round body v m n) :
    ∃ runs n, l.Rounds body runs start n ∧ runs.map (·.1) = values := by
  have hfrom : ∀ rest runs m, l.Rounds body runs start m → values = runs.map (·.1) ++ rest →
      ∃ runs n, l.Rounds body runs start n ∧ runs.map (·.1) = values := by
    intro rest
    induction rest with
    | nil =>
      intro runs m hruns hvalues
      exact ⟨runs, m, hruns, by simpa using hvalues.symm⟩
    | cons v rest ih =>
      intro runs m hruns hvalues
      obtain ⟨n, hround⟩ := hbody runs m v rest hruns hvalues
      exact ih _ n (hruns.concat hround) (by simpa using hvalues)
  exact hfrom values [] start (.none start) rfl

/-- Where there are runs for all numbers, another run is always possible. -/
theorem Rounds.exists_next {start last : Machine} {all : List (Int64 × Machine)}
    {rest : List Int64} (hall : l.Rounds body all start last) (hruns : l.Rounds body runs start m)
    (hvalues : all.map (·.1) = runs.map (·.1) ++ v :: rest) : ∃ n, l.Round body v m n := by
  induction hruns generalizing all with
  | none m =>
    cases hall with
    | none => cases hvalues
    | next first _ =>
      obtain ⟨rfl, -⟩ := List.cons_eq_cons.mp hvalues
      exact ⟨_, first⟩
  | next first _ ih =>
    cases hall with
    | none => cases hvalues
    | next first' others =>
      obtain ⟨rfl, hrest⟩ := List.cons_eq_cons.mp hvalues
      obtain rfl := first.unique first'
      exact ih others hrest

/-- The runs are those of any other body that does the same from the machines at their starts. -/
theorem Rounds.congr {other : Eval Value} (hruns : l.Rounds body runs m n)
    (h : ∀ r ∈ runs, body r.2 = other r.2) : l.Rounds other runs m n := by
  induction hruns with
  | none m => exact .none m
  | next first _ ih =>
    obtain ⟨hsame, hrest⟩ := List.forall_mem_cons.mp h
    exact .next ⟨hsame ▸ first.passes, first.kept⟩ (ih hrest)

/-! ### The loop -/

/-- The end, the start and the step of a loop are ints. The last two are found in the scope of the
counter. -/
structure Bounds (l : CountingLoop) (run : Task → Eval Value) (m : Machine) (a b k : Int64)
    (afterLast afterFirst afterStep : Machine) : Prop where
  last : run (.node l.last) m = .ok (.int b) afterLast
  first : run (.node l.first) (afterLast.inChildOf afterLast.context.scope) =
    .ok (.int a) afterFirst
  step : run (.node l.step) afterFirst = .ok (.int k) afterStep

/-- The bounds of a loop are nodes of the script that runs where they are evaluated. -/
structure Spanned (l : CountingLoop) (m afterLast afterFirst : Machine) : Prop where
  last : ∃ span, spanOf l.last m = .ok span m
  first : ∃ span, spanOf l.first (afterLast.inChildOf afterLast.context.scope) =
    .ok span (afterLast.inChildOf afterLast.context.scope)
  step : ∃ span, spanOf l.step afterFirst = .ok span afterFirst

/-- The machine before the first run. A warning tells of a start beyond the end. -/
def start (a b k : Int64) (span : Span) (m : Machine) : Machine :=
  if ShortOf a.toInt k.toInt b.toInt then
    m.note m.context.script.source
      ⟨.iterateStepLoop, span,
        [(Number.int k).display, (Number.int b).display, (Number.int a).display], [], none⟩
  else m

variable {a : Int64} {afterLast afterFirst afterStep : Machine} {run : Task → Eval Value}

theorem loopNumber_of_int {ev : NodeId → Eval Value} {id : NodeId}
    (hspan : ∃ span, spanOf id m = .ok span m) (h : ev id m = .ok (.int v) n) (usage : String)
    (otherwise : Number) : loopNumber ev (some id) usage otherwise m = .ok (.int v) n := by
  obtain ⟨span, hspan⟩ := hspan
  unfold loopNumber
  dsimp only
  rw [bind_of_ok hspan, bind_of_ok h]
  rfl

theorem countTo_of_bounds (hk : k ≠ 0)
    (h : l.Bounds run m a b k afterLast afterFirst afterStep)
    (hspans : l.Spanned m afterLast afterFirst) :
    countTo (fun id => run (.node id)) (rounds + 1) l.parts (.int b) span
        (afterLast.inChildOf afterLast.context.scope) =
      l.count (run (.node l.body)) b k span (rounds + 1) a (start a b k span afterStep) := by
  have hzero : (Number.int k).isZero = false := by simp [Number.isZero, hk]
  unfold countTo
  change (loopNumber _ (some l.first) _ _ >>= _) _ = _
  rw [bind_of_ok (loopNumber_of_int hspans.first h.first _ _)]
  change (loopNumber _ (some l.step) _ _ >>= _) _ = _
  rw [bind_of_ok (loopNumber_of_int hspans.step h.step _ _), hzero, if_neg Bool.false_ne_true]
  unfold start
  by_cases hbeyond : ShortOf a.toInt k.toInt b.toInt
  · have hend : ¬ShortOf b.toInt k.toInt a.toInt := by
      unfold ShortOf at hbeyond ⊢
      split at hbeyond <;> simp only [*, if_true, if_false] <;> omega
    rw [if_pos ((order?_swap hk).mpr hbeyond), if_pos hbeyond, count_of_not hk hend]
    rfl
  · rw [if_neg fun horder => hbeyond ((order?_swap hk).mp horder), if_neg hbeyond]
    rfl

theorem evalIterate_of_bounds (hk : k ≠ 0)
    (h : l.Bounds run m a b k afterLast afterFirst afterStep)
    (hspans : l.Spanned m afterLast afterFirst) :
    evalIterate (fun id => run (.node id)) (rounds + 1) l.parts span m =
      leaving afterLast.context.scope
        (l.count (run (.node l.body)) b k span (rounds + 1) a (start a b k span afterStep)) := by
  obtain ⟨lastSpan, hlast⟩ := hspans.last
  unfold evalIterate
  change (spanOf l.last >>= _) m = _
  rw [bind_of_ok hlast]
  change (run (.node l.last) >>= _) m = _
  rw [bind_of_ok h.last, ← countTo_of_bounds hk h hspans]
  exact inNewScope_eq (countTo (fun id => run (.node id)) (rounds + 1) l.parts (.int b) span)
    afterLast

theorem runTask_node {id : NodeId}
    (hnode : m.context.script.arena.node? id = some ⟨l.expr, span⟩) :
    runTask run rounds (.node id) m =
      evalIterate (fun id => run (.node id)) rounds l.parts span m := by
  have hread : Eval.node id m = .ok ⟨l.expr, span⟩ m := by
    unfold Eval.node
    rw [hnode]
  unfold runTask
  dsimp only
  rw [bind_of_ok hread]
  rfl

/-- The result of a loop whose body has a run for each of its numbers. -/
theorem runTask_of_rounds (hk : k ≠ 0) {id : NodeId}
    (hnode : m.context.script.arena.node? id = some ⟨l.expr, span⟩)
    (h : l.Bounds run m a b k afterLast afterFirst afterStep)
    (hspans : l.Spanned m afterLast afterFirst)
    (hruns : l.Rounds (run (.node l.body)) runs (start a b k span afterStep) n)
    (hvalues : runs.map (·.1) = counted a b k) (hrounds : runs.length < rounds) :
    runTask run rounds (.node id) m =
      if FitsInt64 (a.toInt + runs.length * k.toInt) then
        .ok .null (n.backIn afterLast.context.scope)
      else .error (.fatal (Fault.overflow span "iterate")) (n.backIn afterLast.context.scope) := by
  obtain ⟨rounds, rfl⟩ : ∃ more, rounds = more + 1 := ⟨rounds - 1, by omega⟩
  rw [runTask_node hnode, evalIterate_of_bounds hk h hspans,
    count_of_rounds hk hruns hvalues hrounds]
  split <;> rfl

/-- A node that is evaluated to a value is one of the running script. -/
theorem spanOf_of_eval {level : Nat} {id : NodeId} {value : Value}
    (h : eval level (.node id) m = .ok value n) : ∃ span, spanOf id m = .ok span m := by
  cases level with
  | zero => cases h
  | succ level =>
    rw [Simulation.eval_succ, runTask, bind_apply] at h
    unfold spanOf
    rw [bind_apply]
    unfold Eval.node at h ⊢
    cases hnode : m.context.script.arena.node? id with
    | some node => exact ⟨node.span, rfl⟩
    | none =>
      rw [hnode] at h
      cases h

theorem Bounds.spanned {level : Nat}
    (h : l.Bounds (eval level) m a b k afterLast afterFirst afterStep) :
    l.Spanned m afterLast afterFirst :=
  ⟨spanOf_of_eval h.last, spanOf_of_eval h.first, spanOf_of_eval h.step⟩

/-- What is done in a loop: its end, its start and its step are found, and its body runs. -/
def doneIn (l : CountingLoop) (m afterLast afterFirst : Machine)
    (runs : List (Int64 × Machine)) : List (Task × Machine) :=
  (.node l.last, m) :: (.node l.first, afterLast.inChildOf afterLast.context.scope) ::
    (.node l.step, afterFirst) :: runs.map fun r => (.node l.body, r.2)

/-- A loop counts from `a` to `b` in steps of `k`, with levels for all of its runs. Each time its
body ends normally or in a `continue` for the loop, and leaves the counter alone. -/
structure Undisturbed (l : CountingLoop) (level : Nat) (id : NodeId) (span : Span) (m : Machine)
    (a b k : Int64) (afterLast afterFirst afterStep : Machine) : Prop where
  node : m.context.script.arena.node? id = some ⟨l.expr, span⟩
  bounds : l.Bounds (eval level) m a b k afterLast afterFirst afterStep
  nonzero : k ≠ 0
  levels : roundCount a.toInt b.toInt k.toInt < level
  body : ∀ runs n v rest,
    l.Rounds (eval level (.node l.body)) runs (start a b k span afterStep) n →
    counted a b k = runs.map (·.1) ++ v :: rest →
    ∃ next, l.Round (eval level (.node l.body)) v n next

/-- An undisturbed loop has a run for each of its numbers. Its result is the same for every
evaluator with which it has the same bounds and runs. -/
theorem Undisturbed.exists_runs {level : Nat} {id : NodeId}
    (h : l.Undisturbed level id span m a b k afterLast afterFirst afterStep) :
    ∃ runs n, l.Rounds (eval level (.node l.body)) runs (start a b k span afterStep) n ∧
      runs.map (·.1) = counted a b k ∧
      ∀ run, l.Bounds run m a b k afterLast afterFirst afterStep →
        l.Rounds (run (.node l.body)) runs (start a b k span afterStep) n →
        runTask run level (.node id) m =
          if FitsInt64 (a.toInt + roundCount a.toInt b.toInt k.toInt * k.toInt) then
            .ok .null (n.backIn afterLast.context.scope)
          else
            .error (.fatal (Fault.overflow span "iterate")) (n.backIn afterLast.context.scope) := by
  obtain ⟨runs, n, hruns, hvalues⟩ := exists_rounds h.body
  have hlength := length_of_counted hvalues
  refine ⟨runs, n, hruns, hvalues, fun run hbounds hothers => ?_⟩
  rw [← hlength]
  exact runTask_of_rounds h.nonzero h.node hbounds h.bounds.spanned hothers hvalues
    (hlength ▸ h.levels)

theorem exits_loopNumber {ev : NodeId → Eval Value} {id : NodeId} {status : Int}
    (hspan : ∃ span, spanOf id m = .ok span m) (h : Exits (ev id) status m) (usage : String)
    (otherwise : Number) : Exits (loopNumber ev (some id) usage otherwise) status m :=
  .behind hspan.choose_spec (h.bind _)

theorem exits_evalIterate {status : Int} (hlast : run (.node l.last) m = .ok (.int b) afterLast)
    (hspans : l.Spanned m afterLast afterFirst)
    (h : Exits (countTo (fun id => run (.node id)) rounds l.parts (.int b) span) status
      (afterLast.inChildOf afterLast.context.scope)) :
    Exits (evalIterate (fun id => run (.node id)) rounds l.parts span) status m :=
  .behind hspans.last.choose_spec (.behind hlast h.inNewScope)

/-- All that is listed is done on the way: where it exits, so does the loop. -/
theorem Undisturbed.comesTo {level : Nat} {id : NodeId}
    (h : l.Undisturbed level id span m a b k afterLast afterFirst afterStep)
    (hruns : l.Rounds (eval level (.node l.body)) runs (start a b k span afterStep) n)
    (hvalues : runs.map (·.1) = counted a b k) {inner : Task} {x : Machine}
    (hmem : (inner, x) ∈ l.doneIn m afterLast afterFirst runs) :
    ComesTo (eval level) level (.node id) m inner x := by
  intro other hother status hexits
  have hspans := h.bounds.spanned
  suffices hloop : Exits (evalIterate (fun id => other (.node id)) level l.parts span) status m by
    obtain ⟨z, hz⟩ := hloop
    exact ⟨z, (runTask_node h.node).trans hz⟩
  by_cases hatLast : Task.node l.last = inner ∧ m = x
  · obtain ⟨rfl, rfl⟩ := hatLast
    exact .behind hspans.last.choose_spec (hexits.bind _)
  have hlast := (hother _ _ hatLast).trans h.bounds.last
  by_cases hatFirst : Task.node l.first = inner ∧ afterLast.inChildOf afterLast.context.scope = x
  · obtain ⟨rfl, rfl⟩ := hatFirst
    exact exits_evalIterate hlast hspans ((exits_loopNumber hspans.first hexits _ _).bind _)
  have hfirst := (hother _ _ hatFirst).trans h.bounds.first
  by_cases hatStep : Task.node l.step = inner ∧ afterFirst = x
  · obtain ⟨rfl, rfl⟩ := hatStep
    exact exits_evalIterate hlast hspans (.behind (loopNumber_of_int hspans.first hfirst _ _)
      ((exits_loopNumber hspans.step hexits _ _).bind _))
  have hstep := (hother _ _ hatStep).trans h.bounds.step
  -- The bounds are found as before, so what is listed is a run of the body.
  simp only [doneIn, List.mem_cons, Prod.mk.injEq] at hmem
  obtain ⟨r, hr, heq⟩ : ∃ r ∈ runs, (Task.node l.body, r.2) = (inner, x) := by
    rcases hmem with heq | heq | heq | hbody
    · exact absurd ⟨heq.1.symm, heq.2.symm⟩ hatLast
    · exact absurd ⟨heq.1.symm, heq.2.symm⟩ hatFirst
    · exact absurd ⟨heq.1.symm, heq.2.symm⟩ hatStep
    · exact List.mem_map.mp hbody
  cases heq
  have hlength := length_of_counted hvalues
  obtain ⟨more, hmore⟩ : ∃ more, level = more + 1 := ⟨level - 1, by have := h.levels; omega⟩
  obtain ⟨z, hz⟩ := exits_count h.nonzero
    (fun y hy => hother (.node l.body) y fun hpoint => hy hpoint.2) hexits hruns ⟨r, hr, rfl⟩
    hvalues (hlength ▸ h.levels)
  exact ⟨z.backIn afterLast.context.scope, by
    rw [hmore] at hz ⊢
    rw [evalIterate_of_bounds h.nonzero ⟨hlast, hfirst, hstep⟩ hspans, hz]
    rfl⟩

/-- An undisturbed loop runs its body for the start, the number one step on, and so on, once for
each number that is short of the end, and does nothing else. Then it ends with null if the number
behind the last one is an int. Otherwise going on to that number is an overflow. -/
theorem loop_counts {level : Nat} {id : NodeId}
    (h : l.Undisturbed level id span m a b k afterLast afterFirst afterStep) :
    (∀ j : Nat, j < roundCount a.toInt b.toInt k.toInt ↔
      if 0 < k.toInt then a.toInt + j * k.toInt < b.toInt else b.toInt < a.toInt + j * k.toInt) ∧
    (counted a b k).map Int64.toInt =
      (List.range (roundCount a.toInt b.toInt k.toInt)).map (fun j : Nat =>
        a.toInt + j * k.toInt) ∧
    ∃ runs n, l.Rounds (eval level (.node l.body)) runs (start a b k span afterStep) n ∧
      runs.map (·.1) = counted a b k ∧
      (∀ inner x, Consults (eval level) level (.node id) m inner x ↔
        (inner, x) ∈ l.doneIn m afterLast afterFirst runs) ∧
      eval (level + 1) (.node id) m =
        if FitsInt64 (a.toInt + roundCount a.toInt b.toInt k.toInt * k.toInt) then
          .ok .null (n.backIn afterLast.context.scope)
        else
          .error (.fatal (Fault.overflow span "iterate")) (n.backIn afterLast.context.scope) := by
  obtain ⟨runs, n, hruns, hvalues, hresult⟩ := h.exists_runs
  have heval := hresult (eval level) h.bounds hruns
  refine ⟨lt_roundCount_iff (toInt_ne_zero h.nonzero), toInt_counted h.nonzero, runs, n, hruns,
    hvalues, fun inner x => ⟨fun hconsults => by_contra fun hout => ?_,
      fun hmem => (h.comesTo hruns hvalues hmem).consults⟩,
    (Simulation.eval_succ level _ m).trans heval⟩
  -- Done in another way at a point that is not listed, the loop would end in the same way.
  obtain ⟨other, hsame, hdiffers⟩ := hconsults
  have hdone : ∀ point ∈ l.doneIn m afterLast afterFirst runs,
      eval level point.1 point.2 = other point.1 point.2 :=
    fun point hmem => hsame _ _ fun hpoint => hout (hpoint.1 ▸ hpoint.2 ▸ hmem)
  obtain ⟨hlast, hdone⟩ := List.forall_mem_cons.mp hdone
  obtain ⟨hfirst, hdone⟩ := List.forall_mem_cons.mp hdone
  obtain ⟨hstep, hdone⟩ := List.forall_mem_cons.mp hdone
  have hbounds : l.Bounds other m a b k afterLast afterFirst afterStep :=
    ⟨hlast ▸ h.bounds.last, hfirst ▸ h.bounds.first, hstep ▸ h.bounds.step⟩
  have hothers : l.Rounds (other (.node l.body)) runs (start a b k span afterStep) n :=
    hruns.congr fun r hr => hdone (.node l.body, r.2) (List.mem_map_of_mem hr)
  exact hdiffers (heval.trans (hresult other hbounds hothers).symm)

/-! ### Loops without statements -/

/-- A script that is `iterate first to last step step :: i { }`. -/
def emptyLoop (first last step : Int64) : Script where
  source := ⟨"", ""⟩
  arena :=
    { nodes := #[⟨.int first, {}⟩, ⟨.int last, {}⟩, ⟨.int step, {}⟩, ⟨.block ⟨0, 0⟩, {}⟩,
        ⟨.iterate none (some ⟨0⟩) ⟨1⟩ (some ⟨2⟩) (some ⟨0⟩) ⟨3⟩, {}⟩] }
  root := ⟨4⟩

def standing (script : Script) : Machine where
  context := ⟨.root, script, 0, CallStack.empty none⟩
  scopes := .initial
  names := .empty
  console := default
  host := ⟨fun _ => none, [], true⟩
  logging := true
  notices := #[]
  nextId := 0

def emptyParts : CountingLoop := ⟨none, ⟨0⟩, ⟨1⟩, ⟨2⟩, ⟨0⟩, ⟨3⟩⟩

def inLoop (first last step : Int64) : Machine :=
  (standing (emptyLoop first last step)).inChildOf .root

/-- The machine after a run of a block without statements, whose scope is left behind. -/
def passed (m : Machine) (v : Int64) : Machine :=
  { m.counting ⟨0⟩ v with scopes := ((m.counting ⟨0⟩ v).scopes.child m.context.scope).2 }

/-- A loop down from 5 runs for 5 and 2, and ends before -1. -/
theorem loop_counts_down :
    emptyParts.Undisturbed 3 ⟨4⟩ {} (standing (emptyLoop 5 0 (-3))) 5 0 (-3)
        (standing (emptyLoop 5 0 (-3))) (inLoop 5 0 (-3)) (inLoop 5 0 (-3)) ∧
      ∃ n, eval 4 (.node ⟨4⟩) (standing (emptyLoop 5 0 (-3))) = .ok .null n := by
  have hcounted : counted 5 0 (-3) = [5, 2] := by decide
  have hstart : start 5 0 (-3) {} (inLoop 5 0 (-3)) = inLoop 5 0 (-3) := if_neg (by decide)
  have hfive : emptyParts.Round (eval 3 (.node ⟨3⟩)) 5 (inLoop 5 0 (-3))
      (passed (inLoop 5 0 (-3)) 5) := ⟨.inl ⟨.null, rfl⟩, rfl⟩
  have htwo : emptyParts.Round (eval 3 (.node ⟨3⟩)) 2 (passed (inLoop 5 0 (-3)) 5)
      (passed (passed (inLoop 5 0 (-3)) 5) 2) := ⟨.inl ⟨.null, rfl⟩, rfl⟩
  have h : emptyParts.Undisturbed 3 ⟨4⟩ {} (standing (emptyLoop 5 0 (-3))) 5 0 (-3)
      (standing (emptyLoop 5 0 (-3))) (inLoop 5 0 (-3)) (inLoop 5 0 (-3)) := by
    refine ⟨rfl, ⟨rfl, rfl, rfl⟩, by decide, by decide, fun runs n v rest hruns hvalues => ?_⟩
    rw [hstart] at hruns
    exact (Rounds.next hfive (.next htwo (.none _))).exists_next hruns (hcounted.symm.trans hvalues)
  obtain ⟨-, -, _, n, -, -, -, heval⟩ := loop_counts h
  exact ⟨h, _, heval.trans (if_pos (by decide))⟩

/-- A loop by steps of 2 runs for the int before the greatest one and then overflows. -/
theorem last_step_overflows :
    ¬∀ (l : CountingLoop) (level : Nat) (id : NodeId) (span : Span) (m : Machine) (a b k : Int64)
      (afterLast afterFirst afterStep : Machine),
      l.Undisturbed level id span m a b k afterLast afterFirst afterStep →
      ∃ n, eval (level + 1) (.node id) m = .ok .null n := by
  intro hends
  let a : Int64 := 9223372036854775806
  let b : Int64 := 9223372036854775807
  have hcounted : counted a b 2 = [a] := by decide
  have hstart : start a b 2 {} (inLoop a b 2) = inLoop a b 2 := if_neg (by decide)
  have honly : emptyParts.Round (eval 3 (.node ⟨3⟩)) a (inLoop a b 2) (passed (inLoop a b 2) a) :=
    ⟨.inl ⟨.null, rfl⟩, rfl⟩
  have h : emptyParts.Undisturbed 3 ⟨4⟩ {} (standing (emptyLoop a b 2)) a b 2
      (standing (emptyLoop a b 2)) (inLoop a b 2) (inLoop a b 2) := by
    refine ⟨rfl, ⟨rfl, rfl, rfl⟩, by decide, by decide, fun runs n v rest hruns hvalues => ?_⟩
    rw [hstart] at hruns
    exact (Rounds.next honly (.none _)).exists_next hruns (hcounted.symm.trans hvalues)
  obtain ⟨_, heval⟩ := hends emptyParts 3 ⟨4⟩ {} _ a b 2 _ _ _ h
  obtain ⟨_, _, hruns, -, hresult⟩ := h.exists_runs
  rw [Simulation.eval_succ, hresult (eval 3) h.bounds hruns, if_neg (by decide)] at heval
  cases heval

end CountingLoop
end Eval
end ExprScript
