import ExprScript.Proofs.Parser.Building

/-!
# Stored nodes

A node is stored as a formed one if its parts are formed for the loops around it. What is said of
the parts still holds when more is stored behind them.
-/
namespace ExprScript

abbrev Parsed (loops : Loops) (arena : Arena) (id : NodeId) : Prop :=
  Formed arena (fun loops => loops) loops id

abbrev Expr.Parsed (loops : Loops) (arena : Arena) (expr : Expr) : Prop :=
  expr.Formed arena (fun loops => loops) loops

namespace Parser

variable {α : Type} {loops : Loops} {a : Arena}

/-! ## Storing -/

theorem Builds.node {expr : Expr} (h : expr.Parsed loops a) (span : Span) :
    Builds loops a (Parsed loops) (Parser.node expr span) := by
  intro c s _ hs
  obtain ⟨hsignal, parts, hparts, hall⟩ := h
  exact ⟨s.arena.le_push _, formed_push ⟨hsignal, parts, Expr.parts?_mono hs hparts,
    fun part hpart => (hall part hpart).mono hs⟩ span⟩

theorem Builds.store {table : Arena → Array α} {put : Arena → Array α → Arena} (items : List α)
    (hput : ∀ b, b ≤ put b (table b ++ items.toArray) ∧
      table (put b (table b ++ items.toArray)) = table b ++ items.toArray) :
    Builds loops a (fun b run => run.entries? (table b) = some items)
      (Parser.store table put items) := by
  intro c s _ _
  unfold Parser.store
  split
  · refine ⟨(hput s.arena).1, ?_⟩
    dsimp only [appendRun]
    rw [(hput s.arena).2]
    exact entries?_appendRun (table s.arena) items
  · exact le_refl s.arena

theorem builds_storeList (items : List NodeId) :
    Builds loops a (fun b run => run.entries? b.lists = some items) (storeList items) :=
  .store items fun _ => ⟨by constructor <;> simp, rfl⟩

theorem builds_storeSpecs (items : List IndexSpec) :
    Builds loops a (fun b run => run.entries? b.specs = some items) (storeSpecs items) :=
  .store items fun _ => ⟨by constructor <;> simp, rfl⟩

theorem builds_storeBranches (items : List Branch) :
    Builds loops a (fun b run => run.entries? b.branches = some items) (storeBranches items) :=
  .store items fun _ => ⟨by constructor <;> simp, rfl⟩

theorem builds_storeArms (items : List CaseArm) :
    Builds loops a (fun b run => run.entries? b.arms = some items) (storeArms items) :=
  .store items fun _ => ⟨by constructor <;> simp, rfl⟩

theorem builds_storeParams (items : List Parameter) :
    Builds loops a (fun b run => run.entries? b.params = some items) (storeParams items) :=
  .store items fun _ => ⟨by constructor <;> simp, rfl⟩

theorem builds_storeArgs (items : List Argument) :
    Builds loops a (fun b run => run.entries? b.args = some items) (storeArgs items) :=
  .store items fun _ => ⟨by constructor <;> simp, rfl⟩

theorem parsed_beside {expr : Expr} {ids : List NodeId}
    (hparts : expr.parts? a = some (beside ids)) (hsignal : expr.signal? = none)
    (h : ∀ id ∈ ids, Parsed loops a id) : expr.Parsed loops a := by
  refine ⟨fun signal hsome => ?_, beside ids, hparts, fun part hpart => ?_⟩
  · rw [hsignal] at hsome
    cases hsome
  · obtain ⟨id, hid, rfl⟩ := List.mem_map.mp hpart
    exact h id hid

theorem parsed_one {expr : Expr} {id : NodeId} (hparts : expr.parts? a = some (beside [id]))
    (hsignal : expr.signal? = none) (hid : Parsed loops a id) : expr.Parsed loops a := by
  refine parsed_beside hparts hsignal fun part hpart => ?_
  rw [List.mem_singleton.mp hpart]
  exact hid

/-! ## Optional parts and lists of parts -/

abbrev ParsedOption (loops : Loops) (arena : Arena) (id : Option NodeId) : Prop :=
  ∀ part ∈ id, Parsed loops arena part

abbrev ParsedList (loops : Loops) (arena : Arena) (ids : List NodeId) : Prop :=
  ∀ part ∈ ids, Parsed loops arena part

theorem parsedOption_none : ParsedOption loops a none := fun _ h => by cases h

theorem parsedOption_some {id : NodeId} (hid : Parsed loops a id) :
    ParsedOption loops a (some id) := fun part h => by
  cases h
  exact hid

theorem ParsedOption.mono {b : Arena} (hab : a ≤ b) {id : Option NodeId}
    (hid : ParsedOption loops a id) : ParsedOption loops b id :=
  fun part hpart => (hid part hpart).mono hab

theorem ParsedList.mono {b : Arena} (hab : a ≤ b) {ids : List NodeId}
    (hids : ParsedList loops a ids) : ParsedList loops b ids :=
  fun part hpart => (hids part hpart).mono hab

theorem builds_some {p : Parser NodeId} (hp : Builds loops a (Parsed loops) p) :
    Builds loops a (ParsedOption loops) (do return some (← p)) :=
  hp.bind fun _ _ _ hid => .pure fun _ hbc => parsedOption_some (hid.mono hbc)

theorem builds_none : Builds loops a (ParsedOption loops) (Pure.pure none) :=
  .pure fun _ _ => parsedOption_none

/-! ## Groups of parts -/

structure ParsedBranch (loops : Loops) (arena : Arena) (branch : Branch) : Prop where
  condition : Parsed loops arena branch.condition
  body : Parsed loops arena branch.body

structure ParsedArm (loops : Loops) (arena : Arena) (arm : CaseArm) : Prop where
  pattern : Parsed loops arena arm.pattern
  body : Parsed loops arena arm.body

theorem ParsedBranch.mono {b : Arena} (hab : a ≤ b) {branch : Branch}
    (h : ParsedBranch loops a branch) : ParsedBranch loops b branch :=
  ⟨h.condition.mono hab, h.body.mono hab⟩

theorem ParsedBranch.of_mem {branch : Branch} (h : ParsedBranch loops a branch) {id : NodeId}
    (hid : id ∈ [branch.condition, branch.body]) : Parsed loops a id := by
  rcases List.mem_cons.mp hid with rfl | hid
  · exact h.condition
  · rw [List.mem_singleton.mp hid]
    exact h.body

theorem ParsedArm.mono {b : Arena} (hab : a ≤ b) {arm : CaseArm} (h : ParsedArm loops a arm) :
    ParsedArm loops b arm :=
  ⟨h.pattern.mono hab, h.body.mono hab⟩

theorem ParsedArm.of_mem {arm : CaseArm} (h : ParsedArm loops a arm) {id : NodeId}
    (hid : id ∈ [arm.pattern, arm.body]) : Parsed loops a id := by
  rcases List.mem_cons.mp hid with rfl | hid
  · exact h.pattern
  · rw [List.mem_singleton.mp hid]
    exact h.body

/-! ## Lists between brackets -/

theorem builds_commaRound {G : Arena → α → Prop} {item : Parser α}
    (hitem : ∀ b, Builds loops b G item) (hG : ∀ b c v, b ≤ c → G b v → G c v)
    (closing : Bracket) {before : List α} (hbefore : ∀ v ∈ before, G a v) :
    Builds loops a (Round (fun b before => ∀ v ∈ before, G b v) fun b items => ∀ v ∈ items, G b v)
      (commaRound closing item before) := by
  refine (quiet_check _).then fun _ => (quiet_check .eof).then fun _ => ?_
  split
  · exact .pure fun b hab v hv => hG a b v hab (hbefore v (List.mem_reverse.mp hv))
  · refine (hitem a).bind fun b v hab hv => quiet_skipNewlines.then fun _ => ?_
    have hall : ∀ c, b ≤ c → ∀ w ∈ v :: before, G c w := by
      intro c hbc w hw
      rcases List.mem_cons.mp hw with rfl | hw
      · exact hG b c w hbc hv
      · exact hG a c w (hab.trans hbc) (hbefore w hw)
    refine (quiet_eat _).then fun _ => ?_
    split
    · exact quiet_skipNewlines.then fun _ => .pure fun c hbc => hall c hbc
    · exact .pure fun c hbc w hw => hall c hbc w (List.mem_reverse.mp hw)

theorem builds_commaList {G : Arena → α → Prop} {item : Parser α}
    (hitem : ∀ b, Builds loops b G item) (hG : ∀ b c v, b ≤ c → G b v → G c v)
    (closing : Bracket) :
    Builds loops a (fun b items => ∀ v ∈ items, G b v) (commaList closing item) :=
  quiet_skipNewlines.then fun _ =>
    .repeating (fun b before => ∀ v ∈ before, G b v) (by simp)
      fun b before _ hbefore => builds_commaRound hitem hG closing hbefore

end Parser
end ExprScript
