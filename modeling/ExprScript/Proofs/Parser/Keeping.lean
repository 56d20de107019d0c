import ExprScript.Proofs.Parser.Running
import ExprScript.Proofs.Text.Spans
import ExprScript.Proofs.Tree.Ownership
import Mathlib.Order.Basic

/-!
# What parsers keep

A parser is given some nodes that nobody owns yet, and hands back a value that carries all of them
and those it has stored itself, each of them once. Where it fails some are lost, but the arena stays
well formed. All spans that it reads, stores and reports lie in a set that is closed under what
parsers do with spans.
-/
namespace ExprScript

/-- A fault points at a span of a set, and a list that is too long is longer than a run can be. -/
def ParseFailure.Told (P : Span → Prop) : ParseFailure → Prop
  | .fault d => d.PointsAt P
  | .tooLong count => maxRunLength < count
  | .exhausted => True

/-- An arena with nodes that nobody owns yet, all of whose spans lie in a set. -/
structure Arena.Keeps (P : Span → Prop) (held : List NodeId) (arena : Arena) : Prop where
  holds : arena.Holds held
  nodes : ∀ node ∈ arena.nodes, P node.span
  args : ∀ arg ∈ arena.args, P arg.span
  params : ∀ param ∈ arena.params, P param.span

structure ParseState.Keeps (P : Span → Prop) (held : List NodeId) (s : ParseState) : Prop where
  arena : s.arena.Keeps P held
  ahead : ∀ token ∈ s.ahead, P token.span
  previous : ∀ span ∈ s.previous, P span
  warnings : ∀ d ∈ s.warnings, d.PointsAt P

theorem ParseState.Keeps.perm {P : Span → Prop} {s : ParseState} {held held' : List NodeId}
    (h : s.Keeps P held) (hperm : held.Perm held') : s.Keeps P held' :=
  { h with arena := { h.arena with holds := h.arena.holds.perm hperm } }

/-- The nodes that a value carries, and whether its spans lie in a set. -/
class Carries (α : Type) where
  nodes : α → List NodeId := fun _ => []
  Within : (Span → Prop) → α → Prop := fun _ _ => True

open Carries

section
variable {α β : Type} [Carries α] [Carries β]

instance : Carries Unit := {}
instance : Carries Bool := {}
instance : Carries String := {}
instance : Carries Name := {}
instance : Carries TokenKind := {}
instance : Carries ParseContext := {}
instance : Carries NodeId := { nodes := fun id => [id] }
instance : Carries Span := { Within := id }
instance : Carries Token := { Within := fun P token => P token.span }
instance : Carries Diagnostic := { Within := Diagnostic.PointsAt }
instance : Carries Argument where
  nodes arg := [arg.value]
  Within P arg := P arg.span
instance : Carries Parameter where
  nodes param := param.default.toList
  Within P param := P param.span
instance : Carries IndexSpec := { nodes := IndexSpec.nodes }
instance : Carries Branch := { nodes := fun branch => [branch.condition, branch.body] }
instance : Carries CaseArm := { nodes := fun arm => [arm.pattern, arm.body] }
instance : Carries (List α) where
  nodes values := values.flatMap nodes
  Within P values := ∀ value ∈ values, Within P value
instance : Carries (Option α) where
  nodes value := value.toList.flatMap nodes
  Within P value := ∀ inner ∈ value, Within P inner
instance : Carries (α × β) where
  nodes pair := nodes pair.1 ++ nodes pair.2
  Within P pair := Within P pair.1 ∧ Within P pair.2
instance : Carries (α ⊕ β) where
  nodes := Sum.elim nodes nodes
  Within P := Sum.elim (Within P) (Within P)

end

namespace Parser

variable {α β σ : Type} {P : Span → Prop} {a b : Arena} {held rest frame : List NodeId}
  {s t u : ParseState} {taken more : Bool}

/-! ## Replies -/

/-- The arena has grown, and tokens are gone only if the reply says that some were taken. -/
structure Onward (taken : Bool) (s t : ParseState) : Prop where
  grows : s.arena ≤ t.arena
  unmoved : taken = false → t.ahead = s.ahead

theorem Onward.refl (s : ParseState) : Onward taken s s := ⟨le_refl _, fun _ => rfl⟩

theorem Onward.trans (hst : Onward taken s t) (htu : Onward more t u) :
    Onward (taken || more) s u := by
  refine ⟨hst.grows.trans htu.grows, fun h => ?_⟩
  obtain ⟨hfirst, hnext⟩ := Bool.or_eq_false_iff.mp h
  exact (htu.unmoved hnext).trans (hst.unmoved hfirst)

/-- A value stands for nodes as it should, which are in place of those given to the parser; a
failure loses some, and a fault points at one of the spans. -/
def Kept (P : Span → Prop) (frame : List NodeId) (G : ParseState → α → List NodeId → Prop)
    (s : ParseState) : ParseReply α → Prop
  | .done taken v t => Onward taken s t ∧ ∃ ids, G t v ids ∧ t.Keeps P (ids ++ frame)
  | .failed taken e t => Onward taken s t ∧ e.Told P ∧ ∃ lost, t.Keeps P (lost ++ frame)

/-- The parser takes over the nodes `held`, in an arena at least as large as the given one. -/
def Keeps (P : Span → Prop) (a : Arena) (held : List NodeId)
    (G : ParseState → α → List NodeId → Prop) (p : Parser α) : Prop :=
  ∀ c s frame, a ≤ s.arena → s.Keeps P (held ++ frame) → Kept P frame G s (p c s)

/-- The value carries all nodes itself. -/
def Whole [Carries α] (P : Span → Prop) (_ : ParseState) (v : α) (ids : List NodeId) : Prop :=
  ids = nodes v ∧ Within P v

abbrev Hands [Carries α] (P : Span → Prop) (a : Arena) (held : List NodeId) (p : Parser α) : Prop :=
  Keeps P a held (Whole P) p

def Looks [Carries α] (P : Span → Prop) (p : Parser α) : Prop :=
  ∀ a, Keeps P a [] (fun _ v ids => ids = [] ∧ Within P v) p

variable {G : ParseState → α → List NodeId → Prop} {H : ParseState → β → List NodeId → Prop}
  {p : Parser α} {f : α → Parser β} {c : ParseContext}

theorem Kept.after {reply : ParseReply α} (h : Kept P frame G t reply) (hst : Onward taken s t) :
    Kept P frame G s (reply.after taken) := by
  cases reply with
  | done more v u => exact ⟨hst.trans h.1, h.2⟩
  | failed more e u => exact ⟨hst.trans h.1, h.2⟩

theorem Kept.bind (hp : Kept P (rest ++ frame) G s (p c s))
    (hf : ∀ taken v ids t, p c s = .done taken v t → Onward taken s t → G t v ids →
      t.Keeps P (ids ++ (rest ++ frame)) → Kept P frame H t (f v c t)) :
    Kept P frame H s ((p >>= f) c s) := by
  cases hrun : p c s with
  | failed taken e t =>
    rw [hrun] at hp
    rw [bind_of_failed hrun]
    obtain ⟨honward, htold, lost, hlost⟩ := hp
    exact ⟨honward, htold, lost ++ rest, by rwa [List.append_assoc]⟩
  | done taken v t =>
    rw [hrun] at hp
    rw [bind_of_done hrun]
    obtain ⟨honward, ids, hids, ht⟩ := hp
    exact (hf taken v ids t hrun honward hids ht).after honward

theorem Kept.mono {G' : ParseState → α → List NodeId → Prop} {reply : ParseReply α}
    (h : Kept P frame G s reply) (hG : ∀ t v ids, G t v ids → G' t v ids) :
    Kept P frame G' s reply := by
  cases reply with
  | failed taken e t => exact h
  | done taken v t =>
    obtain ⟨honward, ids, hids, ht⟩ := h
    exact ⟨honward, ids, hG _ _ _ hids, ht⟩

/-! ## Parsers -/

theorem Keeps.bind (hp : Keeps P a held G p)
    (hf : ∀ t v ids, a ≤ t.arena → G t v ids → Keeps P t.arena (ids ++ rest) H (f v)) :
    Keeps P a (held ++ rest) H (p >>= f) := by
  intro c s frame has hs
  rw [List.append_assoc] at hs
  refine (hp c s (rest ++ frame) has hs).bind fun taken v ids t _ hst hids ht => ?_
  rw [← List.append_assoc] at ht
  exact hf t v ids (has.trans hst.grows) hids c t frame (le_refl _) ht

theorem Hands.bind [Carries α] (hp : Hands P a held p)
    (hf : ∀ b v, a ≤ b → Within P v → Keeps P b (nodes v ++ rest) H (f v)) :
    Keeps P a (held ++ rest) H (p >>= f) :=
  Keeps.bind hp fun t v ids hat hids => by
    obtain ⟨rfl, hv⟩ := hids
    exact hf t.arena v hat hv

/-- A parser that is given no nodes is no matter to the nodes that are held. -/
theorem Hands.beside [Carries α] (rest : List NodeId) (hp : Hands P a [] p)
    (hf : ∀ b v, a ≤ b → Within P v → Keeps P b (nodes v ++ rest) H (f v)) :
    Keeps P a rest H (p >>= f) :=
  Hands.bind hp hf

theorem Looks.then [Carries α] (hp : Looks P p) (hf : ∀ v, Within P v → Keeps P a held H (f v)) :
    Keeps P a held H (p >>= f) :=
  Keeps.bind (hp a) fun t v ids hat hids c s frame hts hs => by
    obtain ⟨rfl, hv⟩ := hids
    exact hf v hv c s frame (hat.trans hts) hs

theorem Keeps.perm {held' : List NodeId} (h : Keeps P a held' G p) (hperm : held.Perm held') :
    Keeps P a held G p :=
  fun c s frame has hs => h c s frame has (hs.perm (hperm.append_right frame))

theorem Keeps.ite {condition : Prop} [Decidable condition] {q : Parser α}
    (hp : Keeps P a held G p) (hq : Keeps P a held G q) :
    Keeps P a held G (if condition then p else q) := by
  split
  · exact hp
  · exact hq

theorem Keeps.pure {v : α} (h : ∀ t, a ≤ t.arena → G t v held) :
    Keeps P a held G (Pure.pure v) :=
  fun _ s _ has hs => ⟨.refl s, held, h s has, hs⟩

theorem Hands.pure [Carries α] {v : α} (hperm : held.Perm (nodes v)) (hv : Within P v) :
    Hands P a held (Pure.pure v) :=
  Keeps.perm (Keeps.pure fun _ _ => ⟨rfl, hv⟩) hperm

theorem Hands.map [Carries α] [Carries β] {f : α → β} (hp : Hands P a held p)
    (hnodes : ∀ v, nodes (f v) = nodes v) (hwithin : ∀ v, Within P v → Within P (f v)) :
    Hands P a held (f <$> p) := by
  have hbind : Hands P a (held ++ []) (p >>= fun v => Pure.pure (f v)) :=
    Hands.bind hp fun b v _ hv => by
      rw [List.append_nil, ← hnodes]
      exact Hands.pure (.refl _) (hwithin v hv)
  rw [List.append_nil] at hbind
  exact hbind

theorem Keeps.fault {d : Diagnostic} (hd : d.PointsAt P) :
    Keeps P a held G (Parser.fail (.fault d) : Parser α) :=
  fun _ s _ _ hs => ⟨.refl s, hd, held, hs⟩

theorem Keeps.withLoops {change : List (Option Name) → List (Option Name)}
    (hp : Keeps P a held G p) : Keeps P a held G (Parser.withLoops change p) :=
  fun c s frame has hs => hp { c with loops := change c.loops } s frame has hs

/-- What a round of a repetition leaves: a state that carries all nodes, or the result. -/
def Rounds [Carries σ] (P : Span → Prop) (G : ParseState → α → List NodeId → Prop)
    (t : ParseState) : σ ⊕ α → List NodeId → Prop
  | .inl next, ids => Whole P t next ids
  | .inr result, ids => G t result ids

theorem Keeps.repeating [Carries σ] {step : σ → Parser (σ ⊕ α)} (start : σ)
    (hstart : Within P start)
    (hstep : ∀ b v, a ≤ b → Within P v → Keeps P b (nodes v) (Rounds P G) (step v)) :
    Keeps P a (nodes start) G (Parser.repeating step start) := by
  intro c s frame has hs
  suffices h : ∀ steps before t v, Onward before s t → Within P v →
      t.Keeps P (nodes v ++ frame) → Kept P frame G s (Parser.loop step steps before v c t) from
    h (c.rounds + 1) false s start (.refl s) hstart hs
  intro steps
  induction steps with
  | zero => exact fun before t v hst _ ht => ⟨hst, trivial, _, ht⟩
  | succ steps ih =>
    intro before t v hst hv ht
    have hround := hstep t.arena v (has.trans hst.grows) hv c t frame (le_refl _) ht
    rw [loop_succ]
    cases hrun : step v c t with
    | failed more e u =>
      rw [hrun] at hround
      exact ⟨hst.trans hround.1, hround.2⟩
    | done more r u =>
      rw [hrun] at hround
      obtain ⟨honward, ids, hids, hu⟩ := hround
      cases r with
      | inr result => exact ⟨hst.trans honward, ids, hids, hu⟩
      | inl next =>
        obtain ⟨rfl, hnext⟩ := hids
        exact ih (before || more) u next (hst.trans honward) hnext hu

theorem Hands.repeating [Carries σ] [Carries α] {step : σ → Parser (σ ⊕ α)} (start : σ)
    (hstart : Within P start)
    (hstep : ∀ b v, a ≤ b → Within P v → Hands P b (nodes v) (step v)) :
    Hands P a (nodes start) (Parser.repeating step start) :=
  Keeps.repeating start hstart fun b v hab hv c s frame hbs hs =>
    (hstep b v hab hv c s frame hbs hs).mono fun t r ids hids => by
      cases r <;> exact hids

/-! ## Storing -/

/-- A list of children is stored before the node that they belong to. -/
theorem Keeps.store {table : Arena → Array α} {put : Arena → Array α → Arena} {items : List α}
    {f : Run α → Parser β}
    (hput : ∀ b, b ≤ put b (table b ++ items.toArray) ∧
      table (put b (table b ++ items.toArray)) = table b ++ items.toArray ∧
      (put b (table b ++ items.toArray)).nodes = b.nodes)
    (hargs : ∀ b, (∀ arg ∈ b.args, P arg.span) →
      ∀ arg ∈ (put b (table b ++ items.toArray)).args, P arg.span)
    (hparams : ∀ b, (∀ param ∈ b.params, P param.span) →
      ∀ param ∈ (put b (table b ++ items.toArray)).params, P param.span)
    (hf : ∀ b run, a ≤ b → run.entries? (table b) = some items → Keeps P b held H (f run)) :
    Keeps P a held H (Parser.store table put items >>= f) := by
  intro c s frame has hs
  by_cases hlength : items.length ≤ maxRunLength
  · obtain ⟨hgrows, htable, hnodes⟩ := hput s.arena
    have hstore : Parser.store table put items c s =
        .done false (appendRun (table s.arena) items).1
          { s with arena := put s.arena (table s.arena ++ items.toArray) } := by
      simp [Parser.store, hlength, appendRun]
    have hrun : (appendRun (table s.arena) items).1.entries?
        (table (put s.arena (table s.arena ++ items.toArray))) = some items := by
      rw [htable]
      exact entries?_appendRun ..
    have hkeeps : ParseState.Keeps P (held ++ frame)
        { s with arena := put s.arena (table s.arena ++ items.toArray) } :=
      { hs with
        arena := ⟨hs.arena.holds.tables hgrows hnodes, hnodes ▸ hs.arena.nodes,
          hargs _ hs.arena.args, hparams _ hs.arena.params⟩ }
    have hrest := hf _ _ (has.trans hgrows) hrun c _ frame (le_refl _) hkeeps
    rw [bind_of_done hstore]
    exact hrest.after ⟨hgrows, fun _ => rfl⟩
  · have hstore : Parser.store table put items c s = .failed false (.tooLong items.length) s := by
      simp [Parser.store, hlength]
    rw [bind_of_failed hstore]
    exact ⟨.refl s, Nat.lt_of_not_le hlength, held, hs⟩

theorem Keeps.storeList {items : List NodeId} {f : Run NodeId → Parser β}
    (hf : ∀ b run, a ≤ b → run.entries? b.lists = some items → Keeps P b held H (f run)) :
    Keeps P a held H (Parser.storeList items >>= f) :=
  .store (fun _ => ⟨by constructor <;> simp, rfl, rfl⟩) (fun _ h => h) (fun _ h => h) hf

theorem Keeps.storeSpecs {items : List IndexSpec} {f : Run IndexSpec → Parser β}
    (hf : ∀ b run, a ≤ b → run.entries? b.specs = some items → Keeps P b held H (f run)) :
    Keeps P a held H (Parser.storeSpecs items >>= f) :=
  .store (fun _ => ⟨by constructor <;> simp, rfl, rfl⟩) (fun _ h => h) (fun _ h => h) hf

theorem Keeps.storeBranches {items : List Branch} {f : Run Branch → Parser β}
    (hf : ∀ b run, a ≤ b → run.entries? b.branches = some items → Keeps P b held H (f run)) :
    Keeps P a held H (Parser.storeBranches items >>= f) :=
  .store (fun _ => ⟨by constructor <;> simp, rfl, rfl⟩) (fun _ h => h) (fun _ h => h) hf

theorem Keeps.storeArms {items : List CaseArm} {f : Run CaseArm → Parser β}
    (hf : ∀ b run, a ≤ b → run.entries? b.arms = some items → Keeps P b held H (f run)) :
    Keeps P a held H (Parser.storeArms items >>= f) :=
  .store (fun _ => ⟨by constructor <;> simp, rfl, rfl⟩) (fun _ h => h) (fun _ h => h) hf

theorem Keeps.storeParams {items : List Parameter} {f : Run Parameter → Parser β}
    (hitems : Within P items)
    (hf : ∀ b run, a ≤ b → run.entries? b.params = some items → Keeps P b held H (f run)) :
    Keeps P a held H (Parser.storeParams items >>= f) := by
  refine .store (fun _ => ⟨by constructor <;> simp, rfl, rfl⟩) (fun _ h => h) ?_ hf
  intro b hb param hparam
  rcases Array.mem_append.mp hparam with hparam | hparam
  · exact hb param hparam
  · exact hitems param (by simpa using hparam)

theorem Keeps.storeArgs {items : List Argument} {f : Run Argument → Parser β}
    (hitems : Within P items)
    (hf : ∀ b run, a ≤ b → run.entries? b.args = some items → Keeps P b held H (f run)) :
    Keeps P a held H (Parser.storeArgs items >>= f) := by
  refine .store (fun _ => ⟨by constructor <;> simp, rfl, rfl⟩) ?_ (fun _ h => h) hf
  intro b hb arg harg
  rcases Array.mem_append.mp harg with harg | harg
  · exact hb arg harg
  · exact hitems arg (by simpa using harg)

theorem hands_node {expr : Expr} {span : Span} (ids : List NodeId)
    (hids : expr.children? a = some ids) (hperm : held.Perm ids) (hspan : P span) :
    Hands P a held (Parser.node expr span) := by
  intro c s frame has hs
  have hstored := hs.arena.holds.push (Expr.children?_mono has hids)
    (hperm.append_right frame) span
  refine ⟨⟨s.arena.le_push _, fun _ => rfl⟩, _, ⟨rfl, trivial⟩, ?_⟩
  refine { hs with arena := ⟨hstored, fun node hnode => ?_, hs.arena.args, hs.arena.params⟩ }
  rcases Array.mem_push.mp hnode with hnode | rfl
  · exact hs.arena.nodes node hnode
  · exact hspan

/-! ## Looks -/

theorem Looks.of_same [Carries α] (h : ∀ c s held, s.Keeps P held →
    ∃ v, p c s = .done false v s ∧ Within P v) : Looks P p := by
  intro a c s frame _ hs
  obtain ⟨v, hrun, hv⟩ := h c s frame hs
  rw [hrun]
  exact ⟨.refl s, [], ⟨rfl, hv⟩, hs⟩

theorem Looks.bind [Carries α] [Carries β] (hp : Looks P p)
    (hf : ∀ v, Within P v → Looks P (f v)) : Looks P (p >>= f) :=
  fun a => hp.then fun v hv => hf v hv a

theorem Looks.pure [Carries α] {v : α} (hv : Within P v) : Looks P (Pure.pure v) :=
  fun _ => Keeps.pure fun _ _ => ⟨rfl, hv⟩

theorem looks_context : Looks P context := .of_same fun c _ _ _ => ⟨c, rfl, trivial⟩

theorem looks_peek : Looks P peek := by
  intro a c s frame _ hs
  unfold peek
  split <;> exact ⟨.refl s, [], ⟨rfl, trivial⟩, hs⟩

theorem looks_pastNewlines : Looks P pastNewlines := .of_same fun _ _ _ _ => ⟨_, rfl, trivial⟩

theorem looks_check (mark : Mark) : Looks P (check mark) :=
  .of_same fun _ _ _ _ => ⟨_, rfl, trivial⟩

theorem looks_checkKeyword (word : Keyword) : Looks P (checkKeyword word) :=
  .of_same fun _ _ _ _ => ⟨_, rfl, trivial⟩

theorem looks_isBoolCast (id : NodeId) : Looks P (isBoolCast id) :=
  .of_same fun _ _ _ _ => ⟨_, rfl, trivial⟩

theorem looks_textOf (name : Name) : Looks P (textOf name) :=
  .of_same fun _ _ _ _ => ⟨_, rfl, trivial⟩

theorem looks_describeCurrent : Looks P describeCurrent :=
  .of_same fun _ _ _ _ => ⟨_, rfl, trivial⟩

theorem looks_warn (code : Code) {span : Span} (hspan : P span) (args : List String) :
    Looks P (warn code span args) := by
  intro a c s frame _ hs
  refine ⟨⟨le_refl _, fun _ => rfl⟩, [], ⟨rfl, trivial⟩, { hs with warnings := fun d hd => ?_ }⟩
  rcases Array.mem_push.mp hd with hd | rfl
  · exact hs.warnings d hd
  · exact ⟨hspan, rfl⟩

section
variable (hP : Span.Closed P)
include hP

theorem within_current (hs : s.Keeps P held) : P (s.ahead.headD eofToken).span := by
  cases hahead : s.ahead with
  | nil => exact hP.none
  | cons token rest => exact hs.ahead token (hahead ▸ List.mem_cons_self)

theorem looks_current : Looks P current :=
  .of_same fun _ _ _ hs => ⟨_, rfl, within_current hP hs⟩

theorem looks_currentSpan : Looks P currentSpan :=
  .of_same fun _ _ _ hs => ⟨_, rfl, within_current hP hs⟩

theorem looks_atBoundary : Looks P atBoundary := by
  refine (looks_current hP).bind fun token _ => ?_
  split <;> exact .pure trivial

theorem looks_previousSpan : Looks P previousSpan := by
  refine .of_same fun _ s _ hs => ⟨_, rfl, ?_⟩
  cases hprevious : s.previous with
  | none => exact hP.point _ (within_current hP hs)
  | some span => exact hs.previous span hprevious

theorem looks_spanFrom {start : Span} (hstart : P start) : Looks P (spanFrom start) :=
  (looks_previousSpan hP).bind fun last hlast => .pure (hP.merge start last hstart hlast)

theorem looks_spanOf (id : NodeId) : Looks P (spanOf id) := by
  refine .of_same fun _ s _ hs => ⟨_, rfl, ?_⟩
  change P (s.arena.spanOf id)
  unfold Arena.spanOf
  split
  next node hnode => exact hs.arena.nodes node (Array.mem_of_getElem? hnode)
  next => exact hP.none

theorem looks_advance : Looks P advance := by
  intro a c s frame _ hs
  by_cases hkind : s.kind.Takable
  · cases hahead : s.ahead with
    | nil =>
      rw [ParseState.kind, hahead] at hkind
      cases hkind
    | cons token rest =>
      have htokens := hs.ahead
      rw [ParseState.kind_of_ahead hahead] at hkind
      rw [hahead] at htokens
      rw [advance_of_ahead hahead hkind]
      have htoken : P token.span := htokens token List.mem_cons_self
      refine ⟨⟨le_refl _, fun h => (by cases h)⟩, [], ⟨rfl, htoken⟩, ?_⟩
      exact { hs with
        ahead := fun token htoken => htokens token (List.mem_cons_of_mem _ htoken)
        previous := fun span hspan => by cases hspan; exact htoken }
  · rw [advance_of_not hkind]
    exact ⟨.refl s, [], ⟨rfl, within_current hP hs⟩, hs⟩

theorem looks_eat (mark : Mark) : Looks P (eat mark) :=
  (looks_check mark).bind fun _ _ => by
    split
    · exact (looks_advance hP).bind fun _ _ => .pure trivial
    · exact .pure trivial

theorem looks_eatKeyword (word : Keyword) : Looks P (eatKeyword word) :=
  (looks_checkKeyword word).bind fun _ _ => by
    split
    · exact (looks_advance hP).bind fun _ _ => .pure trivial
    · exact .pure trivial

theorem looks_skipNewlines : Looks P skipNewlines := by
  intro a
  change Keeps P a (nodes ()) _ (Parser.repeating _ ())
  refine .repeating () trivial fun b v _ _ => (looks_eat hP .newline).then fun taken _ => ?_
  split
  · exact .pure fun _ _ => ⟨rfl, trivial⟩
  · exact .pure fun _ _ => ⟨rfl, trivial⟩

theorem keeps_failFound (code : Code) : Keeps P a held G (failFound code : Parser α) :=
  (looks_currentSpan hP).then fun _ hspan => looks_describeCurrent.then fun _ _ =>
    .fault ⟨hspan, rfl⟩

theorem keeps_failExpected (what : String) : Keeps P a held G (failExpected what : Parser α) :=
  looks_describeCurrent.then fun _ _ => (looks_currentSpan hP).then fun _ hspan =>
    .fault ⟨hspan, rfl⟩

theorem looks_identifier (code : Code) : Looks P (identifier code) := by
  refine (looks_current hP).bind fun token _ => ?_
  split
  · exact (looks_advance hP).bind fun _ _ => .pure trivial
  · exact fun _ => keeps_failFound hP code

/-- What is missing is reported where it was expected, or where its opener is. -/
theorem looks_expectCloser (bracket : Bracket) {opened : Span} (hopened : P opened)
    {stopped : Option Diagnostic} (hstopped : Within P stopped) :
    Looks P (expectCloser bracket opened stopped) := by
  refine (looks_skipNewlines hP).bind fun _ _ => (looks_check _).bind fun _ _ => ?_
  split
  · exact (looks_advance hP).bind fun token htoken => .pure htoken
  · refine (looks_check _).bind fun _ _ => ?_
    split
    · exact fun _ => .fault ⟨hopened, rfl⟩
    · split
      · exact fun _ => .fault (hstopped _ rfl)
      · exact fun _ => keeps_failExpected hP _

end

end Parser
end ExprScript
