import ExprScript.Proofs.Parser.Success
import ExprScript.Proofs.Tree.Syntax

/-!
# Reading expressions

The parser of each level of precedence reads the tokens of a tree of that level, if no operator
follows that binds as tightly. A chain of operands is read from its left: what is to the left of its
last operator is what the repetition has reached when it comes to that operator.
-/
namespace ExprScript

/-- The level of the operator that a token behind an expression begins. Assignments count as the
loosest. -/
def TokenKind.level? : TokenKind → Option Nat
  | .mark .question | .mark (.assign _ _) => some 0
  | .keyword .and | .keyword .or => some 1
  | .mark .equal | .mark .notEqual | .mark (.order _) => some 2
  | .mark (.arith .add) | .mark (.arith .sub) => some 3
  | .mark (.arith .mul) | .mark (.arith .div) | .mark (.arith .floorDiv) | .mark (.arith .mod) =>
    some 4
  | .mark (.arith .pow) => some 6
  | .mark (.opening .paren) | .mark (.opening .square) | .mark .dot | .keyword .asWord => some 7
  | _ => none

/-- Whether a token behind an expression is no operator of a level, and none that binds tighter. -/
def TokenKind.Stops (kind : TokenKind) (level : Nat) : Prop :=
  ∀ other, kind.level? = some other → other < level

/-- Whether an expression may begin with a token; one that binds tighter than a sign has none. -/
def TokenKind.Begins (level : Nat) : TokenKind → Prop
  | .int _ | .str _ | .ident _ | .mark (.opening .paren) | .mark (.opening .square) => True
  | .mark (.arith .add) | .mark (.arith .sub) | .mark .not => level ≤ 5
  | _ => False

theorem TokenKind.Stops.mono {kind : TokenKind} {level place : Nat} (h : kind.Stops level)
    (hle : level ≤ place) : kind.Stops place :=
  fun other hother => Nat.lt_of_lt_of_le (h other hother) hle

/-- How tokens of an expression begin. A second token is no assignment. -/
structure BeginsAt (level : Nat) (kinds : List TokenKind) : Prop where
  first : ∃ kind more, kinds = kind :: more ∧ kind.Begins level
  second : ∀ kind op yields more, kinds ≠ kind :: .mark (.assign op yields) :: more

theorem BeginsAt.mono {level place : Nat} {kinds : List TokenKind} (h : BeginsAt place kinds)
    (hle : level ≤ place) :
    BeginsAt level kinds := by
  obtain ⟨kind, more, hkinds, hkind⟩ := h.first
  refine ⟨⟨kind, more, hkinds, ?_⟩, h.second⟩
  unfold TokenKind.Begins at hkind ⊢
  split at hkind <;> first | trivial | exact Nat.le_trans hle hkind

theorem TokenKind.Stops.isMark {kind : TokenKind} {mark : Mark} {level other : Nat}
    (h : kind.Stops level) (hmark : (TokenKind.mark mark).level? = some other)
    (hle : level ≤ other) : kind.isMark mark = false := by
  cases hkind : kind.isMark mark with
  | false => rfl
  | true =>
    have hmark' : kind = .mark mark := by
      cases kind <;> simp_all [TokenKind.isMark, TokenKind.mark?]
    rw [hmark'] at h
    exact absurd (h other hmark) (Nat.not_lt.mpr hle)

theorem TokenKind.Begins.isMark {kind : TokenKind} {mark : Mark} (h : kind.Begins 0)
    (hmark : ¬(TokenKind.mark mark).Begins 0) : kind.isMark mark = false := by
  cases hkind : kind.isMark mark with
  | false => rfl
  | true =>
    have hmark' : kind = .mark mark := by
      cases kind <;> simp_all [TokenKind.isMark, TokenKind.mark?]
    exact absurd (hmark' ▸ h) hmark

theorem TokenKind.Begins.isKeyword {kind : TokenKind} {level : Nat} (h : kind.Begins level)
    (word : Keyword) : kind.isKeyword word = false := by
  cases kind with
  | keyword other => exact h.elim
  | _ => rfl

theorem TokenKind.Begins.signOp? {kind : TokenKind} (h : kind.Begins 6) :
    Parser.signOp? kind = none := by
  unfold Parser.signOp?
  split <;> first | rfl | exact absurd h (Nat.not_succ_le_self 5)

/-! ## Tokens of given kinds -/

def Spelled : List TokenKind → List Token → List Token → Prop
  | [], rest, ahead => ahead = rest
  | kind :: kinds, rest, ahead =>
    ∃ token more, ahead = token :: more ∧ token.kind = kind ∧ Spelled kinds rest more

theorem Spelled.split {first last : List TokenKind} {rest ahead : List Token}
    (h : Spelled (first ++ last) rest ahead) :
    ∃ mid, Spelled first mid ahead ∧ Spelled last rest mid := by
  induction first generalizing ahead with
  | nil => exact ⟨ahead, rfl, h⟩
  | cons kind first ih =>
    obtain ⟨token, more, hahead, hkind, hmore⟩ := h
    obtain ⟨mid, hfirst, hlast⟩ := ih hmore
    exact ⟨mid, ⟨token, more, hahead, hkind, hfirst⟩, hlast⟩

theorem Spelled.length {kinds : List TokenKind} {rest ahead : List Token}
    (h : Spelled kinds rest ahead) : ahead.length = kinds.length + rest.length := by
  induction kinds generalizing ahead with
  | nil =>
    obtain rfl : ahead = rest := h
    simp
  | cons kind kinds ih =>
    obtain ⟨token, more, rfl, -, hmore⟩ := h
    simp [ih hmore]
    omega

theorem Spelled.firstKind {kind : TokenKind} {kinds : List TokenKind} {rest ahead : List Token}
    (h : Spelled (kind :: kinds) rest ahead) : firstKind ahead = kind := by
  obtain ⟨token, more, rfl, hkind, -⟩ := h
  exact hkind

theorem spelled_of_map {kinds : List TokenKind} {tokens rest : List Token}
    (h : tokens.map (·.kind) = kinds) : Spelled kinds rest (tokens ++ rest) := by
  induction tokens generalizing kinds with
  | nil =>
    subst h
    rfl
  | cons token tokens ih =>
    subst h
    exact ⟨token, tokens ++ rest, rfl, rfl, ih rfl⟩

namespace Parser

def levelParser : Nat → Grammar → Parser NodeId
  | 0 => ternary
  | 1 => logical
  | 2 => comparison
  | 3 => sum
  | 4 => product
  | 5 => factor
  | 6 => power
  | _ => suffixed

/-- With enough levels of nesting and rounds, tokens of the given kinds are ahead in front of a rest
that stops a level. -/
structure Facing (n : Nat) (c : ParseContext) (s : ParseState) (kinds : List TokenKind)
    (rest : List Token) (level : Nat) : Prop where
  spelled : Spelled kinds rest s.ahead
  nesting : kinds.length ≤ n
  rounds : s.ahead.length ≤ c.rounds
  stops : (firstKind rest).Stops level

theorem Facing.deeper {n level : Nat} {c : ParseContext} {s : ParseState} {kinds : List TokenKind}
    {rest : List Token} (h : Facing n c s kinds rest level) :
    Facing (n + 1) c s kinds rest level :=
  { h with nesting := Nat.le_succ_of_le h.nesting }

/-- Behind its first token there is room for one level of nesting less. -/
theorem Facing.head {n level : Nat} {c : ParseContext} {s : ParseState} {kind : TokenKind}
    {kinds : List TokenKind} {rest : List Token} (h : Facing n c s (kind :: kinds) rest level) :
    ∃ m token more, n = m + 1 ∧ s.ahead = token :: more ∧ token.kind = kind ∧
      ∀ t, t.ahead = more → Facing m c t kinds rest level := by
  obtain ⟨token, more, hahead, hkind, hmore⟩ := h.spelled
  have hnesting := h.nesting
  have hrounds := h.rounds
  rw [List.length_cons] at hnesting
  rw [hahead, List.length_cons] at hrounds
  obtain ⟨m, rfl⟩ := Nat.exists_eq_succ_of_ne_zero (n := n) (by omega)
  refine ⟨m, token, more, rfl, hahead, hkind, fun t ht => ?_⟩
  exact ⟨ht ▸ hmore, by omega, by rw [ht]; omega, h.stops⟩

/-- First tokens stand in front of a token that stops them. -/
theorem Facing.split {n level place : Nat} {c : ParseContext} {s : ParseState} {kind : TokenKind}
    {first last : List TokenKind} {rest : List Token}
    (h : Facing n c s (first ++ kind :: last) rest level) (hkind : kind.Stops place) :
    ∃ mid, Facing n c s first mid place ∧
      ∀ t, t.ahead = mid → Facing n c t (kind :: last) rest level := by
  obtain ⟨mid, hfirst, hlast⟩ := h.spelled.split
  have hnesting := h.nesting
  have hrounds := h.rounds
  have hlength := hfirst.length
  rw [List.length_append] at hnesting
  refine ⟨mid, ⟨hfirst, by omega, hrounds, ?_⟩, fun t ht => ?_⟩
  · rw [hlast.firstKind]
    exact hkind
  · exact ⟨ht ▸ hlast, by omega, by rw [ht]; omega, h.stops⟩

/-- A parser reads tokens as a tree, if what follows stops a level. -/
def Reads (p : Grammar → Parser NodeId) (level : Nat) (kinds : List TokenKind)
    (tree : SyntaxTree) : Prop :=
  ∀ n c s rest, Facing n c s kinds rest level →
    Succeeds (p (grammar n)) c s rest fun b id => b.Denotes id tree

/-- From the operand that tokens begin with a repetition reaches a node for the tree. What it does
from there decides how it ends. -/
def Reaches (operand : Grammar → Parser NodeId)
    (step : Grammar → NodeId → Parser (NodeId ⊕ NodeId)) (level : Nat) (kinds : List TokenKind)
    (tree : SyntaxTree) : Prop :=
  ∀ n c s mid rest (H : Arena → NodeId → Prop), Facing n c s kinds mid (level + 1) →
    (∀ id t steps before, t.ahead = mid → s.arena ≤ t.arena → t.arena.Denotes id tree →
      mid.length < steps → Succeeds (loop (step (grammar n)) steps before id) c t rest H) →
    Succeeds (operand (grammar n) >>= repeating (step (grammar n))) c s rest H

variable {operand : Grammar → Parser NodeId}
  {step : Grammar → NodeId → Parser (NodeId ⊕ NodeId)} {level : Nat}
  {kinds first last : List TokenKind} {tree left right : SyntaxTree}

theorem Reads.reaches (h : Reads operand (level + 1) kinds tree) :
    Reaches operand step level kinds tree := by
  intro n c s mid rest H hfacing hrest
  refine (h n c s mid hfacing).bind fun id t hahead hst hid => ?_
  have hlength := hfacing.spelled.length
  have hrounds := hfacing.rounds
  exact hrest id t (c.rounds + 1) false hahead hst hid (by omega)

theorem Reaches.more {kind : TokenKind} (h : Reaches operand step level first left)
    (hstops : kind.Stops (level + 1))
    (hround : ∀ n c s rest id, Facing n c s (kind :: last) rest (level + 1) →
      s.arena.Denotes id left → Succeeds (step (grammar n) id) c s rest
        fun b r => ∃ next, r = .inl next ∧ b.Denotes next tree) :
    Reaches operand step level (first ++ kind :: last) tree := by
  intro n c s mid rest H hfacing hrest
  obtain ⟨between, hfirst, hlast⟩ := hfacing.split hstops
  refine h n c s between rest H hfirst fun id t steps before hahead hst hid hsteps => ?_
  have hlonger := (hlast t hahead).spelled.length
  rw [hahead, List.length_cons] at hlonger
  obtain ⟨steps, rfl⟩ := Nat.exists_eq_succ_of_ne_zero (Nat.ne_of_gt (Nat.zero_lt_of_lt hsteps))
  refine (hround n c t mid id (hlast t hahead) hid).again fun next u after hmid htu hnext => ?_
  exact hrest next u steps after hmid (hst.trans htu) hnext (by omega)

theorem Reaches.reads (h : Reaches operand step level kinds tree)
    (hstop : ∀ n c s id, s.kind.Stops level →
      step (grammar n) id c s = .done false (.inr id) s) :
    Reads (fun g => operand g >>= repeating (step g)) level kinds tree := by
  intro n c s rest hfacing
  refine h n c s rest rest _ { hfacing with stops := hfacing.stops.mono (Nat.le_succ _) } ?_
  intro id t steps before hahead hst hid hsteps
  obtain ⟨steps, rfl⟩ := Nat.exists_eq_succ_of_ne_zero (Nat.ne_of_gt (Nat.zero_lt_of_lt hsteps))
  have hkind : t.kind.Stops level := by
    rw [ParseState.kind, hahead]
    exact hfacing.stops
  exact .stop ⟨false, .inr id, t, hstop n c t id hkind, ⟨hahead, rfl⟩, le_refl _, id, rfl, hid⟩

/-! ## Levels -/

theorem grammar_succ (n : Nat) (place : Place) :
    grammar (n + 1) place = production (grammar n) place := by
  funext c s
  simp [grammar]

theorem current_eq {c : ParseContext} {s : ParseState} :
    current c s = .done false (s.ahead.headD eofToken) s := rfl

theorem logicalOp?_of_stops {kind : TokenKind} (h : kind.Stops 1) : logicalOp? kind = none := by
  unfold logicalOp?
  split <;> first | rfl | exact absurd (h _ rfl) (Nat.lt_irrefl _)

theorem comparisonOp?_of_stops {kind : TokenKind} (h : kind.Stops 2) :
    comparisonOp? kind = none := by
  unfold comparisonOp?
  split <;> first | rfl | exact absurd (h _ rfl) (Nat.lt_irrefl _)

theorem sumOp?_of_stops {kind : TokenKind} (h : kind.Stops 3) : sumOp? kind = none := by
  unfold sumOp?
  split <;> first | rfl | exact absurd (h _ rfl) (Nat.lt_irrefl _)

theorem productOp?_of_stops {kind : TokenKind} (h : kind.Stops 4) : productOp? kind = none := by
  unfold productOp?
  split <;> first | rfl | exact absurd (h _ rfl) (Nat.lt_irrefl _)

theorem nextOperand_of_none {p : Parser NodeId} {operator? : TokenKind → Option BinaryOp}
    {left : NodeId} {c : ParseContext} {s : ParseState} (h : operator? s.kind = none) :
    nextOperand p operator? left c s = .done false (.inr left) s := by
  unfold ParseState.kind at h
  rw [nextOperand, bind_of_done current_eq, h]
  rfl

theorem nextPostfix_of_stops {g : Grammar} {target : NodeId} {c : ParseContext} {s : ParseState}
    (h : s.kind.Stops 7) : nextPostfix g target c s = .done false (.inr target) s := by
  unfold ParseState.kind at h
  rw [nextPostfix, bind_of_done current_eq]
  generalize (s.ahead.headD eofToken).kind = kind at h
  split <;> first | rfl | exact absurd (h _ rfl) (Nat.lt_irrefl _)

def operandParser : Nat → Grammar → Parser NodeId
  | 1 => negation
  | 2 => sum
  | 3 => product
  | 4 => factor
  | _ => atom

def operatorOf : Nat → TokenKind → Option BinaryOp
  | 1 => logicalOp?
  | 2 => comparisonOp?
  | 3 => sumOp?
  | _ => productOp?

def stepParser : Nat → Grammar → NodeId → Parser (NodeId ⊕ NodeId)
  | 7, g => nextPostfix g
  | level, g => nextOperand (operandParser level g) (operatorOf level)

def IsChain (level : Nat) : Prop := level ∈ [1, 2, 3, 4, 7]

theorem stepParser_of_stops (hlevel : IsChain level) {g : Grammar} {c : ParseContext}
    {s : ParseState} {id : NodeId} (h : s.kind.Stops level) :
    stepParser level g id c s = .done false (.inr id) s := by
  simp only [IsChain, List.mem_cons, List.not_mem_nil, or_false] at hlevel
  rcases hlevel with rfl | rfl | rfl | rfl | rfl
  · exact nextOperand_of_none (logicalOp?_of_stops h)
  · exact nextOperand_of_none (comparisonOp?_of_stops h)
  · exact nextOperand_of_none (sumOp?_of_stops h)
  · exact nextOperand_of_none (productOp?_of_stops h)
  · exact nextPostfix_of_stops h

theorem levelParser_chain (hlevel : IsChain level) :
    levelParser level = fun g => operandParser level g >>= repeating (stepParser level g) := by
  simp only [IsChain, List.mem_cons, List.not_mem_nil, or_false] at hlevel
  rcases hlevel with rfl | rfl | rfl | rfl | rfl <;> rfl

structure ReadsAt (level : Nat) (kinds : List TokenKind) (tree : SyntaxTree) : Prop where
  begins : BeginsAt level kinds
  reads : Reads (levelParser level) level kinds tree
  reaches : IsChain level → Reaches (operandParser level) (stepParser level) level kinds tree

theorem ReadsAt.of_reaches (hbegins : BeginsAt level kinds) (hlevel : IsChain level)
    (h : Reaches (operandParser level) (stepParser level) level kinds tree) :
    ReadsAt level kinds tree where
  begins := hbegins
  reads := by
    rw [levelParser_chain hlevel]
    exact h.reads fun _ _ _ _ => stepParser_of_stops hlevel
  reaches _ := h

theorem ReadsAt.of_operand (hbegins : BeginsAt level kinds) (hlevel : IsChain level)
    (h : Reads (operandParser level) (level + 1) kinds tree) : ReadsAt level kinds tree :=
  .of_reaches hbegins hlevel h.reaches

theorem Facing.begins {n : Nat} {c : ParseContext} {s : ParseState} {rest : List Token}
    {place : Nat}
    (h : Facing n c s kinds rest level) (hbegins : BeginsAt place kinds) : s.kind.Begins place := by
  obtain ⟨kind, more, rfl, hkind⟩ := hbegins.first
  have hfirst : s.kind = kind := h.spelled.firstKind
  rwa [hfirst]

/-- What a level reads is an operand of the next looser one, if that is a chain of operands. -/
theorem ReadsAt.readsOperand (h : ReadsAt (level + 1) kinds tree) (hpos : 0 < level)
    (hlevel : level ≤ 4) :
    Reads (operandParser level) (level + 1) kinds tree := by
  match level with
  | 1 =>
    intro n c s rest hfacing
    refine .look (checkKeyword_eq .not) ?_
    rw [(hfacing.begins h.begins).isKeyword .not]
    exact h.reads n c s rest hfacing
  | 2 => exact h.reads
  | 3 => exact h.reads
  | 4 => exact h.reads

/-- What a level reads the next looser one reads, if no operator of its own follows. -/
theorem ReadsAt.pred (h : ReadsAt (level + 1) kinds tree) (hlevel : level < 7) :
    ReadsAt level kinds tree := by
  have hbegins := h.begins.mono (Nat.le_succ level)
  have hreads := h.reads
  have hloose : ∀ n c s rest, Facing n c s kinds rest level →
      Succeeds (levelParser (level + 1) (grammar n)) c s rest fun b id => b.Denotes id tree :=
    fun n c s rest hfacing =>
      hreads n c s rest { hfacing with stops := hfacing.stops.mono (Nat.le_succ level) }
  match level with
  | 0 =>
    refine ⟨hbegins, fun n c s rest hfacing => ?_, fun hchain => by simp [IsChain] at hchain⟩
    refine (hloose n c s rest hfacing).bind fun id t hahead _ hid => ?_
    refine .eatNot ?_ (.pure hid hahead)
    rw [ParseState.kind, hahead]
    exact hfacing.stops.isMark rfl (Nat.le_refl 0)
  | 1 => exact .of_operand hbegins (by simp [IsChain]) (h.readsOperand (by decide) (by decide))
  | 2 => exact .of_operand hbegins (by simp [IsChain]) (h.readsOperand (by decide) (by decide))
  | 3 => exact .of_operand hbegins (by simp [IsChain]) (h.readsOperand (by decide) (by decide))
  | 4 => exact .of_operand hbegins (by simp [IsChain]) (h.readsOperand (by decide) (by decide))
  | 5 =>
    refine ⟨hbegins, fun n c s rest hfacing => ?_, fun hchain => by simp [IsChain] at hchain⟩
    have hkind := hfacing.begins h.begins
    refine .look current_eq ?_
    have hsign : signOp? s.kind = none := hkind.signOp?
    unfold ParseState.kind at hsign
    rw [hsign]
    exact hloose n c s rest hfacing
  | 6 =>
    refine ⟨hbegins, fun n c s rest hfacing => ?_, fun hchain => by simp [IsChain] at hchain⟩
    refine (hloose n c s rest hfacing).bind fun id t hahead _ hid => ?_
    refine .eatNot ?_ (.pure hid hahead)
    rw [ParseState.kind, hahead]
    exact hfacing.stops.isMark rfl (Nat.le_refl 6)

theorem ReadsAt.looser {place : Nat} (h : ReadsAt level kinds tree) (hle : place ≤ level)
    (hlevel : level ≤ 7) : ReadsAt place kinds tree := by
  induction level with
  | zero => exact Nat.le_zero.mp hle ▸ h
  | succ level ih =>
    rcases Nat.le_succ_iff.mp hle with hle | rfl
    · exact ih (h.pred (by omega)) hle (by omega)
    · exact h

end Parser
end ExprScript
