import ExprScript.Proofs.Parser.Nesting

/-!
# The cursor

A rule is called at a position in a list of tokens. The tag of its outcome, which the rule sets by
itself and those that it calls, is true of the cursor: with a tag of a consumed token the cursor has
moved on, and with any other one it is where it was. It never comes past the end of the input. So
every round of a repetition moves on or is the last one.
-/
namespace ExprScript

/-- A state in front of the token at a position. -/
structure ParseState.At (tokens : List Token) (pos : Nat) (s : ParseState) : Prop where
  lt : pos < tokens.length
  ahead : s.ahead = tokens.drop pos

namespace Parser

theorem Moves.exists_at {tokens : List Token} {pos : Nat} {s t : ParseState} {taken : Bool}
    (h : EndsOnce tokens) (hs : s.At tokens pos) (hst : Moves s taken t) :
    ∃ next, t.At tokens next ∧ (taken = true → pos < next) ∧ (taken = false → next = pos) := by
  obtain ⟨gone, hgone, htaken, hall⟩ := hst
  rw [hs.ahead] at hgone
  have hahead : t.ahead = tokens.drop (pos + gone.length) := by
    rw [← List.drop_drop, hgone, List.drop_left]
  have hne : t.ahead ≠ [] := by
    intro hnil
    obtain ⟨inner, last, rfl, hlast, -⟩ := h
    have hpos : pos ≤ inner.length := by simpa using Nat.le_of_lt_succ (by simpa using hs.lt)
    rw [List.drop_append_of_le_length hpos, hnil, List.append_nil] at hgone
    have hmem : last ∈ gone := by simp [← hgone]
    have htakable := hall last hmem
    rw [hlast] at htakable
    cases htakable
  have hlt : pos + gone.length < tokens.length :=
    Nat.lt_of_not_le fun hle => hne (hahead.trans (List.drop_of_length_le hle))
  refine ⟨pos + gone.length, ⟨hlt, hahead⟩, fun hyes => ?_, fun hno => ?_⟩
  · have hpos := List.length_pos_iff.mpr (htaken.mp hyes)
    omega
  · have hnil : gone = [] := Classical.not_not.mp fun hsome => by
      rw [htaken.mpr hsome] at hno
      cases hno
    simp [hnil]

end Parser

namespace Rule

open ExprScript.Parser

variable {α σ : Type} {tokens : List Token} {pos n : Nat} {c : ParseContext} {s : ParseState}

/-! ## Productions -/

/-- A reply from a position. The tag tells truly where the cursor has come to, and only values that
need no token are given without one. Levels and rounds are not used up. -/
def From (tokens : List Token) (pos : Nat) (needs : α → Prop) : RuleReply α → Prop
  | .ok (.consumedOk _, t) | .ok (.consumedErr _, t) => ∃ next, t.At tokens next ∧ pos < next
  | .ok (.emptyOk v, t) => t.At tokens pos ∧ ¬needs v
  | .ok (.emptyErr _, t) => t.At tokens pos
  | .error why => why ≠ .exhausted

/-- The productions by what they give, with what their callers tell them. -/
inductive Production : Type → Type
  | block : Production NodeId
  | statement : Production NodeId
  | returnStatement : Production NodeId
  | loopControl (keyword : Keyword) (build : Option Name → Option NodeId → Expr) :
    Production NodeId
  | guard : Production (Option NodeId)
  | expr : Production NodeId
  | declaration (type : DeclaredType) : Production NodeId
  | assignment (name : Name) : Production NodeId
  | ternary : Production NodeId
  | logical : Production NodeId
  | negation : Production NodeId
  | comparison : Production NodeId
  | sum : Production NodeId
  | product : Production NodeId
  | factor : Production NodeId
  | power : Production NodeId
  | suffixed : Production NodeId
  | call (callee : NodeId) : Production NodeId
  | index (target : NodeId) : Production NodeId
  | atom : Production NodeId
  | group : Production NodeId
  | listLiteral : Production NodeId
  | conditional : Production NodeId
  | caseOf : Production NodeId
  | labelledLoop : Production NodeId
  | iterate (label : Option Name) (start : Span) : Production NodeId
  | whileLoop (label : Option Name) (start : Span) : Production NodeId
  | loopBody (label : Option Name) : Production NodeId
  | function : Production NodeId
  | parameter : Production Parameter

namespace Production

def rule (g : Rules) : Production α → Rule α
  | .block => Rule.block g
  | .statement => Rule.statement g
  | .returnStatement => Rule.returnStatement g
  | .loopControl keyword build => Rule.loopControl g keyword build
  | .guard => Rule.guard g
  | .expr => Rule.expr g
  | .declaration type => Rule.declaration g type
  | .assignment name => Rule.assignment g name
  | .ternary => Rule.ternary g
  | .logical => Rule.logical g
  | .negation => Rule.negation g
  | .comparison => Rule.comparison g
  | .sum => Rule.sum g
  | .product => Rule.product g
  | .factor => Rule.factor g
  | .power => Rule.power g
  | .suffixed => Rule.suffixed g
  | .call callee => Rule.call g callee
  | .index target => Rule.index g target
  | .atom => Rule.atom g
  | .group => Rule.group g
  | .listLiteral => Rule.listLiteral g
  | .conditional => Rule.conditional g
  | .caseOf => Rule.caseOf g
  | .labelledLoop => Rule.labelledLoop g
  | .iterate label start => Rule.iterate g label start
  | .whileLoop label start => Rule.whileLoop g label start
  | .loopBody label => Rule.loopBody g label
  | .function => Rule.function g
  | .parameter => Rule.parameter g

/-- The states that a production is called in. Some productions take their first token unseen; then
the caller has seen it, and it is not the end of the input. Behind the name that is assigned to, the
caller has seen the operator, too. -/
def CalledAt : Production α → ParseState → Prop
  | .returnStatement | .loopControl .. | .declaration _ | .call _ | .index _ | .group
  | .listLiteral | .conditional | .caseOf | .labelledLoop | .iterate .. | .whileLoop ..
  | .function => fun s => s.kind.Takable
  | .assignment _ => fun s => s.kind.Takable ∧
    ∃ op yields, firstKind s.ahead.tail = .mark (.assign op yields)
  | _ => fun _ => True

/-- The values for which a production takes a token: all but the guard that is not there. -/
def Present : Production α → α → Prop
  | .guard => fun condition => condition.isSome
  | _ => fun _ => True

/-- How many tokens are too many for a production whose nested expressions have so many levels. The
places at which expressions nest have used up one level in front of their first token. -/
def room (level : Nat) : Production α → Nat
  | .block | .statement | .returnStatement | .loopControl .. | .guard | .loopBody _
  | .parameter => level
  | _ => level + 1

end Production

/-- A reply that tells what was measured, which is true of the tokens ahead. -/
def Truly (needs : α → Prop) (s : ParseState) (reply : RuleReply α) : Prop :=
  ∃ measured : ParseReply α, reply = measured.told ∧ Proceeds needs s measured

theorem truly_of_tells {K : TokenKind → Prop} {needs : α → Prop} {r : Rule α} {p : Parser α}
    (h : Tells n K r p) (hp : Advances n K needs p) (hlength : s.ahead.length < n)
    (hrounds : s.ahead.length ≤ c.rounds) (hkind : K s.kind) : Truly needs s (r c s) :=
  ⟨p c s, h c s hlength hrounds hkind, hp c s hlength hrounds hkind⟩

theorem Truly.from {needs : α → Prop} {reply : RuleReply α} (h : EndsOnce tokens)
    (hs : s.At tokens pos) (hreply : Truly needs s reply) : From tokens pos needs reply := by
  obtain ⟨measured, rfl, hmeasured⟩ := hreply
  cases measured with
  | done taken v t =>
    obtain ⟨next, ht, hforward, hstill⟩ := hmeasured.1.exists_at h hs
    cases taken with
    | true => exact ⟨next, ht, hforward rfl⟩
    | false => exact ⟨hstill rfl ▸ ht, fun hneeds => Bool.false_ne_true (hmeasured.2 hneeds)⟩
  | failed taken e t =>
    obtain ⟨next, ht, hforward, hstill⟩ := hmeasured.1.exists_at h hs
    cases e with
    | fault d =>
      cases taken with
      | true => exact ⟨next, ht, hforward rfl⟩
      | false => exact hstill rfl ▸ ht
    | tooLong count => exact fun hwhy => by cases hwhy
    | exhausted => exact absurd rfl hmeasured.2

section
variable {h : Rules} {g : Grammar} (hg : Grammar.Told n h g)
include hg

/-- Every production tells truly what it takes, which is a token for what it gives. -/
theorem Production.truly (p : Production α) (hlength : s.ahead.length < p.room n)
    (hrounds : s.ahead.length ≤ c.rounds) (hcalled : p.CalledAt s) :
    Truly p.Present s (p.rule h c s) := by
  have ht := hg.takes
  cases p with
  | block =>
    exact truly_of_tells (K := fun _ => True) (tells_block hg) (takes_block ht) hlength hrounds
      trivial
  | statement =>
    exact truly_of_tells (tells_statement hg) (takes_statement ht) hlength hrounds hcalled
  | returnStatement =>
    exact truly_of_tells (opens_returnStatement hg).within (takes_returnStatement ht) hlength
      hrounds hcalled
  | loopControl keyword build =>
    exact truly_of_tells (opens_loopControl hg keyword build).within
      (takes_loopControl ht keyword build) hlength hrounds hcalled
  | guard =>
    exact truly_of_tells (K := fun _ => True) (tells_guard hg) (advances_guard ht) hlength hrounds
      trivial
  | expr => exact truly_of_tells (tells_expr hg) (takes_expr ht) hlength hrounds hcalled
  | declaration type =>
    exact truly_of_tells (opens_declaration hg type).tells (takes_declaration ht type) hlength
      hrounds hcalled
  | assignment name =>
    obtain ⟨hkind, op, yields, hpeek⟩ := hcalled
    exact ⟨_, assignment_told hg name hlength hrounds hkind hpeek,
      takes_assignment ht name op yields c s hlength hrounds hkind⟩
  | ternary => exact truly_of_tells (tells_ternary hg) (takes_ternary ht) hlength hrounds hcalled
  | logical => exact truly_of_tells (tells_logical hg) (takes_logical ht) hlength hrounds hcalled
  | negation => exact truly_of_tells (tells_negation hg) (takes_negation ht) hlength hrounds hcalled
  | comparison =>
    exact truly_of_tells (tells_comparison hg) (takes_comparison ht) hlength hrounds hcalled
  | sum => exact truly_of_tells (tells_sum hg) (takes_sum ht) hlength hrounds hcalled
  | product => exact truly_of_tells (tells_product hg) (takes_product ht) hlength hrounds hcalled
  | factor => exact truly_of_tells (tells_factor hg) (takes_factor ht) hlength hrounds hcalled
  | power => exact truly_of_tells (tells_power hg) (takes_power ht) hlength hrounds hcalled
  | suffixed => exact truly_of_tells (tells_suffixed hg) (takes_suffixed ht) hlength hrounds hcalled
  | call callee =>
    exact truly_of_tells (opens_call hg callee).tells (takes_call ht callee) hlength hrounds hcalled
  | index target =>
    exact truly_of_tells (opens_index hg target).tells (takes_index ht target) hlength hrounds
      hcalled
  | atom => exact truly_of_tells (tells_atom hg) (takes_atom ht) hlength hrounds hcalled
  | group => exact truly_of_tells (opens_group hg).tells (takes_group ht) hlength hrounds hcalled
  | listLiteral =>
    exact truly_of_tells (opens_listLiteral hg).tells (takes_listLiteral ht) hlength hrounds hcalled
  | conditional =>
    exact truly_of_tells (opens_conditional hg).tells (takes_conditional ht) hlength hrounds hcalled
  | caseOf => exact truly_of_tells (opens_caseOf hg).tells (takes_caseOf ht) hlength hrounds hcalled
  | labelledLoop =>
    exact truly_of_tells (opens_labelledLoop hg).tells (takes_labelledLoop ht) hlength hrounds
      hcalled
  | iterate label start =>
    exact truly_of_tells (opens_iterate hg label start).tells (takes_iterate ht label start) hlength
      hrounds hcalled
  | whileLoop label start =>
    exact truly_of_tells (opens_whileLoop hg label start).tells (takes_whileLoop ht label start)
      hlength hrounds hcalled
  | loopBody label =>
    exact truly_of_tells (K := fun _ => True) (tells_loopBody hg label) (takes_block ht).withLoops
      hlength hrounds trivial
  | function =>
    exact truly_of_tells (opens_function hg).tells (takes_function ht) hlength hrounds hcalled
  | parameter =>
    exact truly_of_tells (tells_parameter hg) (takes_parameter ht) hlength hrounds hcalled

end

/-! ## Rounds -/

/-- A round from a position. The cursor has not gone back, and it has moved on if another round
follows. If a round fails, it does so behind a token. -/
def RoundFrom (tokens : List Token) (pos : Nat) : RuleReply (σ ⊕ α) → Prop
  | .ok (.consumedOk round, t) | .ok (.emptyOk round, t) =>
    ∃ next, t.At tokens next ∧ pos ≤ next ∧ (Again round → pos < next)
  | .ok (.consumedErr _, t) => ∃ next, t.At tokens next ∧ pos ≤ next
  | .ok (.emptyErr _, _) => False
  | .error why => why ≠ .exhausted

/-- The repetitions of the grammar by what they go on with and what they end with. -/
inductive Repetition : Type → Type → Type
  | statement : Repetition (List NodeId) (Except Diagnostic Statements)
  | postfixOperator : Repetition NodeId NodeId
  | listItem : Repetition (List NodeId) (List NodeId)
  | argument : Repetition (List Argument) (List Argument)
  | indexSpec : Repetition (List IndexSpec) (List IndexSpec)
  | parameter : Repetition (List Parameter) (List Parameter)
  | branch : Repetition (List Branch) (List Branch × Option NodeId)
  | arm : Repetition (List CaseArm × Option NodeId) (List CaseArm × Option NodeId)
  | logicalOperand : Repetition NodeId NodeId
  | comparisonOperand : Repetition NodeId NodeId
  | sumOperand : Repetition NodeId NodeId
  | productOperand : Repetition NodeId NodeId

def Repetition.round (g : Rules) : Repetition σ α → σ → Rule (σ ⊕ α)
  | .statement => nextStatement g
  | .postfixOperator => nextPostfix g
  | .listItem => commaRound .square (g .ternary)
  | .argument => commaRound .paren (Rule.argument g)
  | .indexSpec => nextSpec g
  | .parameter => commaRound .paren (Rule.parameter g)
  | .branch => nextBranch g
  | .arm => nextArm g
  | .logicalOperand => nextOperand (negation g) logicalOp?
  | .comparisonOperand => nextOperand (sum g) comparisonOp?
  | .sumOperand => nextOperand (product g) sumOp?
  | .productOperand => nextOperand (factor g) productOp?

section
variable (h : EndsOnce tokens) (hs : s.At tokens pos)
include h hs

theorem exists_at_of_moves {t : ParseState} {taken : Bool} (hst : Moves s taken t) :
    ∃ next, t.At tokens next ∧ pos ≤ next ∧ (taken = true → pos < next) := by
  obtain ⟨next, ht, hforward, hstill⟩ := hst.exists_at h hs
  refine ⟨next, ht, ?_, hforward⟩
  cases taken with
  | true => exact Nat.le_of_lt (hforward rfl)
  | false => exact Nat.le_of_eq (hstill rfl).symm

theorem roundFrom_of_commits {r : Rule (σ ⊕ α)} {p : Parser (σ ⊕ α)} (hr : Commits n false r p)
    (hp : Advances n (fun _ => True) Again p) (hlength : s.ahead.length < n)
    (hrounds : s.ahead.length ≤ c.rounds) : RoundFrom tokens pos (r c s) := by
  have hround := hr c s hlength hrounds
  have hmeasured := hp c s hlength hrounds trivial
  generalize r c s = reply, p c s = measured at hround hmeasured
  cases hround with
  | done taken round t =>
    obtain ⟨next, ht, hle, hforward⟩ := exists_at_of_moves h hs hmeasured.1
    exact ⟨next, ht, hle, fun hagain => hforward (hmeasured.2 hagain)⟩
  | part _ taken round t =>
    obtain ⟨next, ht, hle, hforward⟩ := exists_at_of_moves h hs hmeasured.1
    exact ⟨next, ht, hle, fun hagain => hforward (hmeasured.2 hagain)⟩
  | fault taken d t =>
    obtain ⟨next, ht, hle, -⟩ := exists_at_of_moves h hs hmeasured.1
    exact ⟨next, ht, hle⟩
  | tooLong => exact fun hwhy => by cases hwhy
  | exhausted => exact absurd rfl hmeasured.2

theorem roundFrom_of_plainly {r : Rule (σ ⊕ Except Diagnostic α)} {p : Parser (σ ⊕ α)}
    (hr : Plainly n r p) (hp : Advances n (fun _ => True) Again p) (hlength : s.ahead.length < n)
    (hrounds : s.ahead.length ≤ c.rounds) : RoundFrom tokens pos (r c s) := by
  have hmeasured := hp c s hlength hrounds trivial
  rw [hr c s hlength hrounds]
  cases hrun : p c s with
  | done taken round t =>
    rw [hrun] at hmeasured
    obtain ⟨next, ht, hle, hforward⟩ := exists_at_of_moves h hs hmeasured.1
    cases round with
    | inl again => exact ⟨next, ht, hle, fun hagain => hforward (hmeasured.2 hagain)⟩
    | inr result => exact ⟨next, ht, hle, fun hagain => hagain.elim⟩
  | failed taken e t =>
    rw [hrun] at hmeasured
    obtain ⟨next, ht, hle, -⟩ := exists_at_of_moves h hs hmeasured.1
    cases e with
    | fault d => exact ⟨next, ht, hle, fun hagain => hagain.elim⟩
    | tooLong count => exact fun hwhy => by cases hwhy
    | exhausted => exact absurd rfl hmeasured.2

theorem Repetition.roundFrom {rules : Rules} {g : Grammar} (hg : Grammar.Told n rules g)
    (r : Repetition σ α) (before : σ) (hlength : s.ahead.length < n)
    (hrounds : s.ahead.length ≤ c.rounds) : RoundFrom tokens pos (r.round rules before c s) := by
  have ht := hg.takes
  cases r with
  | statement =>
    exact roundFrom_of_plainly h hs (plainly_nextStatement hg before)
      (advances_nextStatement ht before) hlength hrounds
  | postfixOperator =>
    exact roundFrom_of_commits h hs (commits_nextPostfix hg before) (advances_nextPostfix ht before)
      hlength hrounds
  | listItem =>
    exact roundFrom_of_commits h hs (commits_commaRound (hg.continues .ternary) .square before)
      (advances_commaRound .square (ht .ternary) before) hlength hrounds
  | argument =>
    exact roundFrom_of_commits h hs (commits_commaRound (continues_argument hg) .paren before)
      (advances_commaRound .paren (takes_argument ht) before) hlength hrounds
  | indexSpec =>
    exact roundFrom_of_commits h hs (commits_nextSpec hg before) (advances_nextSpec ht before)
      hlength hrounds
  | parameter =>
    exact roundFrom_of_commits h hs (commits_commaRound (continues_parameter hg) .paren before)
      (advances_commaRound .paren (takes_parameter ht) before) hlength hrounds
  | branch =>
    exact roundFrom_of_commits h hs (commits_nextBranch hg before) (advances_nextBranch ht before)
      hlength hrounds
  | arm =>
    exact roundFrom_of_commits h hs (commits_nextArm hg before) (advances_nextArm ht before)
      hlength hrounds
  | logicalOperand =>
    exact roundFrom_of_commits h hs
      (commits_nextOperand (tells_negation hg) (takes_negation ht) before)
      (advances_nextOperand (takes_negation ht) (fun _ _ => takable_of_logicalOp?) before) hlength
      hrounds
  | comparisonOperand =>
    exact roundFrom_of_commits h hs (commits_nextOperand (tells_sum hg) (takes_sum ht) before)
      (advances_nextOperand (takes_sum ht) (fun _ _ => takable_of_comparisonOp?) before) hlength
      hrounds
  | sumOperand =>
    exact roundFrom_of_commits h hs
      (commits_nextOperand (tells_product hg) (takes_product ht) before)
      (advances_nextOperand (takes_product ht) (fun _ _ => takable_of_sumOp?) before) hlength
      hrounds
  | productOperand =>
    exact roundFrom_of_commits h hs
      (commits_nextOperand (tells_factor hg) (takes_factor ht) before)
      (advances_nextOperand (takes_factor ht) (fun _ _ => takable_of_productOp?) before) hlength
      hrounds

end

/-- In tokens of which only the last is the end of the input, the tag of every production is true of
the cursor: it has moved on where the tag says so and is where it was otherwise, and it never comes
past the end. Every round of a repetition moves on if another round follows. And no token list at
all uses up the levels of nesting and the rounds that its parse provides for. -/
theorem cursor_moves_on (tokens : List Token) (names : Interner) :
    (EndsOnce tokens →
      (∀ {α : Type} (p : Production α) (level : Nat) (c : ParseContext) (s : ParseState)
        (pos : Nat), s.At tokens pos → p.CalledAt s → tokens.length - pos < p.room level →
        tokens.length ≤ c.rounds →
        From tokens pos p.Present (p.rule (grammar level) c s)) ∧
      ∀ {σ α : Type} (r : Repetition σ α) (before : σ) (level : Nat) (c : ParseContext)
        (s : ParseState) (pos : Nat),
        s.At tokens pos → tokens.length - pos < level → tokens.length ≤ c.rounds →
        RoundFrom tokens pos (r.round (grammar level) before c s)) ∧
    parse tokens names ≠ .error .exhausted := by
  refine ⟨fun h => ⟨?_, ?_⟩, parse_ne_exhausted tokens names⟩
  · intro α p level c s pos hs hcalled hroom hrounds
    have hlength : s.ahead.length = tokens.length - pos := by rw [hs.ahead, List.length_drop]
    exact (p.truly (grammar_told level) (by omega) (by omega) hcalled).from h hs
  · intro σ α r before level c s pos hs hlevel hrounds
    have hlength : s.ahead.length = tokens.length - pos := by rw [hs.ahead, List.length_drop]
    exact r.roundFrom h hs (grammar_told level) before (by omega) (by omega)

/-- An expression moves the cursor behind its number, and there an atom fails softly. -/
theorem cursor_behind_number :
    let tokens : List Token := [⟨.int 1, {}⟩, ⟨.mark .eof, {}⟩]
    let c : ParseContext := ⟨{}, [], 2⟩
    let s : ParseState := ⟨tokens, none, Arena.empty, #[]⟩
    EndsOnce tokens ∧ s.At tokens 0 ∧
      ∃ v t, expr (grammar 2) c s = .ok (.consumedOk v, t) ∧ t.At tokens 1 ∧
        ∃ d u, atom (grammar 2) c t = .ok (.emptyErr d, u) ∧ u.At tokens 1 := by
  intro tokens c s
  have hends : EndsOnce tokens := ⟨[⟨.int 1, {}⟩], ⟨.mark .eof, {}⟩, rfl, rfl, by simp⟩
  have hstart : s.At tokens 0 := ⟨by decide, rfl⟩
  obtain ⟨hproductions, -⟩ := (cursor_moves_on tokens {}).1 hends
  have hexpr := hproductions .expr 2 c s 0 hstart trivial (by decide) (by decide)
  obtain ⟨v, t, hrun⟩ : ∃ v t, expr (grammar 2) c s = .ok (.consumedOk v, t) := ⟨_, _, rfl⟩
  simp only [Production.rule, hrun] at hexpr
  obtain ⟨next, ht, hforward⟩ := hexpr
  obtain rfl : next = 1 := Nat.le_antisymm (Nat.le_of_lt_succ ht.lt) hforward
  have hatom := hproductions .atom 2 c t 1 ht trivial (by decide) (by decide)
  obtain ⟨d, u, hfails⟩ : ∃ d u, atom (grammar 2) c t = .ok (.emptyErr d, u) := by
    cases hrun
    exact ⟨_, _, rfl⟩
  simp only [Production.rule, hfails] at hatom
  exact ⟨hends, hstart, v, t, hrun, ht, d, u, hfails, hatom⟩

end Rule
end ExprScript
