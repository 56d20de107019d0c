import ExprScript.Proofs.Parser.Kept
import ExprScript.Proofs.Parser.Rules

/-!
# What a parse leaves

Whether parsing fails or not, the arena is well formed and its last node is the root, a block. If
nothing is wrong, all nodes make up the tree below the root. The spans that are left lie in every
set that has those of the tokens and is closed under what parsers do with spans.
-/
namespace ExprScript

open Carries

variable {P : Span → Prop} {a : Arena}

/-- What is left of a parse, seen from the spans of its tokens. -/
structure ParseResult.Keeps (P : Span → Prop) (result : ParseResult) : Prop where
  wellFormed : result.arena.WellFormed
  last : result.root.index + 1 = result.arena.size
  block : ∃ run span, result.arena.node? result.root = some ⟨.block run, span⟩
  whole : result.error = none → result.arena.Holds [result.root]
  nodes : ∀ node ∈ result.arena.nodes, P node.span
  args : ∀ arg ∈ result.arena.args, P arg.span
  params : ∀ param ∈ result.arena.params, P param.span
  error : Within P result.error
  warnings : Within P result.warnings

/-- A block is stored over nodes that are held, and is held for all that was. -/
theorem Arena.Holds.pushBlock {lost nodes : List NodeId} (h : a.Holds (lost ++ nodes))
    (span : Span) :
    (a.pushBlock nodes span).2.Holds ((a.pushBlock nodes span).1 :: lost) := by
  have hgrows : a ≤ { a with lists := a.lists ++ nodes.toArray } := by constructor <;> simp
  have htables := h.tables hgrows rfl
  have hrun : (appendRun a.lists nodes).1.entries? (a.lists ++ nodes.toArray) = some nodes :=
    entries?_appendRun a.lists nodes
  have hchildren : Expr.children? { a with lists := a.lists ++ nodes.toArray }
      (.block (appendRun a.lists nodes).1) = some nodes := by
    simp [Expr.children?, Expr.parts?, hrun]
  exact htables.push hchildren List.perm_append_comm span

theorem finishParse_keeps (hP : Span.Closed P) {context : ParseContext} {start : Span}
    {nodes lost : List NodeId} {error : Option Diagnostic} {s : ParseState} (hstart : P start)
    (hs : s.Keeps P (lost ++ nodes)) (herror : Within P error) (hlost : error = none → lost = []) :
    (∃ count, maxRunLength < count ∧
        finishParse context start nodes error s = .error (.listTooLong count)) ∨
      ∃ result, finishParse context start nodes error s = .ok result ∧ result.Keeps P := by
  rw [finishParse_eq]
  split
  next =>
    have hlast : P (s.previous.getD (Span.point (s.ahead.headD Parser.eofToken).span.start)) := by
      cases hprevious : s.previous with
      | none => exact hP.point _ (Parser.within_current hP hs)
      | some span => exact hs.previous span hprevious
    have hspan := hP.merge _ _ hstart hlast
    have hholds := hs.arena.holds.pushBlock (start.merge
      (s.previous.getD (Span.point (s.ahead.headD Parser.eofToken).span.start)))
    refine .inr ⟨_, rfl, ?_⟩
    exact {
      wellFormed := hholds.wellFormed
      last := by simp [Arena.size]
      block := ⟨_, _, Arena.node?_push ..⟩
      whole := fun hnone => hlost hnone ▸ hholds
      nodes := fun node hnode => by
        rcases Array.mem_push.mp hnode with hnode | rfl
        · exact hs.arena.nodes node hnode
        · exact hspan
      args := hs.arena.args
      params := hs.arena.params
      error := herror
      warnings := fun d hd => hs.warnings d (by simpa using hd) }
  next hlength => exact .inl ⟨nodes.length, Nat.lt_of_not_le hlength, rfl⟩

/-- Every token list is parsed, unless a list in it is too long. -/
theorem parse_keeps (hP : Span.Closed P) {tokens : List Token} (names : Interner)
    (htokens : ∀ token ∈ tokens, P token.span) :
    (∃ count, maxRunLength < count ∧ parse tokens names = .error (.listTooLong count)) ∨
      ∃ result, parse tokens names = .ok result ∧ result.Keeps P := by
  have htotal := parse_ne_exhausted tokens names
  have hbegin : ParseState.Keeps P ([] ++ []) ⟨tokens, none, Arena.empty, #[]⟩ :=
    ⟨⟨Arena.holds_empty, by simp [Arena.empty], by simp [Arena.empty], by simp [Arena.empty]⟩,
      htokens, by simp, by simp⟩
  have hstart : P (tokens.headD Parser.eofToken).span := Parser.within_current hP hbegin
  rw [parse_eq, measuredParse] at htotal ⊢
  generalize levelsFor (tokens.length + 1) = levels at htotal ⊢
  have hbody := Parser.keeps_programBody (a := Arena.empty) hP (Parser.grammar_hands hP levels)
    ⟨names, [], tokens.length⟩ ⟨tokens, none, Arena.empty, #[]⟩ [] (le_refl _) hbegin
  cases hrun : Parser.programBody (Parser.grammar levels) ⟨names, [], tokens.length⟩
      ⟨tokens, none, Arena.empty, #[]⟩ with
  | done taken body s =>
    rw [hrun] at hbody
    obtain ⟨-, ids, ⟨⟨lost, rfl, hlost⟩, herror⟩, hs⟩ := hbody
    rw [List.append_nil] at hs
    exact finishParse_keeps hP hstart hs herror hlost
  | failed taken e s =>
    rw [hrun] at hbody htotal
    obtain ⟨-, htold, lost, hs⟩ := hbody
    cases e with
    | fault d =>
      exact finishParse_keeps hP hstart hs (fun _ h => by cases h; exact htold) fun h => by cases h
    | tooLong count => exact .inl ⟨count, htold, rfl⟩
    | exhausted => exact absurd rfl htotal

/-- The tree that a parse leaves: every node was stored after its children, which the side tables
have, the root is the last node and a block, and if nothing is wrong every other node is the child
of one node only. -/
theorem parse_tree (tokens : List Token) (names : Interner) :
    (∃ count, maxRunLength < count ∧ parse tokens names = .error (.listTooLong count)) ∨
      ∃ result, parse tokens names = .ok result ∧ result.arena.WellFormed ∧
        result.root.index + 1 = result.arena.size ∧
        (∃ run span, result.arena.node? result.root = some ⟨.block run, span⟩) ∧
        (result.error = none → result.arena.IsTree result.root) := by
  rcases parse_keeps Span.closed_true names fun _ _ => trivial with htooLong | ⟨result, hresult, hkeeps⟩
  · exact .inl htooLong
  · exact .inr ⟨result, hresult, hkeeps.wellFormed, hkeeps.last, hkeeps.block,
      fun hnone => (hkeeps.whole hnone).isTree⟩

end ExprScript
