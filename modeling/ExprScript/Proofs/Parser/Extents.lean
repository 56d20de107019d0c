import ExprScript.Proofs.Parser.Rules
import ExprScript.Proofs.Parser.Spanned
import ExprScript.Proofs.Token.Gaps

/-!
# Where the nodes of a text stand

The tokens of a text stand one behind the other, so all nodes that are parsed from them stand around
their children, the root included. Only a text without any token has nothing that its root could
stand around.
-/
namespace ExprScript

open Spans ParseState

/-! ## The tokens of a text -/

theorem takable_of_ne {kind : TokenKind} (h : kind ≠ .mark .eof) : kind.Takable := by
  cases kind with
  | mark mark =>
    have hmark : mark ≠ .eof := fun heof => h (heof ▸ rfl)
    simp [TokenKind.Takable, TokenKind.isMark, TokenKind.mark?, hmark]
  | _ => rfl

open Lexing in
/-- The tokens that are found on the way from one place to another stand between the places. -/
theorem Lexing.Reads.inOrder {s t : Lexing} (h : s.Reads t) :
    ∃ found, t.tokens.toList = s.tokens.toList ++ found ∧
      (∀ token ∈ found, token.kind.Takable ∧ token.span.start.offset < token.span.stop.offset ∧
        s.place.offset ≤ token.span.start.offset ∧ token.span.stop.offset ≤ t.place.offset) ∧
      found.Pairwise fun a b => a.span.Before b.span := by
  induction h with
  | done s => exact ⟨[], by simp, by simp, .nil⟩
  | @next s t c cs hrest hreadable hreads ih =>
    obtain ⟨found, hfound, hplaced, hrow⟩ := ih
    have hlt := lt_after_place s c cs
    have hle := hreads.le_place
    rcases after_tokens hreadable with ⟨-, hnone⟩ | ⟨kind, hkind, hone⟩
    · refine ⟨found, by rw [hfound, hnone], fun token htoken => ?_, hrow⟩
      obtain ⟨htakable, hpos, hstart, hstop⟩ := hplaced token htoken
      exact ⟨htakable, hpos, by omega, hstop⟩
    · refine ⟨⟨kind, s.place, (s.after c cs).place⟩ :: found, ?_, ?_, ?_⟩
      · rw [hfound, hone]
        simp
      · intro token htoken
        rcases List.mem_cons.mp htoken with rfl | htoken
        · exact ⟨takable_of_ne hkind, hlt, Nat.le_refl _, hle⟩
        · obtain ⟨htakable, hpos, hstart, hstop⟩ := hplaced token htoken
          exact ⟨htakable, hpos, by omega, hstop⟩
      · exact List.pairwise_cons.mpr ⟨fun token htoken => (hplaced token htoken).2.2.1, hrow⟩

open Lexing in
theorem inOrder_of_lexText {text : List Char} {place : Position} {names : Interner} {lexed : Lexed}
    (h : (lexText text place names).outcome = .ok lexed) : InOrder lexed.tokens := by
  obtain ⟨t, hreads, -, -, rfl⟩ := reads_of_lexText h
  obtain ⟨found, hfound, hplaced, hrow⟩ := hreads.inOrder
  have hall : t.tokens.toList = found := by
    rw [hfound]
    rfl
  rw [hall]
  refine ⟨⟨found, t.place, rfl, fun token htoken => ?_⟩, ?_⟩
  · obtain ⟨htakable, hpos, -⟩ := hplaced token htoken
    exact ⟨htakable, hpos⟩
  · refine List.pairwise_append.mpr ⟨hrow, List.pairwise_singleton .., ?_⟩
    intro token htoken last hlast
    obtain rfl := List.mem_singleton.mp hlast
    exact (hplaced token htoken).2.2.2

namespace Parser

variable {tokens : List Token} {g : Grammar} {s : ParseState}

/-! ## The root -/

abbrev untouched (tokens : List Token) : ParseState := ⟨tokens, none, Arena.empty, #[]⟩

theorem untouched_on (tokens : List Token) : (untouched tokens).On tokens := by
  refine ⟨⟨[], rfl, by simp, rfl⟩, fun id node hnode => ?_⟩
  simp [Arena.node?, Arena.empty] at hnode

theorem goes_strayToken (h : InOrder tokens) (stopped : Option Diagnostic) (hs : s.On tokens) :
    Goes tokens s (fun _ _ => True) (strayToken stopped) := by
  refine .current h hs fun token rest _ => ?_
  split
  · exact .pure hs trivial
  · exact .pure hs trivial
  · exact fun _ => ⟨hs.refl, trivial⟩

theorem goes_programBody (h : InOrder tokens) (hg : Grammar.Lays tokens g) (hs : s.On tokens) :
    Goes tokens s (fun t body => Between tokens s t (children body.1)) (programBody g) := by
  refine (goes_statements h hg hs).bind fun t body hst hbody => .look (fun _ => check_eq _) ?_
  split
  · exact .pure hst.on hbody
  · refine (goes_strayToken h _ hst.on).bind fun u d htu _ => ?_
    exact .pure htu.on (hbody.later htu)

theorem untouched_of_le (h : InOrder tokens) (hs : s.On tokens)
    (hle : s.front ≤ (untouched tokens).next) : s.ahead = tokens ∧ s.previous = none := by
  obtain ⟨gone, hsplit, htaken, hprevious⟩ := hs.split
  cases gone with
  | nil => exact ⟨hsplit.symm, hprevious⟩
  | cons first gone =>
    -- The last token taken ends behind the start of the first one.
    exfalso
    have hfirst : first ∈ tokens := by simp [hsplit]
    have hnext : (untouched tokens).next = first.span.start.offset := by
      simp [ParseState.next, hsplit]
    obtain ⟨last, hlast⟩ : ∃ last, (first :: gone).getLast? = some last :=
      ⟨_, List.getLast?_eq_some_getLast (List.cons_ne_nil first gone)⟩
    have hmem := List.mem_of_getLast? hlast
    have hpos := h.pos hfirst (htaken first List.mem_cons_self)
    have hpos' := h.pos (by rw [hsplit]; exact List.mem_append_left _ hmem) (htaken last hmem)
    rw [hlast] at hprevious
    have hfront : s.front = last.span.stop.offset := front_of_previous hprevious
    rcases List.mem_cons.mp hmem with rfl | hbehind
    · omega
    · have hapart := h.apart
      rw [hsplit, List.cons_append] at hapart
      have hbefore : first.span.stop.offset ≤ last.span.start.offset :=
        (List.pairwise_cons.mp hapart).1 last (List.mem_append_left _ hbehind)
      omega

def rootSpan (tokens : List Token) (s : ParseState) : Span :=
  (untouched tokens).span.merge
    (s.previous.getD (Span.point (s.ahead.headD eofToken).span.start))

/-- The root stands around the statements, unless there are no tokens. -/
theorem rootSpan_stands (h : InOrder tokens) {nodes : List NodeId}
    (hst : Reaches tokens (untouched tokens) s)
    (hnodes : Between tokens (untouched tokens) s (children nodes)) :
    (∃ place, tokens = [⟨.mark .eof, .point place⟩]) ∨ (rootSpan tokens s).Along tokens ∧
      s.arena.Spread tokens (rootSpan tokens s).start.offset (rootSpan tokens s).stop.offset
        (children nodes) := by
  by_cases hlt : (untouched tokens).next < s.front
  · have hbegins := Begins.of_lt h hst (untouched_on tokens) hlt
    obtain ⟨span, hspan, halong, hstart, hstop⟩ :=
      hst.on.exists_spanFrom h hbegins.along hlt hbegins.taken
    have hreply : ParseReply.done false (rootSpan tokens s) s = .done false span s :=
      hspan ⟨Interner.empty, [], 0⟩
    cases hreply
    refine .inr ⟨halong, ?_⟩
    rw [hstart, hstop]
    exact hnodes
  · obtain ⟨hahead, hprevious⟩ := untouched_of_le h hst.on (Nat.le_of_not_lt hlt)
    obtain rfl : nodes = [] := by
      have hnone := hnodes.eq_nil (Nat.le_of_not_lt hlt)
      simpa [children_list] using hnone
    obtain ⟨front, place, htokens, hfront⟩ := h.ends
    cases front with
    | nil => exact .inl ⟨place, htokens⟩
    | cons token front =>
      have hmem : token ∈ tokens := by simp [htokens]
      obtain ⟨hkind, hpos⟩ := hfront token List.mem_cons_self
      have hspan : rootSpan tokens s = token.span := by
        unfold rootSpan
        rw [hahead, hprevious, htokens]
        exact Span.merge_start_self (Nat.le_of_lt hpos)
      rw [hspan]
      exact .inr ⟨h.along hmem hkind, .nil⟩

end Parser

/-! ## Whole texts -/

/-- All nodes stand around their children if the parser came so far and has built so much. -/
theorem finishParse_stands {tokens : List Token} (h : InOrder tokens) {context : ParseContext}
    {nodes : List NodeId} {error : Option Diagnostic} {s : ParseState} {result : ParseResult}
    (hst : Reaches tokens (Parser.untouched tokens) s)
    (hnodes : Between tokens (Parser.untouched tokens) s (children nodes))
    (hresult : finishParse context (Parser.untouched tokens).span nodes error s = .ok result) :
    ∀ id node, result.arena.node? id = some node →
      id = result.root ∧ (∃ place, tokens = [⟨.mark .eof, .point place⟩]) ∨
        result.arena.Stands tokens node := by
  rw [finishParse_eq] at hresult
  split at hresult
  · cases hresult
    intro id node hnode
    have hgrows : s.arena ≤ (s.arena.pushBlock nodes (Parser.rootSpan tokens s)).2 := by
      constructor <;> simp [Arena.pushBlock, Arena.push]
    rcases Arena.node?_of_push hnode with ⟨rfl, rfl⟩ | hold
    · refine (Parser.rootSpan_stands h hst hnodes).imp (fun hempty => ⟨rfl, hempty⟩) ?_
      rintro ⟨halong, hspread⟩
      have hrun : Run.entries? ⟨s.arena.lists.size, nodes.length⟩
          (s.arena.pushBlock nodes (Parser.rootSpan tokens s)).2.lists = some nodes :=
        entries?_appendRun s.arena.lists nodes
      have hparts : (Expr.block ⟨s.arena.lists.size, nodes.length⟩).layout?
          (s.arena.pushBlock nodes (Parser.rootSpan tokens s)).2 0 = some (children nodes) := by
        simp [Expr.layout?, hrun, Parser.children_list]
      exact ⟨halong, 0, children nodes, hparts, hspread.mono hgrows⟩
    · exact .inr ((hst.on.arena id node hold).mono hgrows)
  · cases hresult

/-- From tokens in order, nodes are built that stand around their children. -/
theorem parse_stands {tokens : List Token} (h : InOrder tokens) {names : Interner}
    {result : ParseResult} (hparse : parse tokens names = .ok result) :
    ∀ id node, result.arena.node? id = some node →
      id = result.root ∧ (∃ place, tokens = [⟨.mark .eof, .point place⟩]) ∨
        result.arena.Stands tokens node := by
  rw [parse_eq, measuredParse] at hparse
  generalize levelsFor (tokens.length + 1) = levels at hparse
  have hbody := Parser.goes_programBody h (Parser.grammar_lays h levels)
    (Parser.untouched_on tokens) ⟨names, [], tokens.length⟩
  cases hrun : Parser.programBody (Parser.grammar levels) ⟨names, [], tokens.length⟩
      ⟨tokens, none, Arena.empty, #[]⟩ with
  | done taken body s =>
    rw [hrun] at hbody hparse
    exact finishParse_stands h hbody.1 hbody.2 hparse
  | failed taken e s =>
    rw [hrun] at hbody hparse
    cases e with
    | fault d => exact finishParse_stands h hbody .nil hparse
    | tooLong count => cases hparse
    | exhausted => cases hparse

/-- The nodes of a text take characters, from the start of a token to the end of one, and around all
of their children, one behind the other. Only the root of a text without tokens does not. -/
theorem nodes_stand_around_children {text : List Char} {place : Position}
    {names others : Interner} {lexed : Lexed} {result : ParseResult}
    (hlex : (lexText text place names).outcome = .ok lexed)
    (hparse : parse lexed.tokens others = .ok result) :
    ∀ id node, result.arena.node? id = some node →
      id = result.root ∧ (∃ place, lexed.tokens = [⟨.mark .eof, .point place⟩]) ∨
        result.arena.Stands lexed.tokens node :=
  parse_stands (inOrder_of_lexText hlex) hparse

def treeSize? (text : List Char) : Option Nat :=
  match (lexText text .start .empty).outcome with
  | .error _ => none
  | .ok lexed =>
    match parse lexed.tokens .empty with
    | .error _ => none
    | .ok result => if result.error.isNone then some result.arena.size else none

theorem exists_of_treeSize? {text : List Char} {size : Nat} (h : treeSize? text = some size) :
    ∃ lexed result, (lexText text .start .empty).outcome = .ok lexed ∧
      parse lexed.tokens .empty = .ok result ∧ result.error = none ∧ result.arena.size = size := by
  unfold treeSize? at h
  split at h
  · cases h
  next lexed hlex =>
    split at h
    · cases h
    next result hparse =>
      split at h
      next hnone =>
        cases h
        exact ⟨lexed, result, hlex, hparse, by simpa using hnone, rfl⟩
      next => cases h

/-- The default of a case between its options, a group, and an argument with a name. -/
def caseText : List Char := "case (a) {option 1 {f(b :: 2)} default {} option (3) {}}".toList

theorem case_stands_around_options :
    ∃ lexed result, (lexText caseText .start .empty).outcome = .ok lexed ∧
      parse lexed.tokens .empty = .ok result ∧ result.error = none ∧ result.arena.size = 11 ∧
      ∀ id node, result.arena.node? id = some node →
        id = result.root ∧ (∃ place, lexed.tokens = [⟨.mark .eof, .point place⟩]) ∨
          result.arena.Stands lexed.tokens node := by
  have hsize : treeSize? caseText = some 11 := by decide +kernel
  obtain ⟨lexed, result, hlex, hparse, hnone, hresult⟩ := exists_of_treeSize? hsize
  exact ⟨lexed, result, hlex, hparse, hnone, hresult, nodes_stand_around_children hlex hparse⟩

end ExprScript
