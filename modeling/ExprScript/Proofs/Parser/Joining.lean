import ExprScript.Proofs.Parser.SeamPlaces
import ExprScript.Proofs.Parser.Trees

/-!
# Programs behind each other

Two programs that are parsed without a fault can be put behind each other, with a line break in
between: the statements of both are parsed, and what is warned of in either.
-/
namespace ExprScript

open Renumbers

/-! ## Arenas behind each other -/

namespace Arena

variable {a b : Arena} {nodes : List NodeId} {trees : List Tree}

@[simp] theorem append_empty (a : Arena) : a.append empty = a := by
  simp [append, empty]

theorem le_append (a b : Arena) : a ≤ a.append b := by
  constructor <;> simp [append]

theorem size_append (a b : Arena) : (a.append b).size = a.size + b.size := by
  simp [append, size]

theorem size_pushBlock (a : Arena) (nodes : List NodeId) (span : Span) :
    (a.pushBlock nodes span).2.size = a.size + 1 := by
  simp [pushBlock, push, size]

/-- The statements of a program are those that its root was stored over. -/
theorem statements?_pushBlock (h : nodes.mapM a.tree? = some trees) (span : Span) :
    (a.pushBlock nodes span).2.statements? (a.pushBlock nodes span).1 = some trees := by
  have hgrows : a ≤ (a.pushBlock nodes span).2 := by constructor <;> simp [pushBlock, push]
  have hroot : (a.pushBlock nodes span).2.node? (a.pushBlock nodes span).1 =
      some ⟨.block ⟨a.lists.size, nodes.length⟩, span⟩ := node?_push ..
  have hrun : Run.entries? ⟨a.lists.size, nodes.length⟩ (a.pushBlock nodes span).2.lists =
      some nodes := entries?_appendRun a.lists nodes
  have htrees := (embeds_of_le hgrows).trees h
  rw [List.map_id'] at htrees
  rw [statements?, hroot]
  dsimp only
  rw [hrun]
  exact htrees

end Arena

/-! ## Programs without a fault -/

def statementsOf (names : Interner) (tokens : List Token) : ParseReply Statements :=
  Parser.statements (Parser.grammar (levelsFor (tokens.length + 1))) ⟨names, [], tokens.length⟩
    ⟨tokens, none, Arena.empty, #[]⟩

section
variable {tokens : List Token} {names : Interner} {result : ParseResult}

/-- Where nothing is wrong, statements are read up to the end of the input. -/
theorem exists_statements (h : parse tokens names = .ok result) (hnone : result.error = none) :
    ∃ taken body t span, statementsOf names tokens = .done taken body t ∧
      t.kind.isMark .eof = true ∧ t.arena.Holds body.nodes ∧
      result = ⟨(t.arena.pushBlock body.nodes span).2, (t.arena.pushBlock body.nodes span).1, none,
        t.warnings.toList⟩ := by
  rw [parse_eq, measuredParse] at h
  unfold statementsOf
  generalize levelsFor (tokens.length + 1) = levels at h ⊢
  have hbegin : ParseState.Keeps (fun _ => True) ([] ++ []) ⟨tokens, none, Arena.empty, #[]⟩ :=
    ⟨⟨Arena.holds_empty, by simp, by simp, by simp⟩, by simp, by simp, by simp⟩
  have hbody := Parser.keeps_programBody (a := Arena.empty) Span.closed_true
    (Parser.grammar_hands Span.closed_true levels) ⟨names, [], tokens.length⟩
    ⟨tokens, none, Arena.empty, #[]⟩ [] (le_refl _) hbegin
  cases hrun : Parser.programBody (Parser.grammar levels) ⟨names, [], tokens.length⟩
      ⟨tokens, none, Arena.empty, #[]⟩ with
  | failed taken e s =>
    rw [hrun] at h
    cases e with
    | fault d => exact absurd ((finishParse_error h).symm.trans hnone) (by simp)
    | _ => cases h
  | done taken body s =>
    obtain ⟨nodes, error⟩ := body
    rw [hrun] at h hbody
    obtain rfl : error = none := (finishParse_error h).symm.trans hnone
    obtain ⟨-, ids, ⟨⟨lost, rfl, hlost⟩, -⟩, hkeeps⟩ := hbody
    obtain rfl := hlost rfl
    dsimp only at h
    rw [finishParse_eq] at h
    split at h
    next =>
      cases h
      obtain ⟨first, body, t, more, hstatements, hmore⟩ := Parser.done_of_bind hrun
      rw [Parser.isAtEnd, Parser.bind_of_done (Parser.check_eq _), ParseReply.after_false] at hmore
      cases hend : t.kind.isMark .eof with
      | true =>
        rw [hend] at hmore
        cases hmore
        exact ⟨first, body, s, _, hstatements, hend, by simpa using hkeeps.arena.holds, rfl⟩
      | false =>
        rw [hend, if_neg Bool.false_ne_true] at hmore
        obtain ⟨_, d, _, _, -, hstray⟩ := Parser.done_of_bind hmore
        cases hstray
    next => cases h

theorem parse_of_statements {taken : Bool} {body : Statements} {t : ParseState}
    (h : statementsOf names tokens = .done taken body t)
    (hend : t.kind.isMark .eof = true) (hlength : body.nodes.length ≤ maxRunLength) :
    ∃ span, parse tokens names = .ok ⟨(t.arena.pushBlock body.nodes span).2,
      (t.arena.pushBlock body.nodes span).1, none, t.warnings.toList⟩ := by
  have hbody : Parser.programBody (Parser.grammar (levelsFor (tokens.length + 1)))
      ⟨names, [], tokens.length⟩ ⟨tokens, none, Arena.empty, #[]⟩ =
        .done (taken || false) (body.nodes, none) t := by
    unfold statementsOf at h
    unfold Parser.programBody
    rw [Parser.bind_of_done h, Parser.isAtEnd, Parser.bind_of_done (Parser.check_eq _), hend]
    rfl
  have hparse : parse tokens names = finishParse ⟨names, [], tokens.length⟩
      (tokens.headD Parser.eofToken).span body.nodes none t := by
    rw [parse_eq, measuredParse]
    rw [hbody]
  rw [finishParse_eq, if_pos hlength] at hparse
  exact ⟨_, hparse⟩

end

/-! ## Token lists behind each other -/

namespace Seam

open ExprScript.Parser

variable {g : Grammar} {c : ParseContext} {s t u : ParseState} {taken : Bool}

theorem refuses_statement {kind : TokenKind} (hkind : kind.Ends) {level : Nat} :
    Refuses kind (statement (grammar level)) := by
  refine .current fun token htoken => ?_
  have hexpr := refuses_grammar hkind level .expr
  rw [htoken]
  rcases hkind with rfl | rfl | rfl <;> exact hexpr

theorem not_ends_of_statements {level : Nat} {body : Statements}
    (h : statements (grammar level) c s = .done taken body t)
    (hend : t.kind.isMark .eof = true) {token : Token} {rest : List Token}
    (hs : s.behindNewlines = token :: rest) (htoken : token.kind.Takable) :
    ¬token.kind.Ends := by
  unfold statements repeating at h
  rw [loop_succ] at h
  cases hround : nextStatement (grammar level) [] c s with
  | failed more e u =>
    rw [hround] at h
    cases h
  | done more r u =>
    rw [hround] at h
    obtain ⟨first, v, hskip, hcases⟩ := nextStatement_cases hround
    have hv : v.kind = token.kind :=
      ParseState.kind_of_ahead ((ahead_of_skipNewlines hskip).trans hs)
    rcases hcases with ⟨hclosed, rfl, rfl⟩ | ⟨hopen, ⟨_, d, hstop, rfl⟩ | ⟨_, id, hfound, -⟩⟩
    · intro hkind
      rw [hv] at hclosed
      rcases hkind with hkind | hkind | hkind <;> rw [hkind] at hclosed htoken
      · cases htoken
      · cases hclosed
      · cases hclosed
    · cases h
      have hkind : t.kind = v.kind := by
        rw [ParseState.kind, ahead_of_orStop (grammar_balanced level) hstop, ParseState.kind]
      rw [hkind, hv] at hend
      exact absurd hend (by rw [htoken]; simp)
    · exact fun hkind => refuses_statement hkind c v _ id u hv hfound

theorem loop_atEnd {e : Token} (he : e.kind = .mark .eof) (hs : s.behindNewlines = [e])
    (hrounds : s.ahead.length ≤ c.rounds) {steps : Nat} (hsteps : 0 < steps) (first : Bool)
    (before : List NodeId) :
    ∃ taken t, loop (nextStatement g) steps first before c s =
        .done taken ⟨before.reverse, none⟩ t ∧ t.ahead = [e] ∧ t.arena = s.arena ∧
      t.warnings = s.warnings := by
  obtain ⟨steps, rfl⟩ : ∃ n, steps = n + 1 := ⟨steps - 1, by omega⟩
  obtain ⟨skipped, t, hskip, hahead, hkept⟩ := skipNewlines_run hrounds
  have ht : t.ahead = [e] := hahead.trans hs
  have hend : t.kind.isMark .eof = true := by
    rw [ParseState.kind_of_ahead ht, he]
    rfl
  have hround : nextStatement g before c s =
      .done (skipped || false) (.inr ⟨before.reverse, none⟩) t := by
    unfold nextStatement
    rw [bind_of_done hskip, isAtEnd, bind_of_done (check_eq _), bind_of_done (check_eq _), hend]
    rfl
  exact ⟨_, t, loop_of_inr hround steps first, ht, hkept⟩

theorem levelsFor_mono {m n : Nat} (h : m ≤ n) : levelsFor m ≤ levelsFor n := by
  have hmul : levelsPerStack * (m + 1) ≤ levelsPerStack * (n + 1) :=
    Nat.mul_le_mul_left _ (Nat.succ_le_succ h)
  unfold levelsFor
  omega

/-- Where a program ends, the parser for more than that program is at the seam. -/
theorem statements_pass {J : Seam} {level level' : Nat} (hlevel : level ≤ level')
    (earlier : List NodeId) {c' : ParseContext} (hc : c.Within c') {s' : ParseState}
    {steps steps' : Nat} {begun : Bool} (begun' : Bool) (hsteps : steps ≤ steps')
    (hs : J.Nears c c' s s') {body : Statements}
    (hrun : loop (nextStatement (grammar level)) steps begun [] c s = .done taken body t)
    (hend : t.kind.isMark .eof = true) :
    ∃ left next u', loop (nextStatement (grammar level')) steps' begun' earlier c' s' =
        loop (nextStatement (grammar level')) left next (J.shift body.nodes.reverse ++ earlier) c'
          u' ∧
      steps' < left + steps ∧ u'.ahead.length ≤ s'.ahead.length ∧
      u'.behindNewlines = J.more.dropWhile (·.kind.isMark .newline) ∧
      u'.arena = J.base.append t.arena ∧ u'.warnings = J.before ++ t.warnings := by
  rcases statements_reach (J.grammars_of_le hlevel) earlier hc begun' hsteps hs hrun with
    ⟨nodes, rfl, hopen, more', t', -, ht⟩ | ⟨nodes, left, next, u', rfl, -, hloop, hu⟩ |
      ⟨nodes, d, rfl, hstray⟩
  · have htakable := (ht.kind.resolve_right fun h => hopen h.1).2
    exact absurd hend (by rw [htakable]; simp)
  · rw [List.reverse_reverse]
    exact ⟨left, next, u', hloop, hu⟩
  · exact absurd hend (by rw [hstray.eof]; simp)

variable {first second : List Token} {last last' line final : Token} {names : Interner}

theorem dropWhile_of_breaks (hlast : last.kind = .mark .eof) :
    (first ++ [last]).dropWhile (·.kind.isMark .newline) =
      first.dropWhile (·.kind.isMark .newline) ++ [last] := by
  rw [List.dropWhile_append]
  split
  next h => simp_all [TokenKind.isMark, TokenKind.mark?]
  next => rfl

/-- At the end of the first of two programs the parser for both is at the seam. -/
theorem statementsOf_first {J : Seam} {body : Statements} (hbase : J.base = .empty)
    (hbefore : J.before = #[]) (hfirst : ∀ token ∈ first, token.kind.Takable)
    (hrun : statementsOf names (first ++ [J.last]) = .done taken body t)
    (hend : t.kind.isMark .eof = true) :
    ∃ left next u, statementsOf names (first ++ J.more) =
        loop (nextStatement (grammar (levelsFor ((first ++ J.more).length + 1)))) left next
          (J.shift body.nodes.reverse ++ []) ⟨names, [], (first ++ J.more).length⟩ u ∧
      J.more.length ≤ left ∧ u.ahead.length ≤ (first ++ J.more).length ∧
      u.behindNewlines = J.more.dropWhile (·.kind.isMark .newline) ∧
      u.arena = J.base.append t.arena ∧ u.warnings = t.warnings := by
  obtain ⟨line, rest, hmore, -⟩ := J.breaks
  have hlength : (first ++ [J.last]).length ≤ (first ++ J.more).length := by
    rw [hmore]
    simp only [List.length_append, List.length_cons, List.length_nil]
    omega
  have hbeside : J.Beside false ⟨first ++ [J.last], none, Arena.empty, #[]⟩
      ⟨first ++ J.more, none, Arena.empty, #[]⟩ := {
    ahead := ⟨first, rfl, rfl, hfirst⟩
    previous := fun h => by cases h
    arena := by rw [hbase, Arena.append_empty]
    warnings := by rw [hbefore, Array.append_empty] }
  have hc : ParseContext.Within ⟨names, [], (first ++ [J.last]).length⟩
      ⟨names, [], (first ++ J.more).length⟩ := ⟨rfl, rfl, hlength⟩
  obtain ⟨left, next, u, hloop, hleft, hshort, hu, harena, hwarnings⟩ :=
    statements_pass (levelsFor_mono (Nat.succ_le_succ hlength)) [] hc false
      (Nat.succ_le_succ hlength) (hbeside.nears hc) hrun hend
  refine ⟨left, next, u, hloop, ?_, hshort, hu, harena, ?_⟩
  · simp only [List.length_append, List.length_cons, List.length_nil] at hleft
    omega
  · rw [hwarnings, hbefore, Array.empty_append]

/-- Behind the seam the parser for two programs is beside the one for the second program. -/
theorem nears_second {J : Seam} {c' : ParseContext} (hsecond : ∀ token ∈ second, token.kind.Takable)
    (hmore : J.more = [final]) (hfinal : final.kind = .mark .eof)
    (hu : u.behindNewlines = second.dropWhile (·.kind.isMark .newline) ++ [final])
    (hrounds : u.ahead.length ≤ c'.rounds) (harena : u.arena = J.base)
    (hwarnings : u.warnings = J.before) :
    J.Nears c c' ⟨second ++ [J.last], none, Arena.empty, #[]⟩ u where
  behind _ v hskip _ := by
    obtain ⟨hahead, hstored, hwarned⟩ := kept_of_skipNewlines hskip
    obtain ⟨_, v', hskip', hahead', hstored', hwarned'⟩ := skipNewlines_run hrounds
    refine ⟨_, v', hskip', {
      ahead := ⟨_, hahead.trans (dropWhile_of_breaks J.ends), ?_, fun token htoken =>
        hsecond token ((List.dropWhile_sublist _).subset htoken)⟩
      previous := fun h => by cases h
      arena := by rw [hstored', hstored, harena, Arena.append_empty]
      warnings := by rw [hwarned', hwarned, hwarnings, Array.append_empty] }⟩
    rw [hahead', hu, hmore]
  last hbehind := by
    rw [ParseState.behindNewlines, dropWhile_of_breaks J.ends] at hbehind
    rw [hu, hmore, List.append_left_eq_self.mp hbehind, List.nil_append,
      List.dropWhile_cons_of_neg (by simp [hfinal, TokenKind.isMark, TokenKind.mark?])]
  arena := by rw [harena, Arena.append_empty]
  warnings := by rw [hwarnings, Array.append_empty]

theorem loop_second {J : Seam} {body : Statements} {rounds steps : Nat} (next : Bool)
    (earlier : List NodeId) (hsecond : ∀ token ∈ second, token.kind.Takable)
    (hmore : J.more = [final]) (hfinal : final.kind = .mark .eof)
    (hrun : statementsOf names (second ++ [J.last]) = .done taken body t)
    (hend : t.kind.isMark .eof = true)
    (hu : u.behindNewlines = second.dropWhile (·.kind.isMark .newline) ++ [final])
    (hlength : u.ahead.length ≤ rounds) (harena : u.arena = J.base)
    (hwarnings : u.warnings = J.before) (hrounds : second.length + 2 ≤ rounds)
    (hsteps : second.length + 2 ≤ steps) :
    ∃ more w, loop (nextStatement (grammar (levelsFor (rounds + 1)))) steps next earlier
        ⟨names, [], rounds⟩ u = .done more ⟨earlier.reverse ++ J.shift body.nodes, none⟩ w ∧
      w.kind.isMark .eof = true ∧ w.arena = J.base.append t.arena ∧
      w.warnings = J.before ++ t.warnings := by
  have hsize : (second ++ [J.last]).length = second.length + 1 := List.length_append
  have hfewer : (second ++ [J.last]).length ≤ rounds := by omega
  have hfirst : (second ++ [J.last]).length + 1 ≤ steps := by omega
  have hc : ParseContext.Within ⟨names, [], (second ++ [J.last]).length⟩ ⟨names, [], rounds⟩ :=
    ⟨rfl, rfl, hfewer⟩
  have hnears : J.Nears ⟨names, [], (second ++ [J.last]).length⟩ ⟨names, [], rounds⟩ _ u :=
    nears_second hsecond hmore hfinal hu hlength harena hwarnings
  obtain ⟨left, last, v, hloop, hleft, hshort, hv, hstored, hwarned⟩ :=
    statements_pass (levelsFor_mono (Nat.succ_le_succ hfewer)) earlier hc next hfirst hnears hrun
      hend
  have hround : 0 < left := by
    have hfirst : (second ++ [J.last]).length.succ ≤ steps := hfirst
    omega
  have hbehind : v.behindNewlines = [final] := by
    rw [hv, hmore,
      List.dropWhile_cons_of_neg (by simp [hfinal, TokenKind.isMark, TokenKind.mark?])]
  obtain ⟨more, w, hdone, hw, hstored', hwarned'⟩ :=
    loop_atEnd (g := grammar (levelsFor (rounds + 1))) (c := ⟨names, [], rounds⟩) hfinal hbehind
      (Nat.le_trans hshort hlength) hround last (J.shift body.nodes.reverse ++ earlier)
  refine ⟨more, w, ?_, ?_, by rw [hstored', hstored], by rw [hwarned', hwarned]⟩
  · rw [hloop, hdone, List.reverse_append, shift_reverse, List.reverse_reverse]
  · rw [ParseState.kind_of_ahead hw, hfinal]
    rfl

theorem statementsOf_join {taken taken' : Bool} {body body' : Statements} {t t' : ParseState}
    (hfirst : ∀ token ∈ first, token.kind.Takable) (hsecond : ∀ token ∈ second, token.kind.Takable)
    (hlast : last.kind = .mark .eof) (hlast' : last'.kind = .mark .eof)
    (hline : line.kind = .mark .newline) (hfinal : final.kind = .mark .eof)
    (hone : statementsOf names (first ++ [last]) = .done taken body t)
    (hend : t.kind.isMark .eof = true)
    (htwo : statementsOf names (second ++ [last']) = .done taken' body' t')
    (hend' : t'.kind.isMark .eof = true) :
    ∃ more u, statementsOf names (first ++ line :: (second ++ [final])) =
        .done more ⟨renumber (.behind .empty) body.nodes ++
          renumber (.behind (Arena.empty.append t.arena)) body'.nodes, none⟩ u ∧
      u.kind.isMark .eof = true ∧
      u.arena = (Arena.empty.append t.arena).append t'.arena ∧
      u.warnings = t.warnings ++ t'.warnings := by
  have hbehind : (line :: (second ++ [final])).dropWhile (·.kind.isMark .newline) =
      second.dropWhile (·.kind.isMark .newline) ++ [final] := by
    rw [List.dropWhile_cons_of_pos (by rw [hline]; rfl), dropWhile_of_breaks hfinal]
  let seam : Seam := {
    last
    more := line :: (second ++ [final])
    base := .empty
    before := #[]
    ends := hlast
    breaks := ⟨line, _, rfl, .inl hline⟩
    noBranch := by
      rintro kind rfl
      rw [hbehind]
      cases hnext : second.dropWhile (·.kind.isMark .newline) with
      | nil => simp [hfinal]
      | cons token rest =>
        have hs : ParseState.behindNewlines ⟨second ++ [last'], none, Arena.empty, #[]⟩ =
            token :: (rest ++ [last']) := by
          rw [ParseState.behindNewlines, dropWhile_of_breaks hlast', hnext, List.cons_append]
        have htoken : token.kind.Takable := hsecond token
          ((List.dropWhile_sublist (·.kind.isMark .newline)).subset (by rw [hnext]; simp))
        have hends := not_ends_of_statements htwo hend' hs htoken
        exact ⟨fun h => hends (.inr (.inl h)), fun h => hends (.inr (.inr h))⟩ }
  obtain ⟨left, next, u, hloop, hleft, hlength, hu, harena, hwarnings⟩ :=
    statementsOf_first (J := seam) rfl rfl hfirst hone hend
  let behind : Seam := {
    last := last'
    more := [final]
    base := Arena.empty.append t.arena
    before := t.warnings
    ends := hlast'
    breaks := ⟨final, [], rfl, .inr hfinal⟩
    noBranch := by
      rintro kind rfl
      simp [hfinal, TokenKind.isMark, TokenKind.mark?] }
  have hsize : seam.more.length = second.length + 2 := by simp [seam]
  have hrounds : second.length + 2 ≤ (first ++ seam.more).length := by
    rw [List.length_append, hsize]
    omega
  obtain ⟨more, w, hdone, hw⟩ := loop_second (J := behind) next (seam.shift body.nodes.reverse ++ [])
    hsecond rfl hfinal htwo hend' (hu.trans hbehind) hlength harena hwarnings hrounds
    (hsize ▸ hleft)
  refine ⟨more, w, ?_, hw⟩
  have hnodes : (seam.shift body.nodes.reverse ++ []).reverse = seam.shift body.nodes := by
    rw [List.append_nil, shift_reverse, List.reverse_reverse]
  rw [hnodes] at hdone
  exact hloop.trans hdone

end Seam

/-- Two programs are parsed one after the other. -/
theorem parse_join {first second : List Token} {last last' line final : Token} {names : Interner}
    {one two : ParseResult} (hfirst : ∀ token ∈ first, token.kind ≠ .mark .eof)
    (hsecond : ∀ token ∈ second, token.kind ≠ .mark .eof) (hlast : last.kind = .mark .eof)
    (hlast' : last'.kind = .mark .eof) (hline : line.kind = .mark .newline)
    (hfinal : final.kind = .mark .eof) (hone : parse (first ++ [last]) names = .ok one)
    (hnone : one.error = none) (htwo : parse (second ++ [last']) names = .ok two)
    (hnone' : two.error = none) :
    ∃ trees more, one.arena.statements? one.root = some trees ∧
      two.arena.statements? two.root = some more ∧
      (trees.length + more.length ≤ maxRunLength →
        ∃ both, parse (first ++ line :: (second ++ [final])) names = .ok both ∧
          both.error = none ∧ both.arena.statements? both.root = some (trees ++ more) ∧
          both.warnings = one.warnings ++ two.warnings ∧
          both.arena.size + 1 = one.arena.size + two.arena.size) := by
  have htakable : ∀ {tokens : List Token}, (∀ token ∈ tokens, token.kind ≠ .mark .eof) →
      ∀ token ∈ tokens, token.kind.Takable := by
    intro tokens h token htoken
    have hkind := h token htoken
    rw [TokenKind.Takable, ← Bool.not_eq_true, TokenKind.isMark_iff]
    exact hkind
  obtain ⟨_, body, t, span, hbody, hend, hheld, rfl⟩ := exists_statements hone hnone
  obtain ⟨_, body', t', span', hbody', hend', hheld', rfl⟩ := exists_statements htwo hnone'
  obtain ⟨trees, htrees⟩ := hheld.trees
  obtain ⟨more, hmore⟩ := hheld'.trees
  refine ⟨trees, more, Arena.statements?_pushBlock htrees span,
    Arena.statements?_pushBlock hmore span', fun hlength => ?_⟩
  obtain ⟨_, u, hjoined, hu, harena, hwarnings⟩ := Seam.statementsOf_join (htakable hfirst)
    (htakable hsecond) hlast hlast' hline hfinal hbody hend hbody' hend'
  have hboth : (renumber (.behind .empty) body.nodes ++
      renumber (.behind (Arena.empty.append t.arena)) body'.nodes).mapM u.arena.tree? =
        some (trees ++ more) := by
    have hone := ((Arena.embeds_append .empty t.arena).trees htrees)
    have hones := (Arena.embeds_of_le (Arena.le_append _ t'.arena)).trees hone
    have htwos := (Arena.embeds_append (Arena.empty.append t.arena) t'.arena).trees hmore
    rw [List.map_id'] at hones
    rw [harena, List.mapM_append]
    exact Option.bind_eq_some_iff.mpr ⟨trees, hones, Option.bind_eq_some_iff.mpr
      ⟨more, htwos, rfl⟩⟩
  rw [← List.length_append, length_of_mapM_option hboth] at hlength
  obtain ⟨span'', hparse⟩ := parse_of_statements hjoined hu hlength
  refine ⟨_, hparse, rfl, Arena.statements?_pushBlock hboth span'', ?_, ?_⟩
  · simp [hwarnings]
  · simp only [Arena.size_pushBlock, harena, Arena.size_append]
    simp [Arena.size, Arena.empty]
    omega

/-- How many statements a token list has, if it is a program without a fault. -/
def statementsIn (names : Interner) (tokens : List Token) : Option Nat :=
  match parse tokens names with
  | .ok result =>
    if result.error.isNone then (result.arena.statements? result.root).map List.length else none
  | .error _ => none

theorem exists_of_statementsIn {names : Interner} {tokens : List Token} {count : Nat}
    (h : statementsIn names tokens = some count) :
    ∃ result trees, parse tokens names = .ok result ∧ result.error = none ∧
      result.arena.statements? result.root = some trees ∧ trees.length = count := by
  unfold statementsIn at h
  split at h
  next result hparse =>
    split at h
    next hnone =>
      obtain ⟨trees, htrees, hlength⟩ := Option.map_eq_some_iff.mp h
      exact ⟨result, trees, hparse, Option.isNone_iff_eq_none.mp hnone, htrees, hlength⟩
    next => cases h
  next => cases h

def tokenOf (kind : TokenKind) : Token := ⟨kind, {}⟩

/-- A conditional on two lines, which is complete unless another branch follows it. -/
def conditionalTokens : List Token :=
  [.keyword .ifWord, .ident ⟨0⟩, .mark (.opening .brace), .mark .newline,
    .mark (.closing .brace)].map tokenOf

/-- A name is put behind a conditional. -/
theorem conditional_join :
    ∃ one two both trees more,
      parse (conditionalTokens ++ [tokenOf (.mark .eof)]) {} = .ok one ∧ one.error = none ∧
      parse ([tokenOf (.ident ⟨0⟩)] ++ [tokenOf (.mark .eof)]) {} = .ok two ∧ two.error = none ∧
      one.arena.statements? one.root = some trees ∧ two.arena.statements? two.root = some more ∧
      parse (conditionalTokens ++ tokenOf (.mark .newline) ::
        ([tokenOf (.ident ⟨0⟩)] ++ [tokenOf (.mark .eof)])) {} = .ok both ∧ both.error = none ∧
      both.arena.statements? both.root = some (trees ++ more) ∧
      both.warnings = one.warnings ++ two.warnings ∧
      both.arena.size + 1 = one.arena.size + two.arena.size := by
  have hcount : statementsIn {} (conditionalTokens ++ [tokenOf (.mark .eof)]) = some 1 := by
    decide +kernel
  have hcount' : statementsIn {} ([tokenOf (.ident ⟨0⟩)] ++ [tokenOf (.mark .eof)]) = some 1 := by
    decide +kernel
  obtain ⟨one, trees, hone, hnone, htrees, hlength⟩ := exists_of_statementsIn hcount
  obtain ⟨two, more, htwo, hnone', hmore, hlength'⟩ := exists_of_statementsIn hcount'
  have hend : (tokenOf (.mark .eof)).kind = .mark .eof := rfl
  have hline : (tokenOf (.mark .newline)).kind = .mark .newline := rfl
  have hfirst : ∀ token ∈ conditionalTokens, token.kind ≠ .mark .eof := by
    simp [conditionalTokens, tokenOf]
  have hsecond : ∀ token ∈ [tokenOf (.ident ⟨0⟩)], token.kind ≠ .mark .eof := by
    simp [tokenOf]
  obtain ⟨_, _, htrees', hmore', hjoin⟩ :=
    parse_join hfirst hsecond hend hend hline hend hone hnone htwo hnone'
  cases htrees.symm.trans htrees'
  cases hmore.symm.trans hmore'
  obtain ⟨both, hboth⟩ := hjoin (by rw [hlength, hlength']; decide)
  exact ⟨one, two, both, trees, more, hone, hnone, htwo, hnone', htrees, hmore, hboth⟩

end ExprScript
