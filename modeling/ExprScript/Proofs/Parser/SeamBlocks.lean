import ExprScript.Proofs.Parser.Kept
import ExprScript.Proofs.Parser.Nesting
import ExprScript.Proofs.Parser.Seam

/-!
# Statements in front of a line break

Given parsers for nested expressions that go on alike, lists of statements do so, too, until the
first of the two token lists is at its end. A block is closed before.
-/
namespace ExprScript.Seam

open Renumbers ExprScript.Parser

/-- Two grammars that go on alike, of which the first takes at least one token at each place. -/
structure Grammars (J : Seam) (g g' : Grammar) : Prop where
  follows : ∀ place b, J.Follows false b (fun _ => True) (g place) (g' place)
  stuck : ∀ place, J.Stuck (g place)
  balanced : Grammar.Balanced g
  balanced' : Grammar.Balanced g'

section
variable {α β : Type} [Renumbers α] {J : Seam} {w b : Bool} {K : ParseState → Prop}
  {g g' : Grammar} {p q : Parser α} {c c' : ParseContext} {s s' t : ParseState} {taken : Bool}
  {before : List NodeId} {r : List NodeId ⊕ Statements}

theorem Grammars.at (h : J.Grammars g g') (place : Place) :
    J.Follows w b K (g place) (g' place) :=
  (h.follows place b).mono (fun _ _ => trivial) w

@[simp] theorem shift_reverse (items : List α) : (J.shift items).reverse = J.shift items.reverse :=
  List.map_reverse.symm

@[simp] theorem isSome_shift (value : Option α) : (J.shift value).isSome = value.isSome :=
  Option.isSome_map

theorem follows_some (hp : J.Follows w b K p q) :
    J.Follows w b K (do return some (← p)) (do return some (← q)) :=
  hp.bind fun _ => .pure rfl

variable (hg : J.Grammars g g')
include hg

/-! ## Statements -/

theorem follows_guard : J.Follows w b K (guard g) (guard g') :=
  .eatKeyword (follows_some (hg.at .ternary)) (.pure rfl)

theorem follows_returnedValue : J.Follows w b K (returnedValue g) (returnedValue g') :=
  follows_atBoundary.bind fun _ => .checkKeyword fun _ => .ite (.pure rfl)
    (follows_some (hg.at .expr))

theorem follows_returnStatement (hK : ∀ s, K s → s.kind.Takable) :
    J.Follows w b K (returnStatement g) (returnStatement g') :=
  .advance hK fun _ => (follows_returnedValue hg).bind fun _ => (follows_guard hg).bind fun _ =>
    (follows_spanFrom _).bind fun _ => follows_node rfl _

omit hg in
theorem follows_loopLabel : J.Follows w b K loopLabel loopLabel := by
  refine .eat (by simp) (.currentSpan (fun span => ?_) fun span => ?_) (.pure rfl)
  · refine (follows_identifier _).bind fun name => .context fun c c' hc => ?_
    rw [hc.loops]
    exact .ite (.pure rfl) ((follows_textOf _).bind fun _ => .fault)
  · exact (stuck_identifier _).bind

theorem follows_loopControl (hK : ∀ s, K s → s.kind.Takable) (keyword : Keyword)
    {build : Option Name → Option NodeId → Expr}
    (hbuild : ∀ label condition,
      build label (J.shift condition) = J.shift (build label condition)) :
    J.Follows w b K (loopControl g keyword build) (loopControl g' keyword build) := by
  refine .advance hK fun start => .context fun c c' hc => ?_
  rw [hc.loops]
  refine .ite .fault (follows_loopLabel.bind fun label => (follows_guard hg).bind fun condition => ?_)
  exact (follows_spanFrom _).bind fun _ => follows_node (hbuild _ _) _

theorem follows_statement : J.Follows w b K (statement g) (statement g') := by
  refine .current (fun token htoken => ?_) (fun token hbreaks => ?_)
  · have hK : ∀ s : ParseState, K s ∧ s.kind = token.kind → s.kind.Takable := by
      rintro s ⟨-, hs⟩
      rw [hs]
      exact htoken
    split
    · exact follows_returnStatement hg hK
    · exact follows_loopControl hg hK _ fun _ _ => rfl
    · exact follows_loopControl hg hK _ fun _ _ => rfl
    · exact hg.at .expr
  · rcases hbreaks with hkind | hkind <;> rw [hkind, J.ends] <;> exact hg.at .expr

/-! ## Blocks -/

omit hg in
theorem ahead_of_orStop (hg : Grammar.Balanced g) {c : ParseContext} {s t : ParseState}
    {taken : Bool} {d : Diagnostic} (h : orStop (statement g) c s = .done taken (.error d) t) :
    t.ahead = s.ahead := by
  have hbalanced := balanced_statement hg c s trivial
  unfold orStop at h
  cases hrun : statement g c s with
  | done more v u =>
    rw [hrun] at h
    cases h
  | failed more e u =>
    rw [hrun] at h hbalanced
    obtain ⟨closed, ⟨gone, hgone, htaken, -⟩, -⟩ := hbalanced
    cases more with
    | true => cases h
    | false =>
      have hnothing : gone = [] := by simpa using htaken
      rw [hnothing] at hgone
      cases e <;> cases h
      exact hgone.symm

omit hg [Renumbers α] in
theorem done_of_orStop {p : Parser α} {c : ParseContext} {s t : ParseState} {taken : Bool} {v : α}
    (h : orStop p c s = .done taken (.ok v) t) : p c s = .done taken v t := by
  unfold orStop at h
  cases hrun : p c s with
  | done more v u =>
    rw [hrun] at h
    cases h
    rfl
  | failed more e u =>
    rw [hrun] at h
    cases more <;> cases e <;> cases h

omit hg in
/-- A round of a list of statements finds the end of the list, a token that begins no statement, or
one more statement. -/
theorem nextStatement_cases {before : List NodeId} {c : ParseContext} {s t : ParseState}
    {taken : Bool} {r : List NodeId ⊕ Statements}
    (h : nextStatement g before c s = .done taken r t) :
    ∃ first u, skipNewlines c s = .done first () u ∧
      ((u.kind.isMark .eof || u.kind.isMark (.closing .brace)) = true ∧
          r = .inr ⟨before.reverse, none⟩ ∧ t = u ∨
        (u.kind.isMark .eof || u.kind.isMark (.closing .brace)) = false ∧
          ((∃ more d, orStop (statement g) c u = .done more (.error d) t ∧
              r = .inr ⟨before.reverse, some d⟩) ∨
            ∃ more id, statement g c u = .done more id t ∧
              (r = .inl (id :: before) ∧ (t.kind.Breaks ∨ t.kind = .mark (.closing .brace)) ∨
                r = .inr ⟨(id :: before).reverse, none⟩ ∧
                  ∃ bracket ≠ .brace, t.kind = .mark (.closing bracket)))) := by
  obtain ⟨first, _, u, more, hskip, h⟩ := done_of_bind h
  refine ⟨first, u, hskip, ?_⟩
  rw [isAtEnd, bind_of_done (check_eq _), bind_of_done (check_eq _), ParseReply.after_false,
    ParseReply.after_false] at h
  cases hend : u.kind.isMark .eof || u.kind.isMark (.closing .brace) with
  | true =>
    rw [hend] at h
    cases h
    exact .inl ⟨rfl, rfl, rfl⟩
  | false =>
    rw [hend, if_neg Bool.false_ne_true] at h
    obtain ⟨next, stop, v, _, hstop, h⟩ := done_of_bind h
    cases stop with
    | error d =>
      cases h
      exact .inr ⟨rfl, .inl ⟨next, d, hstop, rfl⟩⟩
    | ok id =>
      obtain ⟨p, hp, h⟩ := done_of_current h
      have hfound := done_of_orStop hstop
      split at hp <;> rw [hp] at h
      next hkind =>
        cases h
        exact .inr ⟨rfl, .inr ⟨next, id, hfound, .inl ⟨rfl, .inl (.inl hkind)⟩⟩⟩
      next hkind =>
        cases h
        exact .inr ⟨rfl, .inr ⟨next, id, hfound, .inl ⟨rfl, .inl (.inr hkind)⟩⟩⟩
      next hkind =>
        cases h
        exact .inr ⟨rfl, .inr ⟨next, id, hfound, .inl ⟨rfl, .inr hkind⟩⟩⟩
      next bracket hbrace hkind =>
        cases h
        exact .inr ⟨rfl, .inr ⟨next, id, hfound, .inr ⟨rfl, bracket, hbrace, hkind⟩⟩⟩
      next => cases h

omit hg in
theorem nextStatement_of_statement {before : List NodeId} {c : ParseContext}
    {s u t : ParseState} {first more : Bool} {id : NodeId} {r : List NodeId ⊕ Statements}
    (hskip : skipNewlines c s = .done first () u)
    (hend : (u.kind.isMark .eof || u.kind.isMark (.closing .brace)) = false)
    (hstatement : statement g c u = .done more id t)
    (hr : r = .inl (id :: before) ∧ (t.kind.Breaks ∨ t.kind = .mark (.closing .brace)) ∨
      r = .inr ⟨(id :: before).reverse, none⟩ ∧
        ∃ bracket ≠ .brace, t.kind = .mark (.closing bracket)) :
    ∃ taken, nextStatement g before c s = .done taken r t := by
  have hstop : orStop (statement g) c u = .done more (.ok id) t := orStop_of_done hstatement
  have hcurrent : current c t = .done false (t.ahead.headD eofToken) t := rfl
  unfold nextStatement
  rw [bind_of_done hskip, isAtEnd, bind_of_done (check_eq _), bind_of_done (check_eq _), hend,
    if_neg Bool.false_ne_true, bind_of_done hstop]
  dsimp only
  rw [bind_of_done hcurrent]
  rcases hr with ⟨rfl, (hkind | hkind) | hkind⟩ | ⟨rfl, bracket, hbracket, hkind⟩ <;>
    rw [ParseState.kind] at hkind <;> rw [hkind]
  · exact ⟨_, rfl⟩
  · exact ⟨_, rfl⟩
  · exact ⟨_, rfl⟩
  · cases bracket with
    | brace => exact absurd rfl hbracket
    | _ => exact ⟨_, rfl⟩

omit hg in
theorem shortens_nextStatement (hg : Grammar.Balanced g)
    (h : nextStatement g before c s = .done taken r t) : t.ahead.length ≤ s.ahead.length := by
  have hround := balances_nextStatement hg before c s trivial
  rw [h] at hround
  obtain ⟨_, ⟨gone, hgone, -⟩, -⟩ := hround
  rw [hgone, List.length_append]
  omega

/-- Two states that are beside each other behind the line breaks ahead, unless the first one is at
its end there. -/
structure Nears (J : Seam) (c c' : ParseContext) (s s' : ParseState) : Prop where
  behind : ∀ first u, skipNewlines c s = .done first () u → u.ahead ≠ [J.last] →
    ∃ first' u', skipNewlines c' s' = .done first' () u' ∧ J.Beside false u u'
  last : s.behindNewlines = [J.last] →
    s'.behindNewlines = J.more.dropWhile (·.kind.isMark .newline)
  arena : s'.arena = J.base.append s.arena
  warnings : s'.warnings = J.before ++ s.warnings

omit hg in
theorem Beside.nears (hc : c.Within c') (h : J.Beside false s s') : J.Nears c c' s s' where
  behind first u hskip hopen :=
    ((follows_skipNewlines (K := fun _ => True) c c' s first () u hc trivial hskip).1 s'
      h).resolve_right fun h => hopen h.2
  last hlast := by
    obtain ⟨tokens, hs, hs', -⟩ := h.ahead
    have hnone : tokens.dropWhile (·.kind.isMark .newline) = [] := by
      have hlength := congrArg List.length hlast
      rw [ParseState.behindNewlines, hs, List.dropWhile_append] at hlength
      split at hlength
      · simp_all
      · simpa using hlength
    rw [ParseState.behindNewlines, hs', List.dropWhile_append, hnone]
    rfl
  arena := h.arena
  warnings := h.warnings

/-- What a round of a list of statements comes to. The other parser has more statements before. -/
theorem nextStatement_reaches (before earlier : List NodeId) (hc : c.Within c')
    (hs : J.Nears c c' s s') (hrun : nextStatement g before c s = .done taken r t) :
    (∃ next, r = .inl next ∧ ∃ more t',
      nextStatement g' (J.shift before ++ earlier) c' s' =
        .done more (.inl (J.shift next ++ earlier)) t' ∧ J.Beside false t t') ∨
    (∃ nodes, r = .inr ⟨nodes, none⟩ ∧ t.ahead ≠ [J.last] ∧ ∃ more t',
      nextStatement g' (J.shift before ++ earlier) c' s' =
        .done more (.inr ⟨earlier.reverse ++ J.shift nodes, none⟩) t' ∧ J.Beside false t t') ∨
    (r = .inr ⟨before.reverse, none⟩ ∧ s.behindNewlines = [J.last] ∧ t.ahead = [J.last] ∧
      t.arena = s.arena ∧ t.warnings = s.warnings) ∨
    ∃ nodes d, r = .inr ⟨nodes, some d⟩ ∧ t.kind.Stray := by
  obtain ⟨first, u, hskip, hround⟩ := nextStatement_cases hrun
  obtain ⟨hahead, harena, hwarnings⟩ := kept_of_skipNewlines hskip
  by_cases hlast : u.ahead = [J.last]
  · have hkind : u.kind = .mark .eof := kind_of_end hlast
    rw [hkind] at hround
    obtain ⟨-, rfl, rfl⟩ := hround.resolve_right fun h => absurd h.1 (by decide)
    exact .inr (.inr (.inl ⟨rfl, hahead.symm.trans hlast, hlast, harena, hwarnings⟩))
  obtain ⟨first', u', hskip', hu⟩ := hs.behind first u hskip hlast
  obtain ⟨hsame, htakable⟩ := hu.kind.resolve_right fun h => hlast h.1
  rcases hround with ⟨hend, rfl, rfl⟩ | ⟨hend, ⟨more, d, hstop, rfl⟩ | ⟨more, id, hfound, hr⟩⟩
  · refine .inr (.inl ⟨_, rfl, hlast, exists_done_then hskip' ?_⟩)
    refine exists_done_then (check_eq _) (exists_done_then (check_eq _) ?_)
    rw [hsame, hend, List.reverse_append, shift_reverse]
    exact ⟨_, u', rfl, hu⟩
  · have hkind : t.kind = u.kind := by
      rw [ParseState.kind, ahead_of_orStop hg.balanced hstop, ParseState.kind]
    have hnewline := kind_of_skipNewlines hskip
    rw [← hkind] at hnewline hend
    rw [Bool.or_eq_false_iff] at hend
    exact .inr (.inr (.inr ⟨_, d, rfl, hnewline, hend.1, hend.2⟩))
  obtain ⟨more', t', hfound', ht⟩ := ((follows_statement hg (K := fun _ => True) c c' u more id t
    hc trivial hfound).1 u' hu).resolve_right fun h => Bool.false_ne_true h.1
  rw [← hsame] at hend
  have hround := @nextStatement_of_statement g' (J.shift before ++ earlier) c' s' u' t' first'
    more' (J.shift id)
  rcases hr with ⟨rfl, hkind⟩ | ⟨rfl, bracket, hbracket, hkind⟩
  · have hends : t'.kind.Breaks ∨ t'.kind = .mark (.closing .brace) := by
      rcases ht.kind with ⟨hsame, -⟩ | ⟨-, hbreaks⟩
      · rwa [hsame]
      · exact .inl hbreaks
    obtain ⟨taken', hrun'⟩ := hround hskip' hend hfound' (.inl ⟨rfl, hends⟩)
    exact .inl ⟨_, rfl, taken', t', hrun', ht⟩
  · obtain ⟨hsame, htakable⟩ := ht.kind.resolve_right fun h => by
      rw [kind_of_end h.1] at hkind
      cases hkind
    have hopen : t.ahead ≠ [J.last] := fun h => by
      rw [kind_of_end h] at hkind
      cases hkind
    obtain ⟨taken', hrun'⟩ :=
      hround hskip' hend hfound' (.inr ⟨rfl, bracket, hbracket, hsame.trans hkind⟩)
    refine .inr (.inl ⟨_, rfl, hopen, taken', t', ?_, ht⟩)
    have hnodes : J.shift id :: (J.shift before ++ earlier) = J.shift (id :: before) ++ earlier :=
      rfl
    rw [hrun', hnodes, List.reverse_append, shift_reverse]

theorem statements_reach (earlier : List NodeId) (hc : c.Within c')
    {steps : Nat} {body : Statements} :
    ∀ {steps' first before s s'} (first' : Bool), steps ≤ steps' → J.Nears c c' s s' →
      loop (nextStatement g) steps first before c s = .done taken body t →
      (∃ nodes, body = ⟨nodes, none⟩ ∧ t.ahead ≠ [J.last] ∧ ∃ more t',
        loop (nextStatement g') steps' first' (J.shift before ++ earlier) c' s' =
          .done more ⟨earlier.reverse ++ J.shift nodes, none⟩ t' ∧ J.Beside false t t') ∨
      (∃ nodes left next u', body = ⟨nodes.reverse, none⟩ ∧ t.ahead = [J.last] ∧
        loop (nextStatement g') steps' first' (J.shift before ++ earlier) c' s' =
          loop (nextStatement g') left next (J.shift nodes ++ earlier) c' u' ∧
        steps' < left + steps ∧ u'.ahead.length ≤ s'.ahead.length ∧
        u'.behindNewlines = J.more.dropWhile (·.kind.isMark .newline) ∧
        u'.arena = J.base.append t.arena ∧ u'.warnings = J.before ++ t.warnings) ∨
      ∃ nodes d, body = ⟨nodes, some d⟩ ∧ t.kind.Stray := by
  induction steps with
  | zero => exact fun _ _ _ hrun => by cases hrun
  | succ steps ih =>
    intro steps' first before s s' first' hsteps hs hrun
    obtain ⟨steps', rfl⟩ : ∃ n, steps' = n + 1 := ⟨steps' - 1, by omega⟩
    rw [loop_succ] at hrun
    cases hround : nextStatement g before c s with
    | failed more e u =>
      rw [hround] at hrun
      cases hrun
    | done more r u =>
      rw [hround] at hrun
      rcases nextStatement_reaches hg before earlier hc hs hround with
        ⟨next, rfl, more', u', hround', hu⟩ | ⟨nodes, rfl, hopen, more', u', hround', hu⟩ |
        ⟨rfl, hlast, hend, harena, hwarnings⟩ | ⟨nodes, d, rfl, hstray⟩
      · have hshort := shortens_nextStatement hg.balanced' hround'
        rw [loop_of_inl hround']
        rcases ih (first' || more') (Nat.le_of_succ_le_succ hsteps) (hu.nears hc) hrun with
          h | ⟨nodes, left, last, v', hbody, hend, hloop, hleft, hlength, hv⟩ | h
        · exact .inl h
        · exact .inr (.inl ⟨nodes, left, last, v', hbody, hend, hloop, by omega, by omega, hv⟩)
        · exact .inr (.inr h)
      · cases hrun
        exact .inl ⟨nodes, rfl, hopen, _, u', loop_of_inr hround' _ _, hu⟩
      · cases hrun
        refine .inr (.inl ⟨before, steps' + 1, first', s', rfl, hend, rfl, by omega,
          Nat.le_refl _, hs.last hlast, ?_, ?_⟩)
        · rw [harena, hs.arena]
        · rw [hwarnings, hs.warnings]
      · cases hrun
        exact .inr (.inr ⟨nodes, d, rfl, hstray⟩)

omit [Renumbers α] hg in
theorem stuck_braced {f : Statements → Span → Parser α} (opened : Span) :
    J.Stuck (do
      let body ← statements g
      let closed ← expectCloser .brace opened body.stopped
      f body closed) := by
  intro c s taken v t hs hrun
  obtain ⟨first, body, u, more, hbody, hmore⟩ := done_of_bind hrun
  have hu : u.ahead = [J.last] := by
    unfold statements repeating at hbody
    rw [loop_succ] at hbody
    cases hround : nextStatement g [] c s with
    | failed more e u =>
      rw [hround] at hbody
      cases hbody
    | done more r u =>
      obtain ⟨first, w, hskip, hend⟩ := nextStatement_cases hround
      have hw : w.ahead = [J.last] := by
        rw [ahead_of_skipNewlines hskip, s.behindNewlines_of_not (by rw [kind_of_end hs]; rfl), hs]
      obtain ⟨-, rfl, rfl⟩ := hend.resolve_right fun h => by
        rw [kind_of_end hw] at h
        exact absurd h.1 (by decide)
      rw [hround] at hbody
      cases hbody
      exact hw
  obtain ⟨next, closed, v, last, hclosed, -⟩ := done_of_bind hmore
  exact stuck_expectCloser _ _ _ c u next closed v hu hclosed

theorem Follows.braced {f f' : Statements → Span → Parser α} (opened : Span)
    (hf : ∀ nodes closed, J.Follows w true (fun _ => True) (f ⟨nodes, none⟩ closed)
      (f' ⟨J.shift nodes, none⟩ closed)) :
    J.Follows w b K
      (do
        let body ← statements g
        let closed ← expectCloser .brace opened body.stopped
        f body closed)
      (do
        let body ← statements g'
        let closed ← expectCloser .brace opened body.stopped
        f' body closed) := by
  intro c c' s taken v t hc _ hrun
  refine ⟨fun s' hs => ?_, fun hs => absurd hrun (stuck_braced opened c s taken v t hs)⟩
  obtain ⟨first, body, u, more, hbody, hmore⟩ := done_of_bind hrun
  obtain ⟨next, closed, x, last, hclosed, hlast⟩ := done_of_bind hmore
  have hnears : J.Nears c c' s s' := Beside.nears hc { hs with previous := fun h => by cases h }
  rcases statements_reach hg [] hc false (Nat.succ_le_succ hc.rounds) hnears hbody
    with ⟨nodes, rfl, -, more', u', hbody', hu⟩ | ⟨_, _, _, _, -, hend, -⟩ |
      ⟨nodes, d, rfl, hstray⟩
  · obtain ⟨_, x', hclosed', hx⟩ := ((follows_expectCloser .brace opened (K := fun _ => True) c c' u
      next closed x hc trivial hclosed).1 u' hu).resolve_right fun h => Bool.false_ne_true h.1
    have hbeside : J.Beside true x x' := { hx with
      previous := fun _ =>
        ⟨closed, previous_of_expectCloser hclosed, previous_of_expectCloser hclosed'⟩ }
    have hreached := (hf nodes closed c c' x last v t hc trivial hlast).1 x' hbeside
    exact .then hbody' (.then hclosed' (hreached.mono b))
  · exact absurd hclosed (stuck_expectCloser _ _ _ c u next closed x hend)
  · rw [expectCloser_of_stray hstray] at hclosed
    cases hclosed

theorem follows_block : J.Follows w b K (block g) (block g') := by
  refine .currentSpan (fun opened => ?_) fun opened => .eat (by simp) (stuck_failExpected _)
  refine .eat (by simp) ?_ (follows_failExpected _)
  exact .braced hg opened fun nodes closed =>
    (follows_storeList nodes).bind fun _ => follows_node rfl _

omit hg in
theorem stuck_block : J.Stuck (block g) :=
  .currentSpan fun _ => .eat (by simp) (stuck_failExpected _)

end

end ExprScript.Seam
