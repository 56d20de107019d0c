import ExprScript.Proofs.Parser.Keeping

/-!
# What productions keep

Every production hands over one new node, or the node of a production inside it, and that node owns
all nodes that the productions inside it handed over.
-/
namespace ExprScript

open Carries

/-- A token that neither ends a statement nor the list of statements around it. -/
structure TokenKind.Stray (kind : TokenKind) : Prop where
  newline : kind.isMark .newline = false
  eof : kind.isMark .eof = false
  closing : kind.isMark (.closing .brace) = false

/-- A list of statements carries their nodes, and all nodes unless it stopped in front of a stray
token. -/
structure Statements.Carried (P : Span → Prop) (t : ParseState) (body : Statements)
    (ids : List NodeId) : Prop where
  nodes : ∃ lost, ids = lost ++ body.nodes ∧ (body.stopped = none → lost = [])
  stopped : Within P body.stopped
  stray : body.stopped ≠ none → t.kind.Stray

namespace Parser

variable {α β : Type} {P : Span → Prop} {a : Arena} {held : List NodeId} {g : Grammar}

theorem nodes_option (id : Option NodeId) : nodes id = id.toList := by
  cases id <;> rfl

theorem nodes_list (ids : List NodeId) : nodes ids = ids := List.flatMap_singleton' ids

def Grammar.Hands (P : Span → Prop) (g : Grammar) : Prop :=
  ∀ place a, Parser.Hands P a [] (g place)

theorem hands_some {p : Parser NodeId} (hp : Hands P a held p) :
    Hands P a held (do return some (← p)) :=
  .map hp (fun _ => rfl) fun _ _ _ _ => trivial

theorem hands_none : Hands P a [] (Pure.pure (none : Option NodeId)) :=
  Hands.pure (.refl _) fun _ _ => trivial

section
variable (hP : Span.Closed P) (hg : Grammar.Hands P g)
include hP hg

/-! ## Statements -/

theorem hands_guard : Hands P a [] (guard g) :=
  (looks_eatKeyword hP _).then fun _ _ => .ite (hands_some (hg .ternary a)) hands_none

theorem hands_returnedValue : Hands P a [] (returnedValue g) :=
  (looks_atBoundary hP).then fun _ _ => (looks_checkKeyword _).then fun _ _ =>
    .ite hands_none (hands_some (hg .expr a))

theorem hands_returnStatement : Hands P a [] (returnStatement g) := by
  refine (looks_advance hP).then fun start hstart => ?_
  refine (hands_returnedValue hP hg).bind fun b value hab _ => ?_
  refine (hands_guard hP hg).bind fun c condition hbc _ => ?_
  refine (looks_spanFrom hP hstart).then fun span hspan => hands_node _ rfl ?_ hspan
  simpa [nodes_option] using List.perm_append_comm

omit hg in
theorem looks_loopLabel : Looks P loopLabel := by
  refine (looks_eat hP _).bind fun _ _ => ?_
  split
  · refine (looks_currentSpan hP).bind fun span hspan => (looks_identifier hP _).bind fun _ _ => ?_
    refine looks_context.bind fun _ _ => ?_
    split
    · exact .pure fun _ _ => trivial
    · exact (looks_textOf _).bind fun _ _ _ => .fault ⟨hspan, rfl⟩
  · exact .pure fun _ _ => trivial

theorem hands_loopControl (keyword : Keyword) {build : Option Name → Option NodeId → Expr}
    (hbuild : ∀ b label condition,
      (build label condition).children? b = some (nodes condition)) :
    Hands P a [] (loopControl g keyword build) := by
  refine (looks_advance hP).then fun start hstart => looks_context.then fun c _ => ?_
  refine .ite (.fault ⟨hstart, rfl⟩) ?_
  refine (looks_loopLabel hP).then fun label _ => ?_
  refine (hands_guard hP hg).bind fun b condition hab _ => ?_
  refine (looks_spanFrom hP hstart).then fun span hspan => ?_
  exact hands_node _ (hbuild b label condition) (by simp) hspan

theorem hands_statement : Hands P a [] (statement g) := by
  refine (looks_current hP).then fun token _ => ?_
  split
  · exact hands_returnStatement hP hg
  · exact hands_loopControl hP hg _ fun _ _ _ => by simp [Expr.children?, Expr.parts?, nodes_option]
  · exact hands_loopControl hP hg _ fun _ _ _ => by simp [Expr.children?, Expr.parts?, nodes_option]
  · exact hg .expr a

omit hP hg in
theorem Hands.orStop [Carries α] {p : Parser α} (hp : Hands P a held p) :
    Keeps P a held (fun t r ids => (∀ v, r = .ok v → Whole P t v ids) ∧
      ∀ d, r = .error d → d.PointsAt P) (Parser.orStop p) := by
  intro c s frame has hs
  have hreply := hp c s frame has hs
  unfold Parser.orStop
  cases hrun : p c s with
  | done taken v t =>
    rw [hrun] at hreply
    obtain ⟨honward, ids, hids, ht⟩ := hreply
    refine ⟨honward, ids, ⟨fun w hw => ?_, fun d hd => (by cases hd)⟩, ht⟩
    cases hw
    exact hids
  | failed taken e t =>
    rw [hrun] at hreply
    cases taken with
    | true => exact hreply
    | false =>
      cases e with
      | fault d =>
        obtain ⟨honward, htold, lost, ht⟩ := hreply
        refine ⟨honward, lost, ⟨fun w hw => (by cases hw), fun other hd => ?_⟩, ht⟩
        cases hd
        exact htold
      | tooLong count => exact hreply
      | exhausted => exact hreply

omit hP hg in
theorem Statements.carried_all {nodes : List NodeId} {t : ParseState} :
    Statements.Carried P t ⟨nodes, none⟩ nodes :=
  ⟨⟨[], rfl, fun _ => rfl⟩, fun _ h => (by cases h), fun h => absurd rfl h⟩

/-- If a statement stops softly, the token in front of it is still ahead. -/
theorem keeps_nextStatement (before : List NodeId) :
    Keeps P a (nodes before) (Rounds P (Statements.Carried P)) (nextStatement g before) := by
  have hreverse : (nodes before).Perm before.reverse := by
    rw [nodes_list]
    exact before.reverse_perm.symm
  have hlast : ∀ last : NodeId, (nodes last ++ nodes before).Perm (last :: before).reverse := by
    intro last
    rw [nodes_list]
    exact (last :: before).reverse_perm.symm
  intro c s frame has hs
  refine Kept.bind (looks_skipNewlines hP a c s (nodes before ++ frame) has hs) ?_
  rintro taken v ids t hskip hst ⟨rfl, -⟩ ht
  have hat := has.trans hst.grows
  rw [isAtEnd, bind_of_done (check_eq _), bind_of_done (check_eq _), ParseReply.after_false,
    ParseReply.after_false]
  split
  · exact Keeps.perm (.pure fun _ _ => Statements.carried_all) hreverse c t frame hat ht
  next hends =>
    obtain ⟨heof, hbrace⟩ :
        t.kind.isMark .eof = false ∧ t.kind.isMark (.closing .brace) = false := by
      simpa using hends
    refine Kept.bind ((hands_statement hP hg).orStop c t (nodes before ++ frame) hat ht) ?_
    rintro more r ids u hstop htu ⟨hok, herror⟩ hu
    have hau := hat.trans htu.grows
    cases r with
    | ok last =>
      obtain ⟨rfl, -⟩ := hok last rfl
      rw [← List.append_assoc] at hu
      refine Looks.then (looks_current hP) (fun token _ => ?_) c u frame hau hu
      split
      · exact .pure fun _ _ => ⟨rfl, fun _ _ => trivial⟩
      · exact .pure fun _ _ => ⟨rfl, fun _ _ => trivial⟩
      · exact .pure fun _ _ => ⟨rfl, fun _ _ => trivial⟩
      · exact Keeps.perm (.pure fun _ _ => Statements.carried_all) (hlast last)
      · exact keeps_failFound hP _
    | error d =>
      have hkind : u.kind = t.kind := by
        rw [ParseState.kind, htu.unmoved (taken_of_orStop hstop), ParseState.kind]
      have hcarried : Statements.Carried P u ⟨before.reverse, some d⟩ (ids ++ before.reverse) := by
        refine ⟨⟨ids, rfl, fun h => by cases h⟩, fun other h => ?_, fun _ => ?_⟩
        · cases h
          exact herror d rfl
        · rw [hkind]
          exact ⟨kind_of_skipNewlines hskip, heof, hbrace⟩
      refine ⟨.refl u, ids ++ before.reverse, hcarried, ?_⟩
      rw [← List.append_assoc] at hu
      exact hu.perm ((hreverse.append_left ids).append_right frame)

theorem keeps_statements : Keeps P a [] (Statements.Carried P) (statements g) :=
  Keeps.repeating ([] : List NodeId) (fun _ h => by cases h)
    fun _ before _ _ => keeps_nextStatement hP hg before

omit hP hg in
theorem expectCloser_of_stray {c : ParseContext} {s : ParseState} (h : s.kind.Stray) (opened : Span)
    (d : Diagnostic) : expectCloser .brace opened (some d) c s = .failed false (.fault d) s := by
  rw [expectCloser, bind_of_done (skipNewlines_of_not h.newline), bind_of_done (check_eq _),
    h.closing, if_neg Bool.false_ne_true, isAtEnd, bind_of_done (check_eq _), h.eof]
  rfl

theorem hands_block : Hands P a [] (block g) := by
  refine (looks_currentSpan hP).then fun opened hopened => (looks_eat hP _).then fun _ _ => ?_
  refine .ite ?_ (keeps_failExpected hP _)
  intro c s frame has hs
  have hbody : Kept P ([] ++ frame) _ s _ := keeps_statements hP hg c s frame has hs
  refine hbody.bind ?_
  rintro taken ⟨body, stopped⟩ ids t - hst ⟨⟨lost, rfl, hlost⟩, hstopped, hstray⟩ ht
  cases stopped with
  | none =>
    obtain rfl := hlost rfl
    refine (looks_expectCloser hP .brace hopened hstopped).then (fun closed hclosed => ?_) c t frame
      (has.trans hst.grows) ht
    refine .storeList fun b list _ hlist => hands_node body ?_ (.refl _)
      (hP.merge _ _ hopened hclosed)
    simp [Expr.children?, Expr.parts?, hlist]
  | some d =>
    dsimp only
    rw [bind_of_failed (expectCloser_of_stray (hstray (by simp)) opened d)]
    exact ⟨.refl t, hstopped d rfl, _, ht⟩

/-! ## Lists and branches -/

omit hP hg in
theorem perm_nodes_reverse [Carries α] (values : List α) :
    (nodes values).Perm (nodes values.reverse) :=
  values.reverse_perm.symm.flatMap_right nodes

omit hP hg in
theorem within_reverse [Carries α] {values : List α} (hvalues : Within P values) :
    Within P values.reverse :=
  fun value hvalue => hvalues value (List.mem_reverse.mp hvalue)

omit hP hg in
theorem within_cons [Carries α] {value : α} {values : List α} (hvalue : Within P value)
    (hvalues : Within P values) : Within P (value :: values) :=
  List.forall_mem_cons.mpr ⟨hvalue, hvalues⟩

omit hg in
theorem hands_commaRound [Carries α] {item : Parser α} (hitem : ∀ a, Hands P a [] item)
    (closing : Bracket) {before : List α} (hbefore : Within P before) :
    Hands P a (nodes before) (commaRound closing item before) := by
  refine (looks_check _).then fun _ _ => (looks_check _).then fun _ _ => ?_
  refine .ite (Hands.pure (perm_nodes_reverse before) (within_reverse hbefore)) ?_
  refine (hitem a).bind fun b next _ hnext => (looks_skipNewlines hP).then fun _ _ => ?_
  refine (looks_eat hP _).then fun _ _ => .ite ?_ ?_
  · exact (looks_skipNewlines hP).then fun _ _ => Hands.pure (.refl _) (within_cons hnext hbefore)
  · exact Hands.pure (perm_nodes_reverse (next :: before))
      (within_reverse (within_cons hnext hbefore))

omit hg in
theorem hands_commaList [Carries α] {item : Parser α} (hitem : ∀ a, Hands P a [] item)
    (closing : Bracket) : Hands P a [] (commaList closing item) :=
  (looks_skipNewlines hP).then fun _ _ =>
    Hands.repeating ([] : List α) (fun _ h => (by cases h))
      fun _ _ _ hbefore => hands_commaRound hP hitem closing hbefore

theorem hands_group : Hands P a [] (group g) := by
  refine (looks_advance hP).then fun opened hopened => (looks_skipNewlines hP).then fun _ _ => ?_
  refine (hg .expr a).bind fun b inner _ _ => ?_
  refine (looks_expectCloser hP .paren hopened fun _ h => by cases h).then fun _ _ => ?_
  exact Hands.pure (.refl _) trivial

theorem hands_listLiteral : Hands P a [] (listLiteral g) := by
  refine (looks_advance hP).then fun opened hopened => ?_
  refine (hands_commaList hP (hg .ternary) .square).bind fun b items _ _ => ?_
  refine (looks_expectCloser hP .square hopened fun _ h => by cases h).then fun closed hclosed => ?_
  refine .storeList fun c list _ hlist => ?_
  refine hands_node items ?_ ?_ (hP.merge _ _ hopened hclosed)
  · simp [Expr.children?, Expr.parts?, hlist]
  · simp [nodes_list]

theorem hands_branch : Hands P a [] (branch g) := by
  refine (hg .logical a).bind fun b condition _ _ => ?_
  refine (hands_block hP hg).bind fun c body _ _ => ?_
  exact Hands.pure (.swap ..) trivial

theorem hands_nextBranch {before : List Branch} (hbefore : Within P before) :
    Hands P a (nodes before) (nextBranch g before) := by
  refine looks_pastNewlines.then fun kind _ => ?_
  split
  · refine (looks_skipNewlines hP).then fun _ _ => (looks_advance hP).then fun _ _ => ?_
    refine (hands_branch hP hg).bind fun b next _ hnext => ?_
    exact Hands.pure (.refl _) (within_cons hnext hbefore)
  · refine (looks_skipNewlines hP).then fun _ _ => (looks_advance hP).then fun _ _ => ?_
    refine (hands_block hP hg).bind fun b body _ _ => ?_
    refine Hands.pure ?_ ⟨within_reverse hbefore, fun _ _ => trivial⟩
    exact List.perm_append_comm.trans ((perm_nodes_reverse before).append_right _)
  · refine Hands.pure ?_ ⟨within_reverse hbefore, fun _ _ => trivial⟩
    exact (perm_nodes_reverse before).trans (.of_eq (List.append_nil _).symm)

theorem hands_conditional : Hands P a [] (conditional g) := by
  refine (looks_advance hP).then fun start hstart => ?_
  refine (hands_branch hP hg).bind fun b first _ hfirst => ?_
  refine (Hands.repeating [first] (within_cons hfirst fun _ h => by cases h)
    fun _ _ _ hbefore => hands_nextBranch hP hg hbefore).bind fun c result _ _ => ?_
  refine .storeBranches fun d run _ hrun => (looks_spanFrom hP hstart).then fun span hspan => ?_
  refine hands_node (nodes result) ?_ ?_ hspan
  · simp [Expr.children?, Expr.parts?, hrun, nodes]
  · simp

theorem hands_nextArm {before : List CaseArm × Option NodeId} (hbefore : Within P before) :
    Hands P a (nodes before) (nextArm g before) := by
  obtain ⟨arms, otherwise⟩ := before
  obtain ⟨harms, -⟩ := hbefore
  refine (looks_skipNewlines hP).then fun _ _ => (looks_eatKeyword hP _).then fun _ _ => .ite ?_ ?_
  · refine (hg .factor a).bind fun b pattern _ _ => (hands_block hP hg).bind fun c body _ _ => ?_
    exact Hands.pure (.swap ..) ⟨within_cons trivial harms, fun _ _ => trivial⟩
  refine (looks_checkKeyword _).then fun _ _ => .ite ?_ ?_
  · split
    · exact (looks_currentSpan hP).then fun span hspan => .fault ⟨hspan, rfl⟩
    next hnone =>
      obtain rfl : otherwise = none := by simpa using hnone
      refine (looks_advance hP).then fun _ _ => (hands_block hP hg).bind fun b body _ _ => ?_
      refine Hands.pure ?_ ⟨harms, fun _ _ => trivial⟩
      simpa [nodes] using (List.perm_append_singleton body _).symm
  · refine Hands.pure ?_ ⟨within_reverse harms, fun _ _ => trivial⟩
    exact (perm_nodes_reverse arms).append_right _

theorem hands_caseOf : Hands P a [] (caseOf g) := by
  refine (looks_advance hP).then fun start hstart => (hg .logical a).bind fun b subject _ _ => ?_
  refine (looks_currentSpan hP).then fun opened hopened => (looks_eat hP _).then fun _ _ => ?_
  refine .ite ?_ (keeps_failExpected hP _)
  have hnone : Within P (([], none) : List CaseArm × Option NodeId) :=
    ⟨fun _ h => (by cases h), fun _ _ => trivial⟩
  refine (Hands.repeating _ hnone
    fun _ _ _ hbefore => hands_nextArm hP hg hbefore).bind fun c result _ _ => ?_
  refine (looks_expectCloser hP .brace hopened fun _ h => by cases h).then fun _ _ => ?_
  refine .storeArms fun d run _ hrun => (looks_spanFrom hP hstart).then fun span hspan => ?_
  refine hands_node (subject :: nodes result) ?_ ?_ hspan
  · simp [Expr.children?, Expr.parts?, hrun, nodes]
  · simp

/-! ## Loops and functions -/

theorem hands_loopBody (label : Option Name) : Hands P a [] (loopBody g label) :=
  .withLoops (hands_block hP hg)

theorem hands_loopBounds : Hands P a [] (loopBounds g) := by
  refine (hg .sum a).bind fun b bound _ _ => (looks_eatKeyword hP _).then fun _ _ => .ite ?_ ?_
  · refine (hg .sum b).bind fun c last _ _ => ?_
    exact Hands.pure (.swap ..) ⟨fun _ _ => trivial, trivial⟩
  · exact Hands.pure (.refl _) ⟨fun _ _ => trivial, trivial⟩

theorem hands_loopStep : Hands P a [] (loopStep g) :=
  (looks_eatKeyword hP _).then fun _ _ => .ite (hands_some (hg .sum a)) hands_none

omit hg in
theorem looks_loopCounter : Looks P loopCounter := by
  refine (looks_eat hP _).bind fun _ _ => ?_
  split
  · exact (looks_identifier hP _).bind fun _ _ => .pure fun _ _ => trivial
  · exact .pure fun _ _ => trivial

theorem hands_iterate (label : Option Name) {start : Span} (hstart : P start) :
    Hands P a [] (iterate g label start) := by
  refine (looks_advance hP).then fun _ _ => (hands_loopBounds hP hg).bind fun b bounds _ _ => ?_
  refine (hands_loopStep hP hg).bind fun c step _ _ => ?_
  refine (looks_loopCounter hP).then fun counter _ => ?_
  refine (hands_loopBody hP hg label).bind fun d body _ _ => ?_
  refine (looks_spanFrom hP hstart).then fun span hspan => ?_
  refine hands_node (nodes bounds ++ nodes step ++ [body]) ?_ ?_ hspan
  · simp [Expr.children?, Expr.parts?, nodes]
  · change (nodes body ++ (nodes step ++ (nodes bounds ++ []))).Perm _
    rw [List.append_nil]
    exact List.perm_append_comm.trans (List.perm_append_comm.append_right [body])

theorem hands_whileLoop (label : Option Name) {start : Span} (hstart : P start) :
    Hands P a [] (whileLoop g label start) := by
  refine (looks_advance hP).then fun _ _ => (hg .logical a).bind fun b condition _ _ => ?_
  refine (hands_loopBody hP hg label).bind fun c body _ _ => ?_
  exact (looks_spanFrom hP hstart).then fun span hspan => hands_node _ rfl (.swap ..) hspan

theorem hands_labelledLoop : Hands P a [] (labelledLoop g) := by
  refine (looks_advance hP).then fun start hstart => (looks_identifier hP _).then fun label _ => ?_
  refine (looks_current hP).then fun token _ => ?_
  split
  · exact hands_iterate hP hg _ hstart
  · exact hands_whileLoop hP hg _ hstart
  · exact looks_describeCurrent.then fun _ _ => (looks_currentSpan hP).then fun span hspan =>
      .fault ⟨hspan, rfl⟩

theorem hands_parameterDefault (name : Name) : Hands P a [] (parameterDefault g name) := by
  refine (looks_current hP).then fun token _ => ?_
  split
  · exact (looks_advance hP).then fun _ _ => hands_some (hg .ternary a)
  · refine (looks_advance hP).then fun sign hsign => (looks_textOf name).then fun _ _ => ?_
    exact (looks_warn _ hsign _).then fun _ _ => hands_some (hg .ternary a)
  · exact hands_none

theorem hands_parameter : Hands P a [] (parameter g) := by
  refine (looks_current hP).then fun token htoken => ?_
  split
  · exact keeps_failFound hP _
  · refine (looks_advance hP).then fun _ _ => (looks_identifier hP _).then fun name _ => ?_
    refine (hands_parameterDefault hP hg name).bind fun b default _ _ => ?_
    refine (looks_spanFrom hP htoken).then fun span hspan => Hands.pure ?_ hspan
    simp [nodes]

omit hg in
theorem looks_functionName : Looks P functionName := by
  refine (looks_current hP).bind fun token _ => ?_
  split
  · exact (looks_advance hP).bind fun _ _ => .pure fun _ _ => trivial
  · exact .pure fun _ _ => trivial

theorem hands_function : Hands P a [] (function g) := by
  refine (looks_advance hP).then fun start hstart => (looks_functionName hP).then fun name _ => ?_
  refine (looks_currentSpan hP).then fun opened hopened => (looks_eat hP _).then fun _ _ => ?_
  refine .ite ?_ (keeps_failExpected hP _)
  refine (hands_commaList hP (fun _ => hands_parameter hP hg) .paren).bind
    fun b params _ hparams => ?_
  refine (looks_expectCloser hP .paren hopened fun _ h => by cases h).then fun _ _ => ?_
  have hbody : Hands P b [] (withLoops (fun _ => []) (block g)) := .withLoops (hands_block hP hg)
  refine hbody.bind fun c body _ _ => ?_
  refine .storeParams hparams fun d run _ hrun => ?_
  refine (looks_spanFrom hP hstart).then fun span hspan => ?_
  refine hands_node (body :: nodes params) ?_ ?_ hspan
  · simp [Expr.children?, Expr.parts?, hrun, nodes, Function.comp_def]
  · simp [nodes]

/-! ## Atoms -/

omit hg in
theorem hands_literal {expr : Expr} (hexpr : ∀ b, expr.children? b = some []) :
    Hands P a [] (literal expr) :=
  (looks_advance hP).then fun _ htoken => hands_node [] (hexpr a) (.refl _) htoken

theorem hands_atom : Hands P a [] (atom g) := by
  refine (looks_current hP).then fun token htoken => ?_
  split
  · exact hands_literal hP fun _ => rfl
  · exact hands_literal hP fun _ => rfl
  · exact hands_literal hP fun _ => rfl
  · exact hands_literal hP fun _ => rfl
  · exact hands_group hP hg
  · exact hands_listLiteral hP hg
  · exact hands_labelledLoop hP hg
  · exact hands_conditional hP hg
  · exact hands_caseOf hP hg
  · exact hands_iterate hP hg _ htoken
  · exact hands_whileLoop hP hg _ htoken
  · exact hands_function hP hg
  · exact keeps_failFound hP _

/-! ## Operators behind an expression -/

omit hg in
theorem looks_argumentName : Looks P argumentName := by
  refine (looks_current hP).bind fun token _ => looks_peek.bind fun behind _ => ?_
  split
  · exact (looks_advance hP).bind fun _ _ => (looks_advance hP).bind fun _ _ =>
      .pure fun _ _ => trivial
  · exact (looks_advance hP).bind fun _ _ => (looks_advance hP).bind fun sign hsign =>
      (looks_textOf _).bind fun _ _ => (looks_warn _ hsign _).bind fun _ _ =>
        .pure fun _ _ => trivial
  · exact .pure fun _ _ => trivial

theorem hands_argument : Hands P a [] (argument g) := by
  refine (looks_currentSpan hP).then fun start hstart => ?_
  refine (looks_argumentName hP).then fun name _ => ?_
  refine (hg .ternary a).bind fun b value _ _ => ?_
  exact (looks_spanFrom hP hstart).then fun span hspan => Hands.pure (.refl _) hspan

theorem hands_call (callee : NodeId) : Hands P a [callee] (call g callee) := by
  refine (looks_advance hP).then fun opened hopened => ?_
  have hargs : Hands P a [] (commaList .paren (argument g)) :=
    hands_commaList hP (fun _ => hands_argument hP hg) .paren
  refine Hands.beside [callee] hargs fun b args _ hargs => ?_
  refine (looks_expectCloser hP .paren hopened fun _ h => by cases h).then fun closed hclosed => ?_
  refine .storeArgs hargs fun c run _ hrun => (looks_spanOf hP callee).then fun span hspan => ?_
  refine hands_node (callee :: nodes args) ?_ (List.perm_append_singleton _ _)
    (hP.merge _ _ hspan hclosed)
  simp [Expr.children?, Expr.parts?, hrun, nodes, ← List.map_eq_flatMap]

theorem hands_indexSpec : Hands P a [] (indexSpec g) := by
  refine (hg .ternary a).bind fun b first _ _ => (looks_eatKeyword hP _).then fun _ _ => .ite ?_ ?_
  · exact (hg .ternary b).bind fun c last _ _ => Hands.pure (.swap ..) trivial
  · exact Hands.pure (.refl _) trivial

theorem hands_nextSpec (before : List IndexSpec) :
    Hands P a (nodes before) (nextSpec g before) := by
  have hplain : ∀ specs : List IndexSpec, Within P specs := fun _ _ _ => trivial
  refine Hands.beside (nodes before) (hands_indexSpec hP hg) fun b spec _ _ => ?_
  refine (looks_skipNewlines hP).then fun _ _ => (looks_eat hP _).then fun _ _ => .ite ?_ ?_
  · exact (looks_skipNewlines hP).then fun _ _ => Hands.pure (.refl _) (hplain _)
  · exact Hands.pure (perm_nodes_reverse (spec :: before)) (hplain _)

theorem hands_index (target : NodeId) : Hands P a [target] (index g target) := by
  refine (looks_advance hP).then fun opened hopened => (looks_skipNewlines hP).then fun _ _ => ?_
  refine (looks_eat hP _).then fun _ _ => .ite (Hands.pure (.refl _) trivial) ?_
  have hspecs : Hands P a [] (repeating (nextSpec g) []) :=
    Hands.repeating ([] : List IndexSpec) (fun _ h => by cases h)
      fun _ before _ _ => hands_nextSpec hP hg before
  refine Hands.beside [target] hspecs fun b specs _ _ => ?_
  refine (looks_expectCloser hP .square hopened fun _ h => by cases h).then fun closed hclosed => ?_
  refine .storeSpecs fun c run _ hrun => (looks_spanOf hP target).then fun span hspan => ?_
  refine hands_node (target :: nodes specs) ?_ (List.perm_append_singleton _ _)
    (hP.merge _ _ hspan hclosed)
  simp [Expr.children?, Expr.parts?, hrun, nodes]

omit hg in
theorem hands_member (target : NodeId) : Hands P a [target] (member target) := by
  refine (looks_advance hP).then fun _ _ => (looks_identifier hP _).then fun name _ => ?_
  refine (looks_spanOf hP target).then fun start hstart => ?_
  exact (looks_spanFrom hP hstart).then fun span hspan => hands_node _ rfl (.refl _) hspan

omit hg in
theorem hands_cast (operand : NodeId) : Hands P a [operand] (cast operand) := by
  refine (looks_advance hP).then fun _ _ => (looks_current hP).then fun token _ => ?_
  split
  · exact keeps_failFound hP _
  · refine (looks_advance hP).then fun _ _ => (looks_spanOf hP operand).then fun start hstart => ?_
    exact (looks_spanFrom hP hstart).then fun span hspan => hands_node _ rfl (.refl _) hspan

omit hP hg in
theorem Hands.again {p : Parser NodeId} (hp : Hands P a held p) :
    Hands P a held (Sum.inl <$> p : Parser (NodeId ⊕ NodeId)) :=
  .map hp (fun _ => rfl) fun _ h => h

theorem hands_nextPostfix (target : NodeId) : Hands P a [target] (nextPostfix g target) := by
  refine (looks_current hP).then fun token _ => ?_
  split
  · exact (hands_call hP hg target).again
  · exact (hands_index hP hg target).again
  · exact (hands_member hP target).again
  · exact (hands_cast hP target).again
  · exact Hands.pure (.refl _) trivial

theorem hands_suffixed : Hands P a [] (suffixed g) :=
  (hands_atom hP hg).bind fun _ target _ _ =>
    Hands.repeating target trivial fun _ target _ _ => hands_nextPostfix hP hg target

/-! ## Operators -/

omit hg in
theorem hands_binary (op : BinaryOp) (left right : NodeId) :
    Hands P a [right, left] (binary op left right) := by
  refine (looks_spanOf hP left).then fun first hfirst => ?_
  refine (looks_spanOf hP right).then fun last hlast => ?_
  exact hands_node _ rfl (.swap ..) (hP.merge _ _ hfirst hlast)

omit hg in
theorem hands_chain {operand : Parser NodeId} (hoperand : ∀ a, Hands P a [] operand)
    (operator? : TokenKind → Option BinaryOp) : Hands P a [] (chain operand operator?) := by
  refine (hoperand a).bind fun b left _ _ => Hands.repeating left trivial fun c left _ _ => ?_
  refine (looks_current hP).then fun token _ => ?_
  split
  · refine (looks_advance hP).then fun _ _ => ?_
    exact Hands.beside [left] (hoperand c) fun d right _ _ =>
      (hands_binary hP _ left right).again
  · exact Hands.pure (.refl _) trivial

theorem hands_power : Hands P a [] (power g) := by
  refine (hands_suffixed hP hg).bind fun b base _ _ => (looks_eat hP _).then fun _ _ => .ite ?_ ?_
  · exact (hg .factor b).bind fun c exponent _ _ => hands_binary hP _ base exponent
  · exact Hands.pure (.refl _) trivial

theorem hands_factor : Hands P a [] (factor g) := by
  refine (looks_current hP).then fun token _ => ?_
  split
  · refine (looks_advance hP).then fun start hstart => (hg .factor a).bind fun b operand _ _ => ?_
    exact (looks_spanFrom hP hstart).then fun span hspan => hands_node _ rfl (.refl _) hspan
  · exact hands_power hP hg

theorem hands_sum : Hands P a [] (sum g) :=
  hands_chain hP (fun _ => hands_chain hP (fun _ => hands_factor hP hg) productOp?) sumOp?

theorem hands_negation : Hands P a [] (negation g) := by
  refine (looks_checkKeyword _).then fun _ _ => .ite ?_ ?_
  · refine (looks_advance hP).then fun start hstart => (hg .negation a).bind fun b operand _ _ => ?_
    exact (looks_spanFrom hP hstart).then fun span hspan => hands_node _ rfl (.refl _) hspan
  · exact hands_chain hP (fun _ => hands_sum hP hg) comparisonOp?

theorem hands_logical : Hands P a [] (logical g) :=
  hands_chain hP (fun _ => hands_negation hP hg) logicalOp?

theorem hands_positiveBranch (condition : NodeId) : Hands P a [] (positiveBranch g condition) :=
  (looks_check _).then fun _ _ => .ite
    ((looks_isBoolCast _).then fun _ _ => .ite hands_none (keeps_failFound hP _))
    (hands_some (hg .ternary a))

theorem hands_negativeBranch (positive : Option NodeId) :
    Hands P a [] (negativeBranch g positive) :=
  (looks_eat hP _).then fun _ _ => .ite
    ((looks_atBoundary hP).then fun _ _ => .ite hands_none (hands_some (hg .ternary a)))
    ((looks_atBoundary hP).then fun _ _ => .ite hands_none (keeps_failExpected hP _))

theorem hands_ternary : Hands P a [] (ternary g) := by
  refine (hands_logical hP hg).bind fun b condition _ _ => ?_
  refine (looks_eat hP _).then fun _ _ => .ite ?_ ?_
  · refine (hands_positiveBranch hP hg condition).bind fun c positive _ _ => ?_
    refine (hands_negativeBranch hP hg positive).bind fun d negative _ _ => ?_
    refine (looks_spanOf hP condition).then fun start hstart => ?_
    refine (looks_spanFrom hP hstart).then fun span hspan => ?_
    refine hands_node (nodes condition ++ nodes positive ++ nodes negative) ?_ ?_ hspan
    · simp [Expr.children?, Expr.parts?, nodes]
    · change (nodes negative ++ (nodes positive ++ (nodes condition ++ []))).Perm _
      rw [List.append_nil]
      exact List.perm_append_comm.trans (List.perm_append_comm.append_right _)
  · exact Hands.pure (.refl _) trivial

theorem hands_initializer (type : DeclaredType) : Hands P a [] (initializer g type) := by
  refine (looks_current hP).then fun token _ => ?_
  split
  · refine (looks_advance hP).then fun _ _ => (hg .expr a).bind fun b value _ _ => ?_
    exact Hands.pure (.refl _) ⟨fun _ _ => trivial, trivial⟩
  · exact keeps_failFound hP _
  · exact .ite (keeps_failFound hP _) (Hands.pure (.refl _) ⟨fun _ _ => trivial, trivial⟩)

theorem hands_declaration (type : DeclaredType) : Hands P a [] (declaration g type) := by
  refine (looks_advance hP).then fun start hstart => (looks_identifier hP _).then fun name _ => ?_
  refine (hands_initializer hP hg type).bind fun b value _ _ => ?_
  refine (looks_spanFrom hP hstart).then fun span hspan => hands_node (nodes value) ?_ ?_ hspan
  · simp [Expr.children?, Expr.parts?, nodes]
  · simp

theorem hands_assignment (name : Name) (op : AssignOp) (yields : Bool) :
    Hands P a [] (assignment g name op yields) := by
  refine (looks_advance hP).then fun start hstart => (looks_advance hP).then fun _ _ => ?_
  refine (hg .expr a).bind fun b value _ _ => ?_
  exact (looks_spanFrom hP hstart).then fun span hspan => hands_node _ rfl (.refl _) hspan

theorem hands_expr : Hands P a [] (expr g) := by
  refine (looks_current hP).then fun token _ => looks_peek.then fun behind _ => ?_
  split
  · split
    · exact hands_declaration hP hg _
    · exact hands_ternary hP hg
  · exact hands_assignment hP hg _ _ _
  · exact hands_ternary hP hg

/-- Every place of the grammar hands over a node, if the places nested in it do. -/
theorem hands_production (place : Place) : Hands P a [] (production g place) := by
  cases place with
  | expr => exact hands_expr hP hg
  | ternary => exact hands_ternary hP hg
  | logical => exact hands_logical hP hg
  | negation => exact hands_negation hP hg
  | sum => exact hands_sum hP hg
  | factor => exact hands_factor hP hg

end

/-! ## Programs -/

theorem grammar_hands (hP : Span.Closed P) (level : Nat) : Grammar.Hands P (grammar level) := by
  induction level with
  | zero => exact fun place a c s frame _ hs => ⟨.refl s, trivial, [], hs⟩
  | succ level ih =>
    intro place a c s frame has hs
    simpa only [grammar, atLevel_eq] using hands_production hP ih place c s frame has hs

/-- What the statements of a program carry: all nodes, if nothing is wrong behind them. -/
structure BodyCarried (P : Span → Prop) (_ : ParseState) (body : List NodeId × Option Diagnostic)
    (ids : List NodeId) : Prop where
  nodes : ∃ lost, ids = lost ++ body.1 ∧ (body.2 = none → lost = [])
  error : Within P body.2

theorem looks_strayToken (hP : Span.Closed P) {stopped : Option Diagnostic}
    (hstopped : Within P stopped) : Looks P (strayToken stopped) := by
  refine (looks_current hP).bind fun token htoken => ?_
  split
  · exact .pure ⟨htoken, rfl⟩
  · exact .pure (hstopped _ rfl)
  · exact looks_describeCurrent.bind fun _ _ => .pure ⟨htoken, rfl⟩

theorem keeps_programBody (hP : Span.Closed P) (hg : Grammar.Hands P g) :
    Keeps P a [] (BodyCarried P) (programBody g) := by
  intro c s frame has hs
  have hbody : Kept P ([] ++ frame) _ s _ := keeps_statements hP hg c s frame has hs
  refine hbody.bind ?_
  rintro taken ⟨body, stopped⟩ ids t - hst ⟨⟨lost, rfl, hlost⟩, hstopped, hstray⟩ ht
  rw [isAtEnd, bind_of_done (check_eq _), ParseReply.after_false]
  split
  next hend =>
    have hnone : stopped = none := by
      by_contra hsome
      exact absurd ((hstray hsome).eof.symm.trans hend) Bool.false_ne_true
    exact ⟨.refl t, _, ⟨⟨lost, rfl, fun _ => hlost hnone⟩, fun _ h => by cases h⟩, ht⟩
  next =>
    refine Looks.then (looks_strayToken hP hstopped) (fun d hd => ?_) c t frame
      (has.trans hst.grows) ht
    exact .pure fun _ _ => ⟨⟨lost, rfl, fun h => by cases h⟩, fun _ h => by cases h; exact hd⟩

end Parser
end ExprScript
