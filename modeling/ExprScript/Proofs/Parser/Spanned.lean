import ExprScript.Proofs.Parser.Spanning
import ExprScript.Proofs.Parser.Termination
import ExprScript.Proofs.Token.Gaps

/-!
# Nodes around their children

Every production begins with the token that is ahead, or with the node of a production inside it,
and the node that it stores reaches up to the last token taken. Parentheses and empty brackets leave
no trace, so a node may stand inside of the tokens of its construct.
-/
namespace ExprScript

open Spans ParseState

namespace Parser

variable {α β : Type} {tokens : List Token} {g : Grammar} {s t u : ParseState}

theorem children_option (id : Option NodeId) : children id = id.toList.map Child.node := by
  cases id <;> rfl

theorem children_list (ids : List NodeId) : children ids = ids.map Child.node := by
  induction ids with
  | nil => rfl
  | cons id ids ih => exact congrArg (Child.node id :: ·) ih

theorem Row.push [Spans α] (h : InOrder tokens) {before : List α} {last : α}
    (hst : Reaches tokens s t) (htu : Reaches tokens t u) (hbefore : Row tokens s t before)
    (hlast : Between tokens t u (children last)) : Row tokens s u (last :: before) := by
  have hboth := hbefore.append h hst htu hlast
  have hsame : children (last :: before).reverse = children before.reverse ++ children last := by
    simp [children]
  rwa [← hsame] at hboth

/-- Whether every place of a grammar builds what it gives on its way. -/
def Grammar.Lays (tokens : List Token) (g : Grammar) : Prop :=
  ∀ place s, s.On tokens → Parser.Lays tokens s (g place)

theorem lays_none (hs : s.On tokens) : Lays tokens s (Pure.pure (none : Option NodeId)) :=
  .pure hs .nil

theorem lays_some {p : Parser NodeId} (hp : Lays tokens s p) :
    Lays tokens s (do return some (← p)) :=
  Goes.bind hp fun _ _ hst hid => .pure hst.on hid

theorem Lays.earlier [Spans α] {p : Parser α} (hp : Lays tokens t p) (hst : Reaches tokens s t) :
    LaysFrom tokens s t p :=
  Goes.mono hp fun _ _ _ hv => hv.earlier hst

section
variable (h : InOrder tokens) (hg : Grammar.Lays tokens g)
include h hg

/-! ## Statements -/

theorem lays_guard (hs : s.On tokens) : Lays tokens s (guard g) :=
  .eatKeyword h hs
    (fun t hst => (lays_some (hg .ternary t hst.reaches.on)).earlier hst.reaches) (lays_none hs)

omit h in
theorem lays_returnedValue (hs : s.On tokens) : Lays tokens s (returnedValue g) := by
  refine (goes_atBoundary hs).bind fun t boundary _ hsame => ?_
  subst hsame
  refine .look (fun _ => checkKeyword_eq _) ?_
  split
  · exact lays_none hs
  · exact lays_some (hg .expr _ hs)

theorem lays_returnStatement (hs : s.On tokens) (hkind : s.kind.Takable) :
    Lays tokens s (returnStatement g) := by
  refine .begins h hs hkind fun t start hbegins => ?_
  have ht := hbegins.reaches.on
  refine (lays_returnedValue hg ht).bind fun u value htu hvalue => ?_
  refine (lays_guard h hg htu.on).bind fun k condition huk hcondition => ?_
  have hparts : (Expr.returnValue value condition).layout? k.arena 0 =
      some (children value ++ children condition) := by
    simp [Expr.layout?, children_option]
  exact lays_spanFrom h hbegins (htu.trans huk) hparts (hvalue.append h htu huk hcondition)

omit hg in
theorem goes_loopLabel (hs : s.On tokens) : Goes tokens s (fun _ _ => True) loopLabel := by
  refine .eat h hs (by simp) (fun t hst => ?_) (.pure hs trivial)
  refine .look currentSpan_eq ((goes_identifier h _ hst.reaches.on).bind fun u name htu _ => ?_)
  refine .context fun c => ?_
  split
  · exact .pure htu.on trivial
  · exact fun _ => htu.on.refl

theorem lays_loopControl (keyword : Keyword) {build : Option Name → Option NodeId → Expr}
    (hbuild : ∀ b label condition, (build label condition).layout? b 0 = some (children condition))
    (hs : s.On tokens) (hkind : s.kind.Takable) : Lays tokens s (loopControl g keyword build) := by
  refine .begins h hs hkind fun t start hbegins => .context fun c => ?_
  have ht := hbegins.reaches.on
  split
  · exact .fail ht
  · refine (goes_loopLabel h ht).bind fun u label htu _ => ?_
    refine (lays_guard h hg htu.on).bind fun k condition huk hcondition => ?_
    exact lays_spanFrom h hbegins (htu.trans huk) (hbuild _ label condition)
      (hcondition.earlier htu)

theorem lays_statement (hs : s.On tokens) : Lays tokens s (statement g) := by
  refine .current h hs fun token rest hahead => ?_
  have hkind : token.kind.Takable → s.kind.Takable := fun hkind => kind_of_ahead hahead ▸ hkind
  split
  next hreturn => exact lays_returnStatement h hg hs (hkind (hreturn ▸ rfl))
  next hbreak =>
    exact lays_loopControl h hg _ (fun _ _ _ => by simp [Expr.layout?, children_option]) hs
      (hkind (hbreak ▸ rfl))
  next hcontinue =>
    exact lays_loopControl h hg _ (fun _ _ _ => by simp [Expr.layout?, children_option]) hs
      (hkind (hcontinue ▸ rfl))
  next => exact hg .expr s hs

/-- The statements so far stand in their order, also where the next one stops softly. -/
theorem goes_nextStatement {before : List NodeId} (hst : Reaches tokens s t)
    (hbefore : Row tokens s t before) :
    Goes tokens t (Turn (Row tokens s) fun u body => Between tokens s u (children body.nodes))
      (nextStatement g before) := by
  refine (goes_skipNewlines h hst.on).bind fun u _ htu _ => ?_
  have hsu := hst.trans htu
  have hbefore := hbefore.later htu
  refine .look (fun _ => check_eq _) (.look (fun _ => check_eq _) ?_)
  split
  · exact .pure htu.on hbefore
  refine (lays_statement h hg htu.on).orStop.bind fun k r huk hr => ?_
  cases r with
  | error d => exact .pure huk.on (hbefore.later huk)
  | ok id =>
    have hall := Row.push h hsu huk hbefore (hr id rfl)
    refine .current h huk.on fun token rest _ => ?_
    split
    · exact .pure huk.on hall
    · exact .pure huk.on hall
    · exact .pure huk.on hall
    · exact .pure huk.on hall
    · exact goes_failFound _ huk.on

theorem goes_statements (hs : s.On tokens) :
    Goes tokens s (fun t body => Between tokens s t (children body.nodes)) (statements g) :=
  .repeating (Row tokens s) hs .nil fun _ _ hst hbefore => goes_nextStatement h hg hst hbefore

theorem lays_block (hs : s.On tokens) : Lays tokens s (block g) := by
  refine .look currentSpan_eq (.eat h hs (by simp) (fun t hbegins => ?_) (goes_failExpected _ hs))
  refine (goes_statements h hg hbegins.reaches.on).bind fun u body htu hbody => ?_
  refine (goes_expectCloser h _ _ _ htu.on).bind fun k closed huk hcloses => ?_
  refine .storeList huk.on fun l run hkl hfront hrun => ?_
  have hparts : (Expr.block run).layout? l.arena 0 = some (children body.nodes) := by
    simp [Expr.layout?, hrun, children_list]
  exact lays_brackets h hbegins (htu.trans (huk.trans hkl)) ((hcloses.earlier htu).stored hfront)
    hparts (hbody.later (huk.trans hkl))

/-! ## Lists and branches -/

omit hg in
theorem goes_pastComma [Spans α] {all : List α} (ht : t.On tokens) (hall : Row tokens s t all) :
    Goes tokens t (Turn (Row tokens s) fun u items => Between tokens s u (children items)) (do
      skipNewlines
      if ← eat .comma then
        skipNewlines
        return .inl all
      else return .inr all.reverse) := by
  refine (goes_skipNewlines h ht).bind fun u _ htu _ => ?_
  refine .eat h htu.on (by simp) (fun k huk => ?_) (.pure htu.on (hall.later htu))
  refine (goes_skipNewlines h huk.reaches.on).bind fun l _ hkl _ => ?_
  exact .pure hkl.on (hall.later (htu.trans (huk.reaches.trans hkl)))

omit hg in
theorem goes_commaRound [Spans α] {item : Parser α}
    (hitem : ∀ s, s.On tokens → Lays tokens s item) (closing : Bracket) {before : List α}
    (hst : Reaches tokens s t) (hbefore : Row tokens s t before) :
    Goes tokens t (Turn (Row tokens s) fun u items => Between tokens s u (children items))
      (commaRound closing item before) := by
  refine .look (fun _ => check_eq _) (.look (fun _ => check_eq _) ?_)
  split
  · exact .pure hst.on hbefore
  refine (hitem t hst.on).bind fun u next htu hnext => ?_
  exact goes_pastComma h htu.on (Row.push h hst htu hbefore hnext)

omit hg in
theorem lays_commaList [Spans α] {item : Parser α} (hitem : ∀ s, s.On tokens → Lays tokens s item)
    (closing : Bracket) (hs : s.On tokens) : Lays tokens s (commaList closing item) := by
  refine (goes_skipNewlines h hs).bind fun t _ hst _ => ?_
  exact .repeating (Row tokens s) hst.on .nil
    fun u before htu hbefore => goes_commaRound h hitem closing (hst.trans htu) hbefore

theorem lays_group (hs : s.On tokens) (hkind : s.kind.Takable) : Lays tokens s (group g) := by
  refine .begins h hs hkind fun t opened hbegins => ?_
  refine (goes_skipNewlines h hbegins.reaches.on).bind fun u _ htu _ => ?_
  refine (hg .expr u htu.on).bind fun k inner huk hinner => ?_
  refine (goes_expectCloser h _ _ _ huk.on).bind fun l closed hkl _ => ?_
  exact .pure hkl.on ((hinner.later hkl).earlier (hbegins.reaches.trans htu))

theorem lays_listLiteral (hs : s.On tokens) (hkind : s.kind.Takable) :
    Lays tokens s (listLiteral g) := by
  refine .begins h hs hkind fun t opened hbegins => ?_
  refine (lays_commaList h (hg .ternary) _ hbegins.reaches.on).bind fun u items htu hitems => ?_
  refine (goes_expectCloser h _ _ _ htu.on).bind fun k closed huk hcloses => ?_
  refine .storeList huk.on fun l run hkl hfront hrun => ?_
  have hparts : (Expr.list run).layout? l.arena 0 = some (children items) := by
    simp [Expr.layout?, hrun, children_list]
  exact lays_brackets h hbegins (htu.trans (huk.trans hkl)) ((hcloses.earlier htu).stored hfront)
    hparts (hitems.later (huk.trans hkl))

theorem lays_branch (hs : s.On tokens) : Lays tokens s (branch g) := by
  refine (hg .logical s hs).bind fun t condition hst hcondition => ?_
  refine (lays_block h hg hst.on).bind fun u body htu hbody => ?_
  exact .pure htu.on (hcondition.append h hst htu hbody)

theorem goes_nextBranch {before : List Branch} (hst : Reaches tokens s t)
    (hbefore : Row tokens s t before) :
    Goes tokens t (Turn (Row tokens s) fun u all => Between tokens s u (children all))
      (nextBranch g before) := by
  refine .look (fun _ => pastNewlines_eq) ?_
  split
  · refine (goes_skipNewlines h hst.on).bind fun u _ htu _ => ?_
    refine (goes_advance h htu.on).bind fun k _ huk _ => ?_
    refine (lays_branch h hg huk.on).bind fun l next hkl hnext => ?_
    have htk := htu.trans huk
    exact .pure hkl.on (Row.push h (hst.trans htk) hkl (hbefore.later htk) hnext)
  · refine (goes_skipNewlines h hst.on).bind fun u _ htu _ => ?_
    refine (goes_advance h htu.on).bind fun k _ huk _ => ?_
    refine (lays_block h hg huk.on).bind fun l body hkl hbody => ?_
    exact .pure hkl.on
      ((hbefore.later (htu.trans huk)).append h (hst.trans (htu.trans huk)) hkl hbody)
  · exact .pure hst.on (hbefore.append h hst hst.on.refl .nil)

theorem lays_conditional (hs : s.On tokens) (hkind : s.kind.Takable) :
    Lays tokens s (conditional g) := by
  refine .begins h hs hkind fun t start hbegins => ?_
  refine (lays_branch h hg hbegins.reaches.on).bind fun u first htu hfirst => ?_
  have hrepeat : Goes tokens u (fun k all => Between tokens t k (children all))
      (Parser.repeating (nextBranch g) [first]) :=
    .repeating (Row tokens t) htu.on (by simpa [Row, children] using hfirst)
      fun k before huk hbefore => goes_nextBranch h hg (htu.trans huk) hbefore
  refine hrepeat.bind fun k all huk hall => ?_
  obtain ⟨branches, otherwise⟩ := all
  refine .storeBranches huk.on fun l run hkl _ hrun => ?_
  have hparts : (Expr.ifElse run otherwise).layout? l.arena 0 =
      some (branches.flatMap Branch.layout ++ children otherwise) := by
    simp [Expr.layout?, hrun, children_option]
  exact lays_spanFrom h hbegins (htu.trans (huk.trans hkl)) hparts (hall.later hkl)

/-- The arms so far stand in their order, with the default, if there is one yet, behind some of
them. -/
def ArmsLaid (tokens : List Token) (s t : ParseState) (arms : List CaseArm)
    (otherwise : Option NodeId) : Prop :=
  ∃ early ≤ arms.length, Between tokens s t (armsLayout early arms otherwise)

omit h hg in
theorem armsLayout_concat {early : Nat} {arms : List CaseArm} (hearly : early ≤ arms.length)
    (otherwise : Option NodeId) (arm : CaseArm) :
    armsLayout early (arms ++ [arm]) otherwise =
      armsLayout early arms otherwise ++ children arm := by
  simp [armsLayout, List.take_append_of_le_length hearly, List.drop_append_of_le_length hearly,
    children]

omit h hg in
theorem armsLayout_default (early : Nat) (arms : List CaseArm) (otherwise : NodeId) :
    armsLayout arms.length arms (some otherwise) =
      armsLayout early arms none ++ children otherwise := by
  have hall : arms.flatMap CaseArm.layout =
      (arms.take early).flatMap CaseArm.layout ++ (arms.drop early).flatMap CaseArm.layout := by
    rw [← List.flatMap_append, List.take_append_drop]
  simp [armsLayout, children, hall]

theorem goes_nextArm {before : List CaseArm × Option NodeId} (hst : Reaches tokens s t)
    (hbefore : ArmsLaid tokens s t before.1.reverse before.2) :
    Goes tokens t (Turn (fun u before => ArmsLaid tokens s u before.1.reverse before.2)
      fun u all => ArmsLaid tokens s u all.1 all.2) (nextArm g before) := by
  obtain ⟨arms, otherwise⟩ := before
  obtain ⟨early, hearly, hlaid⟩ := hbefore
  refine (goes_skipNewlines h hst.on).bind fun u _ htu _ => ?_
  have hsu := hst.trans htu
  have hlaid := hlaid.later htu
  refine .eatKeyword h htu.on (fun k huk => ?_) (.look (fun _ => checkKeyword_eq _) ?_)
  · refine (hg .factor k huk.reaches.on).bind fun l pattern hkl hpattern => ?_
    refine (lays_block h hg hkl.on).bind fun r body hlr hbody => ?_
    refine .pure hlr.on ⟨early, ?_, ?_⟩
    · simp only [List.length_reverse] at hearly ⊢
      exact Nat.le_succ_of_le hearly
    · have harm : Between tokens k r (children (⟨pattern, body⟩ : CaseArm)) :=
        hpattern.append h hkl hlr hbody
      change Between tokens s r (armsLayout early (_ :: arms).reverse otherwise)
      rw [List.reverse_cons, armsLayout_concat hearly]
      exact hlaid.append h hsu (huk.reaches.trans (hkl.trans hlr)) (harm.earlier huk.reaches)
  · split
    · split
      · exact .look currentSpan_eq (.fail htu.on)
      next hnone =>
        obtain rfl : otherwise = none := by simpa using hnone
        refine (goes_advance h htu.on).bind fun k _ huk _ => ?_
        refine (lays_block h hg huk.on).bind fun l body hkl hbody => ?_
        refine .pure hkl.on ⟨arms.reverse.length, Nat.le_refl _, ?_⟩
        change Between tokens s l (armsLayout _ arms.reverse (some body))
        rw [armsLayout_default early]
        exact (hlaid.later huk).append h (hsu.trans huk) hkl hbody
    · exact .pure htu.on ⟨early, hearly, hlaid⟩

theorem lays_caseOf (hs : s.On tokens) (hkind : s.kind.Takable) : Lays tokens s (caseOf g) := by
  refine .begins h hs hkind fun t start hbegins => ?_
  refine (hg .logical t hbegins.reaches.on).bind fun u subject htu hsubject => ?_
  refine .look currentSpan_eq ?_
  refine .eat h htu.on (by simp) (fun k huk => ?_) (goes_failExpected _ htu.on)
  have hrepeat : Goes tokens k (fun l all => ArmsLaid tokens k l all.1 all.2)
      (Parser.repeating (nextArm g) ([], none)) :=
    .repeating (fun l before => ArmsLaid tokens k l before.1.reverse before.2) huk.reaches.on
      ⟨0, Nat.le_refl _, .nil⟩ fun l before hkl hbefore => goes_nextArm h hg hkl hbefore
  refine hrepeat.bind fun l all hkl hall => ?_
  obtain ⟨arms, otherwise⟩ := all
  obtain ⟨early, -, hlaid⟩ := hall
  refine (goes_expectCloser h _ _ _ hkl.on).bind fun r closed hlr _ => ?_
  refine .storeArms hlr.on fun v run hrv _ hrun => ?_
  have hparts : (Expr.caseOf subject run otherwise).layout? v.arena early =
      some (children subject ++ armsLayout early arms otherwise) := by
    simp [Expr.layout?, hrun, children]
  have hul := huk.reaches.trans hkl
  have hlv := hlr.trans hrv
  exact lays_spanFrom h hbegins (htu.trans (hul.trans hlv)) hparts
    ((hsubject.append h htu hul (hlaid.earlier huk.reaches)).later hlv)

/-! ## Loops and functions -/

theorem lays_loopBody (label : Option Name) (hs : s.On tokens) :
    Lays tokens s (loopBody g label) :=
  .withLoops (lays_block h hg hs)

theorem lays_loopBounds (hs : s.On tokens) : Lays tokens s (loopBounds g) := by
  refine (hg .sum s hs).bind fun t bound hst hbound => ?_
  refine .eatKeyword h hst.on (fun u htu => ?_) (.pure hst.on hbound)
  refine (hg .sum u htu.reaches.on).bind fun k last huk hlast => ?_
  exact .pure huk.on (hbound.append h hst (htu.reaches.trans huk) (hlast.earlier htu.reaches))

theorem lays_loopStep (hs : s.On tokens) : Lays tokens s (loopStep g) :=
  .eatKeyword h hs
    (fun t hst => (lays_some (hg .sum t hst.reaches.on)).earlier hst.reaches) (lays_none hs)

omit hg in
theorem goes_loopCounter (hs : s.On tokens) : Goes tokens s (fun _ _ => True) loopCounter := by
  refine .eat h hs (by simp) (fun t hst => ?_) (.pure hs trivial)
  exact (goes_identifier h _ hst.reaches.on).bind fun u name htu _ => .pure htu.on trivial

theorem lays_iterate (label : Option Name) {start : Span} (ht : t.On tokens)
    (hkind : t.kind.Takable) (hstart : ∀ u, Begins tokens t u t.span → Begins tokens s u start) :
    LaysFrom tokens s t (iterate g label start) := by
  refine .passes h ht hkind fun u htu => ?_
  have hbegins := hstart u htu
  refine (lays_loopBounds h hg hbegins.reaches.on).bind fun k bounds huk hbounds => ?_
  obtain ⟨first, last⟩ := bounds
  refine (lays_loopStep h hg huk.on).bind fun l step hkl hstep => ?_
  refine (goes_loopCounter h hkl.on).bind fun r counter hlr _ => ?_
  refine (lays_loopBody h hg label hlr.on).bind fun v body hrv hbody => ?_
  have hparts : (Expr.iterate label first last step counter body).layout? v.arena 0 =
      some (children (first, last) ++ children step ++ children body) := by
    change some _ = some (children first ++ [.node last] ++ children step ++ [.node body])
    simp [children_option]
  have hul := huk.trans hkl
  have hbounds := hbounds.append h huk hkl hstep
  exact lays_spanFrom h hbegins (hul.trans (hlr.trans hrv)) hparts
    ((hbounds.later hlr).append h (hul.trans hlr) hrv hbody)

theorem lays_whileLoop (label : Option Name) {start : Span} (ht : t.On tokens)
    (hkind : t.kind.Takable) (hstart : ∀ u, Begins tokens t u t.span → Begins tokens s u start) :
    LaysFrom tokens s t (whileLoop g label start) := by
  refine .passes h ht hkind fun u htu => ?_
  have hbegins := hstart u htu
  refine (hg .logical u hbegins.reaches.on).bind fun k condition huk hcondition => ?_
  refine (lays_loopBody h hg label huk.on).bind fun l body hkl hbody => ?_
  have hparts : (Expr.whileLoop label condition body).layout? l.arena 0 =
      some (children condition ++ children body) := rfl
  exact lays_spanFrom h hbegins (huk.trans hkl) hparts (hcondition.append h huk hkl hbody)

theorem lays_labelledLoop (hs : s.On tokens) (hkind : s.kind.Takable) :
    Lays tokens s (labelledLoop g) := by
  refine .begins h hs hkind fun t start hbegins => ?_
  refine (goes_identifier h _ hbegins.reaches.on).bind fun u label htu _ => ?_
  have hlater := hbegins.later htu
  refine .current h htu.on fun token rest hahead => ?_
  split
  next hiterate =>
    refine lays_iterate h hg _ htu.on ?_ fun k huk => hlater.later huk.reaches
    rw [kind_of_ahead hahead, hiterate]
    rfl
  next hwhile =>
    refine lays_whileLoop h hg _ htu.on ?_ fun k huk => hlater.later huk.reaches
    rw [kind_of_ahead hahead, hwhile]
    rfl
  next => exact fun _ => htu.on.refl

theorem lays_parameterDefault (name : Name) (hs : s.On tokens) :
    Lays tokens s (parameterDefault g name) := by
  refine .current h hs fun token rest _ => ?_
  split
  · refine (goes_advance h hs).bind fun t _ hst _ => ?_
    exact (lays_some (hg .ternary t hst.on)).earlier hst
  · refine (goes_advance h hs).bind fun t sign hst _ => ?_
    refine .textOf fun text => (goes_warn _ _ _ hst.on).bind fun u _ htu _ => ?_
    exact (lays_some (hg .ternary u htu.on)).earlier (hst.trans htu)
  · exact lays_none hs

theorem lays_parameter (hs : s.On tokens) : Lays tokens s (parameter g) := by
  refine .current h hs fun token rest hahead => ?_
  cases htype : declaredTypeOf token.kind with
  | none => exact goes_failFound _ hs
  | some type =>
    have hkind : s.kind.Takable := by
      rw [kind_of_ahead hahead]
      cases hkind : token.kind with
      | keyword word => rfl
      | _ => simp [declaredTypeOf, hkind] at htype
    refine .passes h hs hkind fun t hbegins => ?_
    rw [span_of_ahead hahead] at hbegins
    refine (goes_identifier h _ hbegins.reaches.on).bind fun u name htu _ => ?_
    refine (lays_parameterDefault h hg name htu.on).bind fun k default huk hdefault => ?_
    rw [children_option] at hdefault
    have htk := htu.trans huk
    obtain ⟨span, hspan, hmarked⟩ := exists_marked h default (hbegins.later htk)
      (hbegins.around h (hdefault.earlier htu))
    exact .look hspan (.pure huk.on hmarked)

omit hg in
theorem goes_functionName (hs : s.On tokens) : Goes tokens s (fun _ _ => True) functionName := by
  refine .current h hs fun token rest _ => ?_
  split
  · exact (goes_advance h hs).bind fun t _ hst _ => .pure hst.on trivial
  · exact .pure hs trivial

theorem lays_function (hs : s.On tokens) (hkind : s.kind.Takable) :
    Lays tokens s (function g) := by
  refine .begins h hs hkind fun t start hbegins => ?_
  refine (goes_functionName h hbegins.reaches.on).bind fun u name htu _ => ?_
  refine .look currentSpan_eq ?_
  refine .eat h htu.on (by simp) (fun k huk => ?_) (goes_failExpected _ htu.on)
  refine (lays_commaList h (fun _ => lays_parameter h hg) _ huk.reaches.on).bind
    fun l params hkl hparams => ?_
  refine (goes_expectCloser h _ _ _ hkl.on).bind fun r closed hlr _ => ?_
  have hblock : Lays tokens r (withLoops (fun _ => []) (block g)) :=
    .withLoops (lays_block h hg hlr.on)
  refine hblock.bind fun v body hrv hbody => ?_
  refine .storeParams hrv.on fun w run hvw _ hrun => ?_
  have hparts : (Expr.define name run body).layout? w.arena 0 =
      some (children params ++ children body) := by
    simp [Expr.layout?, hrun, children, List.map_eq_flatMap]
  have htk := htu.trans huk.reaches
  have hkr := hkl.trans hlr
  have hall := ((hparams.later hlr).earlier htk).append h (htk.trans hkr) hrv hbody
  exact lays_spanFrom h hbegins (htk.trans (hkr.trans (hrv.trans hvw))) hparts (hall.later hvw)

/-! ## Atoms -/

omit hg in
theorem lays_literal {expr : Expr} (hexpr : ∀ b, expr.layout? b 0 = some []) (hs : s.On tokens)
    (hkind : s.kind.Takable) : Lays tokens s (literal expr) := by
  obtain ⟨token, rest, hahead⟩ := hs.exists_ahead h
  rw [kind_of_ahead hahead] at hkind
  have hbegins := Begins.of_past h hs hahead hkind
  exact .take h hs hahead hkind fun hpast =>
    lays_over h hbegins hpast.on.refl hbegins.along rfl rfl (hexpr _) .nil

theorem lays_atom (hs : s.On tokens) : Lays tokens s (atom g) := by
  refine .current h hs fun token rest hahead => ?_
  have hkind {kind : TokenKind} (hsame : token.kind = kind) (htakable : kind.Takable) :
      s.kind.Takable := kind_of_ahead hahead ▸ hsame ▸ htakable
  have hbegins (t : ParseState) (hst : Begins tokens s t s.span) : Begins tokens s t token.span :=
    span_of_ahead hahead ▸ hst
  split
  next hsame => exact lays_literal h (fun _ => rfl) hs (hkind hsame rfl)
  next hsame => exact lays_literal h (fun _ => rfl) hs (hkind hsame rfl)
  next hsame => exact lays_literal h (fun _ => rfl) hs (hkind hsame rfl)
  next hsame => exact lays_literal h (fun _ => rfl) hs (hkind hsame rfl)
  next hsame => exact lays_group h hg hs (hkind hsame rfl)
  next hsame => exact lays_listLiteral h hg hs (hkind hsame rfl)
  next hsame => exact lays_labelledLoop h hg hs (hkind hsame rfl)
  next hsame => exact lays_conditional h hg hs (hkind hsame rfl)
  next hsame => exact lays_caseOf h hg hs (hkind hsame rfl)
  next hsame => exact lays_iterate h hg none hs (hkind hsame rfl) hbegins
  next hsame => exact lays_whileLoop h hg none hs (hkind hsame rfl) hbegins
  next hsame => exact lays_function h hg hs (hkind hsame rfl)
  next => exact goes_failFound _ hs

/-! ## Operators behind an expression -/

omit hg in
theorem goes_argumentName (hs : s.On tokens) : Goes tokens s (fun _ _ => True) argumentName := by
  refine .current h hs fun token rest _ => .look (fun _ => peek_eq) ?_
  split
  · refine (goes_advance h hs).bind fun t _ hst _ => ?_
    exact (goes_advance h hst.on).bind fun u _ htu _ => .pure htu.on trivial
  · refine (goes_advance h hs).bind fun t _ hst _ => ?_
    refine (goes_advance h hst.on).bind fun u sign htu _ => ?_
    exact .textOf fun text =>
      (goes_warn _ _ _ htu.on).bind fun k _ huk _ => .pure huk.on trivial
  · exact .pure hs trivial

theorem lays_argument (hs : s.On tokens) : Lays tokens s (argument g) := by
  refine .look currentSpan_eq ((goes_argumentName h hs).bind fun t name hst _ => ?_)
  refine (hg .ternary t hst.on).bind fun u value htu hvalue => ?_
  have hvalue := hvalue.earlier hst
  have hbegins := Begins.of_lt h (hst.trans htu) hs hvalue.next_lt_front
  obtain ⟨span, hspan, hmarked⟩ := exists_marked h (some value) hbegins hvalue
  exact .look hspan (.pure htu.on hmarked)

variable {target : NodeId}

theorem lays_call (hst : Reaches tokens s t) (htarget : Between tokens s t (children target))
    (hkind : t.kind.Takable) : LaysFrom tokens s t (call g target) := by
  refine .begins h hst.on hkind fun u opened htu => ?_
  refine (lays_commaList h (fun _ => lays_argument h hg) _ htu.reaches.on).bind
    fun k args huk hargs => ?_
  refine (goes_expectCloser h _ _ _ huk.on).bind fun l closed hkl hcloses => ?_
  refine .storeArgs hkl.on fun r run hlr hfront hrun => ?_
  have hparts : (Expr.call target run).layout? r.arena 0 =
      some (.node target :: children args) := by
    simp [Expr.layout?, hrun, children, List.map_eq_flatMap]
  have htk := htu.reaches.trans huk
  have hargs := hargs.earlier htu.reaches
  exact lays_closed_first h hst (htk.trans (hkl.trans hlr)) ((hcloses.earlier htk).stored hfront)
    htarget hparts (hargs.later (hkl.trans hlr))

theorem lays_indexSpec (hs : s.On tokens) : Lays tokens s (indexSpec g) := by
  refine (hg .ternary s hs).bind fun t first hst hfirst => ?_
  refine .eatKeyword h hst.on (fun u htu => ?_) (.pure hst.on hfirst)
  refine (hg .ternary u htu.reaches.on).bind fun k last huk hlast => ?_
  exact .pure huk.on (hfirst.append h hst (htu.reaches.trans huk) (hlast.earlier htu.reaches))

theorem goes_nextSpec {before : List IndexSpec} (hst : Reaches tokens s t)
    (hbefore : Row tokens s t before) :
    Goes tokens t (Turn (Row tokens s) fun u specs => Between tokens s u (children specs))
      (nextSpec g before) := by
  refine (lays_indexSpec h hg hst.on).bind fun u spec htu hspec => ?_
  exact goes_pastComma h htu.on (Row.push h hst htu hbefore hspec)

theorem lays_index (hst : Reaches tokens s t) (htarget : Between tokens s t (children target))
    (hkind : t.kind.Takable) : LaysFrom tokens s t (index g target) := by
  refine .begins h hst.on hkind fun u opened htu => ?_
  refine (goes_skipNewlines h htu.reaches.on).bind fun k _ huk _ => ?_
  have htk := htu.reaches.trans huk
  refine .eat h huk.on (by simp) (fun l hkl => ?_) ?_
  · exact .pure hkl.reaches.on (htarget.later (htk.trans hkl.reaches))
  have hrepeat : Goes tokens k (fun l specs => Between tokens k l (children specs))
      (Parser.repeating (nextSpec g) []) :=
    .repeating (Row tokens k) huk.on .nil fun _ _ hkl hbefore => goes_nextSpec h hg hkl hbefore
  refine hrepeat.bind fun l specs hkl hspecs => ?_
  refine (goes_expectCloser h _ _ _ hkl.on).bind fun r closed hlr hcloses => ?_
  refine .storeSpecs hlr.on fun v run hrv hfront hrun => ?_
  have hparts : (Expr.index target run).layout? v.arena 0 =
      some (.node target :: children specs) := by
    simp [Expr.layout?, hrun, children, List.map_flatMap]
  have htl := htk.trans hkl
  have hspecs := hspecs.earlier htk
  exact lays_closed_first h hst (htl.trans (hlr.trans hrv)) ((hcloses.earlier htl).stored hfront)
    htarget hparts (hspecs.later (hlr.trans hrv))

omit hg in
theorem lays_member (hst : Reaches tokens s t) (htarget : Between tokens s t (children target)) :
    LaysFrom tokens s t (member target) := by
  refine (goes_advance h hst.on).bind fun u _ htu _ => ?_
  refine (goes_identifier h _ htu.on).bind fun k name huk _ => ?_
  have hparts : (Expr.member target name).layout? k.arena 0 = some [.node target] := rfl
  have htk := htu.trans huk
  exact lays_spanFrom_first h (hst.trans htk) hparts (htarget.later htk)

omit hg in
theorem lays_cast (hst : Reaches tokens s t) (htarget : Between tokens s t (children target)) :
    LaysFrom tokens s t (cast target) := by
  refine (goes_advance h hst.on).bind fun u _ htu _ => ?_
  refine .current h htu.on fun token rest _ => ?_
  split
  · exact goes_failFound _ htu.on
  next type _ =>
    refine (goes_advance h htu.on).bind fun k _ huk _ => ?_
    have hparts : (Expr.cast target type).layout? k.arena 0 = some [.node target] := rfl
    have htk := htu.trans huk
    exact lays_spanFrom_first h (hst.trans htk) hparts (htarget.later htk)

theorem goes_nextPostfix (hst : Reaches tokens s t)
    (htarget : Between tokens s t (children target)) :
    Goes tokens t (Turn (fun u target => Between tokens s u (children target))
      fun u id => Between tokens s u (children id)) (nextPostfix g target) := by
  refine .current h hst.on fun token rest hahead => ?_
  have hkind {kind : TokenKind} (hsame : token.kind = kind) (htakable : kind.Takable) :
      t.kind.Takable := kind_of_ahead hahead ▸ hsame ▸ htakable
  split
  next hsame => exact .map (lays_call h hg hst htarget (hkind hsame rfl))
  next hsame => exact .map (lays_index h hg hst htarget (hkind hsame rfl))
  next => exact .map (lays_member h hst htarget)
  next => exact .map (lays_cast h hst htarget)
  next => exact .pure hst.on htarget

theorem lays_suffixed (hs : s.On tokens) : Lays tokens s (suffixed g) := by
  refine (lays_atom h hg hs).bind fun t target hst htarget => ?_
  exact .repeating (fun u target => Between tokens s u (children target)) hst.on htarget
    fun _ _ htu hnext => goes_nextPostfix h hg (hst.trans htu) hnext

/-! ## Operators -/

omit hg in
theorem lays_binary {left right : NodeId} (op : BinaryOp) (hst : Reaches tokens s t)
    (htu : Reaches tokens t u) (hleft : Between tokens s t (children left))
    (hright : Between tokens t u (children right)) :
    LaysFrom tokens s u (binary op left right) := by
  obtain ⟨first, hat, halong, hlo, hhi, -⟩ := Arena.Spread.exists_first hleft
  obtain ⟨last, hat', halong', hlo', hhi', -⟩ := Arena.Spread.exists_first hright
  have hat := hat.mono htu.arena
  have hnext := hst.on.front_le_next h
  have hpos := halong.pos
  have hpos' := halong'.pos
  have hstart : (first.merge last).start = first.start := Span.merge_start (by omega)
  have hstop : (first.merge last).stop.offset = last.stop.offset :=
    Span.merge_stop_offset (by omega)
  have hspread := (Arena.Spread.single hat halong (Nat.le_refl _) (Nat.le_refl _)).append
    (.single hat' halong' (Nat.le_refl _) (Nat.le_refl _)) (by omega) (by omega) (by omega)
  have hparts : (Expr.binary op left right).layout? u.arena 0 =
      some ([.node left] ++ [.node right]) := rfl
  refine .look (spanOf_of_hasSpan hat) (.look (spanOf_of_hasSpan hat') ?_)
  refine lays_node (hst.trans htu) (halong.merge halong') (hstart ▸ hlo) (hstop ▸ hhi') hparts ?_
  rw [hstart, hstop]
  exact hspread

omit hg in
theorem goes_nextOperand {operand : Parser NodeId} {operator? : TokenKind → Option BinaryOp}
    (hoperand : ∀ s, s.On tokens → Lays tokens s operand) {left : NodeId}
    (hst : Reaches tokens s t) (hleft : Between tokens s t (children left)) :
    Goes tokens t (Turn (fun u left => Between tokens s u (children left))
      fun u id => Between tokens s u (children id)) (nextOperand operand operator? left) := by
  refine .current h hst.on fun token rest _ => ?_
  split
  next op _ =>
    refine (goes_advance h hst.on).bind fun u _ htu _ => ?_
    refine (hoperand u htu.on).bind fun k right huk hright => .map ?_
    exact lays_binary h op hst (htu.trans huk) hleft (hright.earlier htu)
  next => exact .pure hst.on hleft

omit hg in
theorem lays_chain {operand : Parser NodeId} (operator? : TokenKind → Option BinaryOp)
    (hoperand : ∀ s, s.On tokens → Lays tokens s operand) (hs : s.On tokens) :
    Lays tokens s (chain operand operator?) := by
  refine (hoperand s hs).bind fun t left hst hleft => ?_
  exact .repeating (fun u left => Between tokens s u (children left)) hst.on hleft
    fun _ _ htu hnext => goes_nextOperand h hoperand (hst.trans htu) hnext

theorem lays_power (hs : s.On tokens) : Lays tokens s (power g) := by
  refine (lays_suffixed h hg hs).bind fun t base hst hbase => ?_
  refine .eat h hst.on (by simp) (fun u htu => ?_) (.pure hst.on hbase)
  refine (hg .factor u htu.reaches.on).bind fun k exponent huk hexponent => ?_
  exact lays_binary h _ hst (htu.reaches.trans huk) hbase (hexponent.earlier htu.reaches)

theorem lays_unary (op : UnaryOp) (place : Place) (hs : s.On tokens) (hkind : s.kind.Takable) :
    Lays tokens s (do
      let start := (← advance).span
      let operand ← g place
      node (.unary op operand) (← spanFrom start)) := by
  refine .begins h hs hkind fun t start hbegins => ?_
  refine (hg place t hbegins.reaches.on).bind fun u operand htu hoperand => ?_
  have hparts : (Expr.unary op operand).layout? u.arena 0 = some [.node operand] := rfl
  exact lays_spanFrom h hbegins htu hparts hoperand

theorem lays_factor (hs : s.On tokens) : Lays tokens s (factor g) := by
  refine .current h hs fun token rest hahead => ?_
  split
  next op hop =>
    refine lays_unary h hg op .factor hs ?_
    rw [kind_of_ahead hahead]
    exact takable_of_signOp? hop
  next => exact lays_power h hg hs

theorem lays_product (hs : s.On tokens) : Lays tokens s (product g) :=
  lays_chain h _ (fun _ => lays_factor h hg) hs

theorem lays_sum (hs : s.On tokens) : Lays tokens s (sum g) :=
  lays_chain h _ (fun _ => lays_product h hg) hs

theorem lays_comparison (hs : s.On tokens) : Lays tokens s (comparison g) :=
  lays_chain h _ (fun _ => lays_sum h hg) hs

theorem lays_negation (hs : s.On tokens) : Lays tokens s (negation g) := by
  refine .look (fun _ => checkKeyword_eq _) ?_
  split
  next hnot => exact lays_unary h hg .not .negation hs (.of_isKeyword hnot)
  next => exact lays_comparison h hg hs

theorem lays_logical (hs : s.On tokens) : Lays tokens s (logical g) :=
  lays_chain h _ (fun _ => lays_negation h hg) hs

omit h in
theorem lays_positiveBranch (condition : NodeId) (hs : s.On tokens) :
    Lays tokens s (positiveBranch g condition) := by
  refine .look (fun _ => check_eq _) ?_
  split
  · refine .look (fun _ => rfl) ?_
    split
    · exact lays_none hs
    · exact goes_failFound _ hs
  · exact lays_some (hg .ternary s hs)

theorem lays_negativeBranch (positive : Option NodeId) (hs : s.On tokens) :
    Lays tokens s (negativeBranch g positive) := by
  refine .eat h hs (by simp) (fun t hst => ?_) ?_
  · refine (goes_atBoundary hst.reaches.on).bind fun u boundary htu _ => ?_
    split
    · exact .pure htu.on .nil
    · exact (lays_some (hg .ternary u htu.on)).earlier (hst.reaches.trans htu)
  · refine (goes_atBoundary hs).bind fun u boundary hsu _ => ?_
    split
    · exact .pure hsu.on .nil
    · exact goes_failExpected _ hsu.on

theorem lays_ternary (hs : s.On tokens) : Lays tokens s (ternary g) := by
  refine (lays_logical h hg hs).bind fun t condition hst hcondition => ?_
  refine .eat h hst.on (by simp) (fun u htu => ?_) (.pure hst.on hcondition)
  refine (lays_positiveBranch hg condition htu.reaches.on).bind fun k positive huk hpositive => ?_
  refine (lays_negativeBranch h hg positive huk.on).bind fun l negative hkl hnegative => ?_
  have hparts : (Expr.ternary condition positive negative).layout? l.arena 0 =
      some (.node condition :: (children positive ++ children negative)) := by
    simp [Expr.layout?, children_option]
  have hbranches := (hpositive.append h huk hkl hnegative).earlier htu.reaches
  have htl := htu.reaches.trans (huk.trans hkl)
  exact lays_spanFrom_first h (hst.trans htl) hparts (hcondition.append h hst htl hbranches)

/-! ## Bindings -/

theorem goes_initializer (type : DeclaredType) (hs : s.On tokens) :
    Goes tokens s (fun t value => Between tokens s t (children value.1)) (initializer g type) := by
  refine .current h hs fun token rest _ => ?_
  split
  · refine (goes_advance h hs).bind fun t _ hst _ => ?_
    refine (hg .expr t hst.on).bind fun u value htu hvalue => ?_
    exact .pure htu.on (hvalue.earlier hst)
  · exact goes_failFound _ hs
  · split
    · exact goes_failFound _ hs
    · exact .pure hs .nil

theorem lays_declaration (type : DeclaredType) (hs : s.On tokens) (hkind : s.kind.Takable) :
    Lays tokens s (declaration g type) := by
  refine .begins h hs hkind fun t start hbegins => ?_
  refine (goes_identifier h _ hbegins.reaches.on).bind fun u name htu _ => ?_
  refine (goes_initializer h hg type htu.on).bind fun k value huk hvalue => ?_
  obtain ⟨value, yields⟩ := value
  have hparts : (Expr.declare type name value yields).layout? k.arena 0 =
      some (children value) := by
    simp [Expr.layout?, children_option]
  exact lays_spanFrom h hbegins (htu.trans huk) hparts (hvalue.earlier htu)

theorem lays_assignment (name : Name) (op : AssignOp) (yields : Bool) (hs : s.On tokens)
    (hkind : s.kind.Takable) : Lays tokens s (assignment g name op yields) := by
  refine .begins h hs hkind fun t start hbegins => ?_
  refine (goes_advance h hbegins.reaches.on).bind fun u _ htu _ => ?_
  refine (hg .expr u htu.on).bind fun k value huk hvalue => ?_
  have hparts : (Expr.assign name op value yields).layout? k.arena 0 = some [.node value] := rfl
  exact lays_spanFrom h hbegins (htu.trans huk) hparts (hvalue.earlier htu)

theorem lays_expr (hs : s.On tokens) : Lays tokens s (expr g) := by
  refine .current h hs fun token rest hahead => .look (fun _ => peek_eq) ?_
  have hkind {kind : TokenKind} (hsame : token.kind = kind) (htakable : kind.Takable) :
      s.kind.Takable := kind_of_ahead hahead ▸ hsame ▸ htakable
  split
  next hkeyword =>
    split
    · exact lays_declaration h hg _ hs (hkind hkeyword rfl)
    · exact lays_ternary h hg hs
  next hname _ => exact lays_assignment h hg _ _ _ hs (hkind hname rfl)
  next => exact lays_ternary h hg hs

theorem lays_production (place : Place) (hs : s.On tokens) :
    Lays tokens s (production g place) := by
  cases place with
  | expr => exact lays_expr h hg hs
  | ternary => exact lays_ternary h hg hs
  | logical => exact lays_logical h hg hs
  | negation => exact lays_negation h hg hs
  | sum => exact lays_sum h hg hs
  | factor => exact lays_factor h hg hs

end

/-! ## Programs -/

theorem grammar_lays (h : InOrder tokens) (level : Nat) : Grammar.Lays tokens (grammar level) := by
  induction level with
  | zero => exact fun place s hs => .fail hs
  | succ level ih =>
    intro place s hs c
    simpa only [grammar, atLevel_eq] using lays_production h ih place hs c

end Parser
end ExprScript
