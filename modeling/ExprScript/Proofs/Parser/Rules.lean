import ExprScript.Proofs.Parser.Tags

/-!
# The rules tell what is measured

Given rules for nested expressions that tell by their tags what parsers measure, each production
does the same. So by levels of nesting the whole grammar does, and the two ways to parse a token
list are equal.
-/
namespace ExprScript

namespace Parser

variable {n : Nat} {K : TokenKind → Prop} {h : Rules} {g : Grammar}

/-- The rules tell what the parsers measure wherever fewer tokens than so many are ahead. -/
structure Grammar.Told (n : Nat) (h : Rules) (g : Grammar) : Prop where
  takes : Grammar.Takes n g
  tells : ∀ place, Tells n (fun _ => True) (h place) (g place)

section
variable (hg : Grammar.Told n h g)
include hg

theorem Grammar.Told.continues (place : Place) : Continues n (Rule.require (h place)) (g place) :=
  ⟨(hg.tells place).require, (hg.takes place).goesOn⟩

/-! ## Statements -/

theorem tells_guard : Tells n K (Rule.guard h) (guard g) :=
  .eatKeyword ((hg.continues .ternary).bind fun _ => .consumedOk _) (.emptyOk none)

theorem continues_guard : Continues n (Rule.require (Rule.guard h)) (guard g) :=
  ⟨(tells_guard hg).require, goesOn_guard hg.takes⟩

theorem continues_returnedValue : Continues n (Rule.returnedValue h) (returnedValue g) where
  commits := stays_atBoundary.continues.bind fun _ => (stays_checkKeyword _).continues.bind fun _ =>
    .ite (.pure none) ((hg.continues .expr).bind fun _ => .pure _)
  goesOn := goesOn_returnedValue hg.takes

theorem opens_returnStatement : Opens n (Rule.returnStatement h) (returnStatement g) :=
  .advance fun _ => (continues_returnedValue hg).bind fun _ => (continues_guard hg).bind fun _ =>
    (stays_spanFrom _).continues.bind fun _ => (stays_node _ _).continues.completed

omit hg in
theorem continues_loopLabel : Continues n Rule.loopLabel loopLabel where
  commits := (continues_eat (by simp)).bind fun _ => .ite
    (stays_currentSpan.continues.bind fun span => (continues_identifier _).bind fun name =>
      stays_context.continues.bind fun c => .ite (.pure _)
        ((stays_textOf name).continues.bind fun text => .consumedErr _))
    (.pure none)
  goesOn := goesOn_loopLabel

theorem opens_loopControl (keyword : Keyword) (build : Option Name → Option NodeId → Expr) :
    Opens n (Rule.loopControl h keyword build) (loopControl g keyword build) := by
  refine .advance fun _ => stays_context.continues.bind fun c => .ite (.consumedErr _) ?_
  exact continues_loopLabel.bind fun _ => (continues_guard hg).bind fun _ =>
    (stays_spanFrom _).continues.bind fun _ => (stays_node _ _).continues.completed

omit hg in
/-- What begins with a token is known from a look at that token. -/
theorem Tells.looked {α : Type} {r : Rule α} {p : Parser α} {kind : TokenKind}
    (hkind : kind.Takable) (hr : Tells n TokenKind.Takable r p) :
    Tells n (fun k => K k ∧ kind = k) r p :=
  hr.mono (Nat.le_refl n) fun _ hk => hk.2 ▸ hkind

theorem tells_statement : Tells n (fun _ => True) (Rule.statement h) (statement g) := by
  refine .look stays_current fun token => ?_
  have hexpr (K : TokenKind → Prop) : Tells n K (h .expr) (g .expr) :=
    (hg.tells .expr).mono (Nat.le_refl n) fun _ _ => trivial
  cases token.kind with
  | keyword word =>
    cases word with
    | returnWord => exact .looked rfl (opens_returnStatement hg).within
    | breakWord => exact .looked rfl (opens_loopControl hg _ _).within
    | continueWord => exact .looked rfl (opens_loopControl hg _ _).within
    | _ => exact hexpr _
  | _ => exact hexpr _

theorem plainly_nextStatement (before : List NodeId) :
    Plainly n (Rule.nextStatement h before) (nextStatement g before) := by
  refine .step sure_skipNewlines goesOn_skipNewlines fun _ => .look (stays_check .eof) fun _ => ?_
  refine .look (stays_check _) fun _ => ?_
  split
  · exact fun _ _ _ _ => rfl
  refine .stopping (tells_statement hg) (takes_statement hg.takes).goesOn ?behind ?behind
    (fun _ _ _ _ _ => rfl) fun _ => rfl
  refine fun id => .look stays_current fun token => ?_
  cases token.kind with
  | mark mark =>
    cases mark with
    | closing bracket => cases bracket <;> exact fun _ _ _ _ => rfl
    | _ => exact fun _ _ _ _ => rfl
  | _ => exact fun _ _ _ _ => rfl

theorem statements_plain {c : ParseContext} {s : ParseState} (hlength : s.ahead.length < n)
    (hrounds : s.ahead.length ≤ c.rounds) :
    Rule.statements h c s = (statements g c s).plain :=
  Plainly.repeating (plainly_nextStatement hg) (advances_nextStatement hg.takes) [] hlength hrounds

theorem continues_statements : Continues n (Rule.commit (Rule.statements h)) (statements g) where
  commits _ _ hlength hrounds := .commit (statements_plain hg hlength hrounds)
  goesOn := goesOn_statements hg.takes

theorem tells_block : Tells n K (Rule.block h) (block g) := by
  refine .look stays_currentSpan fun opened => .eat (by simp) ?_ (.expected _)
  refine (continues_statements hg).bind fun body => (continues_expectCloser _ _ _).bind fun _ => ?_
  exact (stays_store _ _ _).continues.bind fun _ => (stays_node _ _).continues.completed

theorem continues_block : Continues n (Rule.require (Rule.block h)) (block g) :=
  ⟨(tells_block hg).require, goesOn_block hg.takes⟩

/-! ## Lists and branches -/

section
variable {α : Type} {item : Rule α} {item' : Parser α}
  (hitem : Continues n (Rule.require item) item')
include hitem

omit hg in
theorem commits_commaRound (closing : Bracket) (before : List α) :
    Commits n false (Rule.commaRound closing item before) (commaRound closing item' before) := by
  refine (stays_check _).continues.bind fun _ => (stays_check .eof).continues.bind fun _ =>
    .ite (.pure _) (hitem.bind fun next => continues_skipNewlines.bind fun _ => ?_)
  exact (continues_eat (by simp)).bind fun _ =>
    .ite (continues_skipNewlines.bind fun _ => .pure _) (.pure _)

omit hg in
theorem continues_commaList (closing : Bracket) (htakes : Takes n (fun _ => True) item') :
    Continues n (Rule.commaList closing item) (commaList closing item') where
  commits := continues_skipNewlines.bind fun _ => (Continues.repeating
    (commits_commaRound hitem closing) (advances_commaRound closing htakes) []).commits
  goesOn := goesOn_commaList closing htakes

end

theorem opens_group : Opens n (Rule.group h) (group g) :=
  .advance fun _ => continues_skipNewlines.bind fun _ => (hg.continues .expr).bind fun _ =>
    (continues_expectCloser _ _ _).bind fun _ => .consumedOk _

theorem opens_listLiteral : Opens n (Rule.listLiteral h) (listLiteral g) :=
  .advance fun _ =>
    (continues_commaList (hg.continues .ternary) _ (hg.takes .ternary)).bind fun _ =>
      (continues_expectCloser _ _ _).bind fun _ => (stays_store _ _ _).continues.bind fun _ =>
        (stays_node _ _).continues.completed

theorem continues_branch : Continues n (Rule.branch h) (branch g) where
  commits := (hg.continues .logical).bind fun _ => (continues_block hg).bind fun _ => .pure _
  goesOn := goesOn_branch hg.takes

omit hg in
/-- Behind line breaks and a keyword the cursor is where a look past the line breaks leads. -/
theorem behind_keyword {α : Type} {f : Bool → Rule α} {f' : Token → Parser α} {word : Keyword}
    {c : ParseContext} {s t : ParseState} {taken : Bool}
    (hskip : skipNewlines c s = .done taken () t) (hkind : t.kind = .keyword word) (hlength : t.ahead.length < n)
    (hrounds : t.ahead.length ≤ c.rounds)
    (hf : ∀ token, Commits n false (f true) (f' token)) :
    Behind false ((liftM (eatKeyword word) >>= f) c t)
      ((skipNewlines >>= fun _ => advance >>= f') c s) := by
  cases hahead : t.ahead with
  | nil =>
    rw [ParseState.kind, hahead] at hkind
    cases hkind
  | cons token rest =>
    rw [ParseState.kind_of_ahead hahead] at hkind
    have heat : eatKeyword word c t = .done true true (t.past token rest) :=
      eatKeyword_of_ahead hahead (by simp [hkind, TokenKind.isKeyword])
    have htake : advance c t = .done true token (t.past token rest) :=
      advance_of_ahead hahead (by rw [hkind]; rfl)
    rw [step_of_done heat, bind_of_done hskip, bind_of_done htake]
    rw [hahead, List.length_cons] at hlength hrounds
    exact ((hf token c _ (Nat.lt_of_succ_lt hlength) (Nat.le_of_succ_le hrounds)).after true).after
      taken

omit hg in
theorem setPosition_back {c : ParseContext} {s t : ParseState} (harena : t.arena = s.arena)
    (hwarnings : t.warnings = s.warnings) :
    setPosition ⟨s.ahead, s.previous⟩ c t = .done false () s := by
  obtain ⟨ahead, previous, arena, warnings⟩ := s
  obtain rfl := harena
  obtain rfl := hwarnings
  rfl

/-- Where no other branch follows, the cursor is rolled back to where the look past the line breaks
began. -/
theorem commits_nextBranch (before : List Branch) :
    Commits n false (Rule.nextBranch h before) (nextBranch g before) := by
  intro c s hlength hrounds
  obtain ⟨taken, t, hskip, hahead, harena, hwarnings⟩ := skipNewlines_run hrounds
  have hmoves := goesOn_skipNewlines c s hlength hrounds trivial
  rw [hskip] at hmoves
  have hle := hmoves.1.length_le
  have hposition : position c s = .done false ⟨s.ahead, s.previous⟩ s := rfl
  have hmissing (word : Keyword) (hne : t.kind ≠ .keyword word) :
      eatKeyword word c t = .done false false t := by
    refine eatKeyword_of_not ?_
    cases hkind : t.kind with
    | keyword other => simpa [TokenKind.isKeyword, hkind] using hne
    | _ => rfl
  rw [Rule.nextBranch, step_of_done hposition, step_of_done hskip, nextBranch,
    bind_of_done pastNewlines_eq, ParseReply.after_false, ← hahead]
  generalize hkind : (t.ahead.headD eofToken).kind = kind
  change t.kind = kind at hkind
  split
  · exact behind_keyword hskip hkind (Nat.lt_of_le_of_lt hle hlength) (Nat.le_trans hle hrounds)
      fun _ => (continues_branch hg).bind fun _ => .pure _
  · rw [step_of_done (hmissing .elifWord (by simp [hkind]))]
    exact behind_keyword hskip hkind (Nat.lt_of_le_of_lt hle hlength) (Nat.le_trans hle hrounds)
      fun _ => (continues_block hg).bind fun _ => .pure _
  next helif helse =>
    rw [step_of_done (hmissing .elifWord (hkind ▸ helif)), if_neg Bool.false_ne_true,
      step_of_done (hmissing .elseWord (hkind ▸ helse)), if_neg Bool.false_ne_true,
      step_of_done (setPosition_back harena hwarnings)]
    exact .part rfl ..

theorem opens_conditional : Opens n (Rule.conditional h) (conditional g) := by
  refine .advance fun _ => (continues_branch hg).bind fun first => ?_
  refine (Continues.repeating (commits_nextBranch hg) (advances_nextBranch hg.takes) _).bind
    fun all => ?_
  exact (stays_store _ _ _).continues.bind fun _ => (stays_spanFrom _).continues.bind fun _ =>
    (stays_node _ _).continues.completed

theorem commits_nextArm (before : List CaseArm × Option NodeId) :
    Commits n false (Rule.nextArm h before) (nextArm g before) := by
  obtain ⟨arms, otherwise⟩ := before
  refine continues_skipNewlines.bind fun _ => (continues_eatKeyword _).bind fun _ => .ite ?_ ?_
  · exact (hg.continues .factor).bind fun _ => (continues_block hg).bind fun _ => .pure _
  refine (stays_checkKeyword _).continues.bind fun _ => .ite (.ite ?_ ?_) (.pure _)
  · exact stays_currentSpan.continues.bind fun _ => .consumedErr _
  · exact continues_advance.bind fun _ => (continues_block hg).bind fun _ => .pure _

theorem opens_caseOf : Opens n (Rule.caseOf h) (caseOf g) := by
  refine .advance fun _ => (hg.continues .logical).bind fun _ => ?_
  refine stays_currentSpan.continues.bind fun _ => (continues_eat (by simp)).bind fun _ =>
    .ite ?_ (.expected _)
  refine (Continues.repeating (commits_nextArm hg) (advances_nextArm hg.takes) _).bind fun all => ?_
  exact (continues_expectCloser _ _ _).bind fun _ => (stays_store _ _ _).continues.bind fun _ =>
    (stays_spanFrom _).continues.bind fun _ => (stays_node _ _).continues.completed

/-! ## Loops and functions -/

theorem tells_loopBody (label : Option Name) :
    Tells n K (Rule.loopBody h label) (loopBody g label) :=
  (tells_block hg).withLoops

theorem continues_loopBody (label : Option Name) :
    Continues n (Rule.require (Rule.loopBody h label)) (loopBody g label) :=
  ⟨(tells_loopBody hg label).require, goesOn_loopBody hg.takes label⟩

theorem continues_loopBounds : Continues n (Rule.loopBounds h) (loopBounds g) where
  commits := (hg.continues .sum).bind fun _ => (continues_eatKeyword _).bind fun _ =>
    .ite ((hg.continues .sum).bind fun _ => .pure _) (.pure _)
  goesOn := goesOn_loopBounds hg.takes

theorem continues_loopStep : Continues n (Rule.loopStep h) (loopStep g) where
  commits := (continues_eatKeyword _).bind fun _ =>
    .ite ((hg.continues .sum).bind fun _ => .pure _) (.pure _)
  goesOn := goesOn_loopStep hg.takes

omit hg in
theorem continues_loopCounter : Continues n Rule.loopCounter loopCounter where
  commits := (continues_eat (by simp)).bind fun _ =>
    .ite ((continues_identifier _).bind fun _ => .pure _) (.pure _)
  goesOn := goesOn_loopCounter

theorem opens_iterate (label : Option Name) (start : Span) :
    Opens n (Rule.iterate h label start) (iterate g label start) :=
  .advance fun _ => (continues_loopBounds hg).bind fun _ => (continues_loopStep hg).bind fun _ =>
    continues_loopCounter.bind fun _ => (continues_loopBody hg label).bind fun _ =>
      (stays_spanFrom _).continues.bind fun _ => (stays_node _ _).continues.completed

theorem opens_whileLoop (label : Option Name) (start : Span) :
    Opens n (Rule.whileLoop h label start) (whileLoop g label start) :=
  .advance fun _ => (hg.continues .logical).bind fun _ =>
    (continues_loopBody hg label).bind fun _ => (stays_spanFrom _).continues.bind fun _ =>
      (stays_node _ _).continues.completed

theorem opens_labelledLoop : Opens n (Rule.labelledLoop h) (labelledLoop g) := by
  refine .advance fun _ => (continues_identifier _).bind fun label => ?_
  refine stays_current.continues.bind fun token => ?_
  cases token.kind with
  | keyword word =>
    cases word with
    | iterate => exact (opens_iterate hg _ _).commits
    | whileWord => exact (opens_whileLoop hg _ _).commits
    | _ =>
      exact stays_describeCurrent.continues.bind fun _ =>
        stays_currentSpan.continues.bind fun _ => .consumedErr _
  | _ =>
    exact stays_describeCurrent.continues.bind fun _ =>
      stays_currentSpan.continues.bind fun _ => .consumedErr _

theorem continues_parameterDefault (name : Name) :
    Continues n (Rule.parameterDefault h name) (parameterDefault g name) := by
  refine ⟨stays_current.continues.bind fun token => ?_, goesOn_parameterDefault hg.takes name⟩
  cases token.kind with
  | mark mark =>
    cases mark with
    | assign op yields =>
      cases op with
      | some op => exact .pure _
      | none =>
        cases yields with
        | false =>
          exact continues_advance.bind fun _ => (hg.continues .ternary).bind fun _ => .pure _
        | true =>
          exact continues_advance.bind fun _ => (stays_textOf _).continues.bind fun _ =>
            (stays_warn _ _ _).continues.bind fun _ => (hg.continues .ternary).bind fun _ => .pure _
    | _ => exact .pure _
  | _ => exact .pure _

/-- A parameter takes its type first. -/
theorem tells_parameter : Tells n (fun _ => True) (Rule.parameter h) (parameter g) := by
  refine .look stays_current fun token => ?_
  cases htype : declaredTypeOf token.kind with
  | none => exact .found _
  | some type =>
    have htakable : token.kind.Takable := by
      cases hkind : token.kind with
      | keyword word => rfl
      | _ => simp [declaredTypeOf, hkind] at htype
    refine .looked htakable (Opens.within ?_)
    exact .advance fun _ => (continues_identifier _).bind fun name =>
      (continues_parameterDefault hg name).bind fun _ =>
        (stays_spanFrom token.span).continues.bind fun _ => .consumedOk _

theorem continues_parameter : Continues n (Rule.require (Rule.parameter h)) (parameter g) :=
  ⟨(tells_parameter hg).require, (takes_parameter hg.takes).goesOn⟩

omit hg in
theorem sure_functionName : Sure functionName := by
  refine stays_current.sure.bind fun token => ?_
  split
  · exact sure_advance.bind fun _ => .pure _
  · exact .pure _

theorem opens_function : Opens n (Rule.function h) (function g) := by
  refine .advance fun _ => (sure_functionName.continues goesOn_functionName).bind fun _ => ?_
  refine stays_currentSpan.continues.bind fun _ => (continues_eat (by simp)).bind fun _ =>
    .ite ?_ (.expected _)
  have hbody : Continues n (Rule.require (Rule.withLoops (fun _ => []) (Rule.block h)))
      (withLoops (fun _ => []) (block g)) :=
    ⟨(tells_block hg).withLoops.require, (goesOn_block hg.takes).withLoops⟩
  have hparameters := continues_commaList (continues_parameter hg) .paren (takes_parameter hg.takes)
  refine hparameters.bind fun _ => (continues_expectCloser _ _ _).bind fun _ => ?_
  refine hbody.bind fun _ => ?_
  exact (stays_store _ _ _).continues.bind fun _ => (stays_spanFrom _).continues.bind fun _ =>
    (stays_node _ _).continues.completed

omit hg in
theorem opens_literal (expr : Expr) : Opens n (Rule.literal expr) (literal expr) :=
  .advance fun _ => (stays_node _ _).continues.completed

theorem tells_atom : Tells (n + 1) (fun _ => True) (Rule.atom h) (atom g) := by
  refine .look stays_current fun token => ?_
  cases token.kind with
  | int n => exact .looked rfl (opens_literal _).tells
  | float x => exact .looked rfl (opens_literal _).tells
  | str text => exact .looked rfl (opens_literal _).tells
  | ident name => exact .looked rfl (opens_literal _).tells
  | mark mark =>
    cases mark with
    | opening bracket =>
      cases bracket with
      | paren => exact .looked rfl (opens_group hg).tells
      | square => exact .looked rfl (opens_listLiteral hg).tells
      | brace => exact .found _
    | atSign => exact .looked rfl (opens_labelledLoop hg).tells
    | _ => exact .found _
  | keyword word =>
    cases word with
    | ifWord => exact .looked rfl (opens_conditional hg).tells
    | caseWord => exact .looked rfl (opens_caseOf hg).tells
    | iterate => exact .looked rfl (opens_iterate hg _ _).tells
    | whileWord => exact .looked rfl (opens_whileLoop hg _ _).tells
    | defWord => exact .looked rfl (opens_function hg).tells
    | _ => exact .found _

/-! ## Operators behind an expression -/

omit hg in
theorem sure_argumentName : Sure argumentName := by
  refine stays_current.sure.bind fun token => stays_peek.sure.bind fun behind => ?_
  split
  · exact sure_advance.bind fun _ => sure_advance.bind fun _ => .pure _
  · exact sure_advance.bind fun _ => sure_advance.bind fun _ => (stays_textOf _).sure.bind fun _ =>
      (stays_warn _ _ _).sure.bind fun _ => .pure _
  · exact .pure _

theorem continues_argument : Continues n (Rule.require (Rule.argument h)) (argument g) where
  commits := Commits.require <| stays_currentSpan.continues.bind fun _ =>
    (sure_argumentName.continues goesOn_argumentName).bind fun _ =>
      (hg.continues .ternary).bind fun _ => (stays_spanFrom _).continues.bind fun _ => .pure _
  goesOn := (takes_argument hg.takes).goesOn

theorem opens_call (callee : NodeId) : Opens n (Rule.call h callee) (call g callee) :=
  .advance fun _ =>
    (continues_commaList (continues_argument hg) _ (takes_argument hg.takes)).bind fun _ =>
      (continues_expectCloser _ _ _).bind fun _ => (stays_store _ _ _).continues.bind fun _ =>
        (stays_spanOf _).continues.bind fun _ => (stays_node _ _).continues.completed

theorem continues_indexSpec : Continues n (Rule.indexSpec h) (indexSpec g) where
  commits := (hg.continues .ternary).bind fun _ => (continues_eatKeyword _).bind fun _ =>
    .ite ((hg.continues .ternary).bind fun _ => .pure _) (.pure _)
  goesOn := (takes_indexSpec hg.takes).goesOn

theorem commits_nextSpec (before : List IndexSpec) :
    Commits n false (Rule.nextSpec h before) (nextSpec g before) :=
  (continues_indexSpec hg).bind fun _ => continues_skipNewlines.bind fun _ =>
    (continues_eat (by simp)).bind fun _ =>
      .ite (continues_skipNewlines.bind fun _ => .pure _) (.pure _)

theorem opens_index (target : NodeId) : Opens n (Rule.index h target) (index g target) := by
  refine .advance fun _ => continues_skipNewlines.bind fun _ => (continues_eat (by simp)).bind
    fun _ => .ite (.consumedOk target) ?_
  have hspecs := Continues.repeating (commits_nextSpec hg) (advances_nextSpec hg.takes) []
  refine hspecs.bind fun _ => ?_
  exact (continues_expectCloser _ _ _).bind fun _ => (stays_store _ _ _).continues.bind fun _ =>
    (stays_spanOf _).continues.bind fun _ => (stays_node _ _).continues.completed

omit hg in
theorem commits_member (target : NodeId) : Commits n false (Rule.member target) (member target) :=
  continues_advance.bind fun _ => (continues_identifier _).bind fun _ =>
    (stays_spanOf _).continues.bind fun _ => (stays_spanFrom _).continues.bind fun _ =>
      (stays_node _ _).continues.commits

omit hg in
theorem commits_cast (operand : NodeId) : Commits n false (Rule.cast operand) (cast operand) := by
  refine continues_advance.bind fun _ => stays_current.continues.bind fun token => ?_
  cases htype : valueTypeOf token.kind with
  | none => exact .found _
  | some type =>
    exact continues_advance.bind fun _ => (stays_spanOf _).continues.bind fun _ =>
      (stays_spanFrom _).continues.bind fun _ => (stays_node _ _).continues.commits

theorem commits_nextPostfix (target : NodeId) :
    Commits n false (Rule.nextPostfix h target) (nextPostfix g target) := by
  refine stays_current.continues.bind fun token => ?_
  cases token.kind with
  | mark mark =>
    cases mark with
    | opening bracket =>
      cases bracket with
      | paren => exact (opens_call hg target).commits.require.map _
      | square => exact (opens_index hg target).commits.require.map _
      | brace => exact .pure _
    | dot => exact (commits_member target).map _
    | _ => exact .pure _
  | keyword word =>
    cases word with
    | asWord => exact (commits_cast target).map _
    | _ => exact .pure _
  | _ => exact .pure _

theorem tells_suffixed : Tells (n + 1) (fun _ => True) (Rule.suffixed h) (suffixed g) :=
  (tells_atom hg).chain (takes_atom hg.takes) (Nat.le_refl _) fun target =>
    (Continues.repeating (commits_nextPostfix hg) (advances_nextPostfix hg.takes) target).completed

/-! ## Operators -/

omit hg in
theorem stays_binary (op : BinaryOp) (left right : NodeId) :
    Stays (fun _ _ => True) (binary op left right) :=
  (stays_spanOf _).bind fun _ => (stays_spanOf _).bind fun _ => stays_node _ _

section
variable {operand : Rule NodeId} {operand' : Parser NodeId}
  {operator? : TokenKind → Option BinaryOp}

omit hg in
theorem commits_nextOperand (h : Tells (n + 1) (fun _ => True) operand operand')
    (htakes : Takes (n + 1) (fun _ => True) operand') (left : NodeId) :
    Commits n false (Rule.nextOperand operand operator? left)
      (nextOperand operand' operator? left) := by
  have hright : Continues n (Rule.require operand) operand' :=
    ⟨(h.mono (Nat.le_succ n) fun _ hk => hk).require, htakes.behind⟩
  refine stays_current.continues.bind fun token => ?_
  cases operator? token.kind with
  | none => exact .pure _
  | some op =>
    exact continues_advance.bind fun _ => hright.bind fun right =>
      (stays_binary op left right).continues.bind fun _ => .pure _

omit hg in
theorem tells_level (h : Tells (n + 1) (fun _ => True) operand operand')
    (htakes : Takes (n + 1) (fun _ => True) operand')
    (hoperator : ∀ kind op, operator? kind = some op → kind.Takable) :
    Tells (n + 1) (fun _ => True) (Rule.level operand operator?) (chain operand' operator?) :=
  h.chain htakes (Nat.le_refl _) fun first => (Continues.repeating
    (commits_nextOperand h htakes) (advances_nextOperand htakes hoperator) first).completed

end

theorem tells_power : Tells (n + 1) (fun _ => True) (Rule.power h) (power g) :=
  (tells_suffixed hg).chain (takes_suffixed hg.takes) (Nat.le_refl _) fun base =>
    (continues_eat (by simp)).bind fun _ => .ite
      ((hg.continues .factor).bind fun exponent =>
        (stays_binary _ base exponent).continues.completed)
      (.consumedOk base)

theorem tells_factor : Tells (n + 1) (fun _ => True) (Rule.factor h) (factor g) := by
  refine .look stays_current fun token => ?_
  cases hsign : signOp? token.kind with
  | none => exact (tells_power hg).mono (Nat.le_refl _) fun _ _ => trivial
  | some op =>
    refine .looked (takable_of_signOp? hsign) (Opens.tells ?_)
    exact .advance fun _ => (hg.continues .factor).bind fun _ =>
      (stays_spanFrom _).continues.bind fun _ => (stays_node _ _).continues.completed

theorem tells_product : Tells (n + 1) (fun _ => True) (Rule.product h) (product g) :=
  tells_level (tells_factor hg) (takes_factor hg.takes) fun _ _ => takable_of_productOp?

theorem tells_sum : Tells (n + 1) (fun _ => True) (Rule.sum h) (sum g) :=
  tells_level (tells_product hg) (takes_product hg.takes) fun _ _ => takable_of_sumOp?

theorem tells_comparison : Tells (n + 1) (fun _ => True) (Rule.comparison h) (comparison g) :=
  tells_level (tells_sum hg) (takes_sum hg.takes) fun _ _ => takable_of_comparisonOp?

theorem tells_negation : Tells (n + 1) (fun _ => True) (Rule.negation h) (negation g) := by
  refine .look (stays_checkKeyword .not) fun found => ?_
  cases found with
  | false => exact (tells_comparison hg).mono (Nat.le_refl _) fun _ _ => trivial
  | true =>
    refine Tells.mono (Opens.tells ?_) (Nat.le_refl _) fun _ hk => .of_isKeyword hk.2.symm
    exact .advance fun _ => (hg.continues .negation).bind fun _ =>
      (stays_spanFrom _).continues.bind fun _ => (stays_node _ _).continues.completed

theorem tells_logical : Tells (n + 1) (fun _ => True) (Rule.logical h) (logical g) :=
  tells_level (tells_negation hg) (takes_negation hg.takes) fun _ _ => takable_of_logicalOp?

theorem continues_positiveBranch (condition : NodeId) :
    Continues n (Rule.positiveBranch h condition) (positiveBranch g condition) where
  commits := (stays_check _).continues.bind fun _ => .ite
    ((stays_isBoolCast _).continues.bind fun _ => .ite (.pure none) (.found _))
    ((hg.continues .ternary).bind fun _ => .pure _)
  goesOn := goesOn_positiveBranch hg.takes condition

theorem continues_negativeBranch (positive : Option NodeId) :
    Continues n (Rule.negativeBranch h positive) (negativeBranch g positive) where
  commits := (continues_eat (by simp)).bind fun _ => .ite
    (stays_atBoundary.continues.bind fun _ => .ite (.pure none)
      ((hg.continues .ternary).bind fun _ => .pure _))
    (stays_atBoundary.continues.bind fun _ => .ite (.pure none) (.expected _))
  goesOn := goesOn_negativeBranch hg.takes positive

theorem tells_ternary : Tells (n + 1) (fun _ => True) (Rule.ternary h) (ternary g) := by
  refine (tells_logical hg).chain (takes_logical hg.takes) (Nat.le_refl _) fun condition => ?_
  refine (continues_eat (by simp)).bind fun _ => .ite ?_ (.consumedOk condition)
  exact (continues_positiveBranch hg condition).bind fun positive =>
    (continues_negativeBranch hg positive).bind fun _ => (stays_spanOf _).continues.bind fun _ =>
      (stays_spanFrom _).continues.bind fun _ => (stays_node _ _).continues.completed

theorem continues_initializer (type : DeclaredType) :
    Continues n (Rule.initializer h type) (initializer g type) := by
  refine ⟨stays_current.continues.bind fun token => ?_, goesOn_initializer hg.takes type⟩
  cases token.kind with
  | mark mark =>
    cases mark with
    | assign op yields =>
      cases op with
      | none => exact continues_advance.bind fun _ => (hg.continues .expr).bind fun _ => .pure _
      | some op => exact .found _
    | _ => exact .ite (.found _) (.pure _)
  | _ => exact .ite (.found _) (.pure _)

theorem opens_declaration (type : DeclaredType) :
    Opens n (Rule.declaration h type) (declaration g type) :=
  .advance fun _ => (continues_identifier _).bind fun _ => (continues_initializer hg type).bind
    fun _ => (stays_spanFrom _).continues.bind fun _ => (stays_node _ _).continues.completed

/-- Behind a name the operator is the one that was seen from in front of the name. -/
theorem assignment_told (name : Name) {op : AssignOp} {yields : Bool} {c : ParseContext}
    {s : ParseState} (hlength : s.ahead.length < n + 1) (hrounds : s.ahead.length ≤ c.rounds)
    (hkind : s.kind.Takable) (hpeek : firstKind s.ahead.tail = .mark (.assign op yields)) :
    Rule.assignment h name c s = (assignment g name op yields c s).told := by
  cases hahead : s.ahead with
  | nil =>
    rw [ParseState.kind, hahead] at hkind
    cases hkind
  | cons token rest =>
    rw [ParseState.kind_of_ahead hahead] at hkind
    rw [hahead, List.tail_cons, firstKind] at hpeek
    have htake := advance_of_ahead (c := c) hahead hkind
    have hcurrent : current c (s.past token rest) =
      .done false (rest.headD eofToken) (s.past token rest) := rfl
    have hrest (start : Span) : Commits n true _ _ := continues_advance.bind fun _ =>
      (hg.continues .expr).bind fun value => (stays_spanFrom start).continues.bind fun span =>
        (stays_node (.assign name op value yields) span).continues.completed
    rw [Rule.assignment, assignment, step_of_done htake, bind_of_done htake,
      step_of_done hcurrent, hpeek]
    rw [hahead, List.length_cons] at hlength hrounds
    exact (hrest token.span c _ (Nat.lt_of_succ_lt_succ hlength) (Nat.le_of_succ_le hrounds)).told

theorem tells_expr : Tells (n + 1) (fun _ => True) (Rule.expr h) (expr g) := by
  intro c s hlength hrounds _
  have hcurrent : current c s = .done false (s.ahead.headD eofToken) s := rfl
  have hternary := tells_ternary hg c s hlength hrounds trivial
  rw [Rule.expr, expr, step_of_done hcurrent, bind_of_done hcurrent, ParseReply.after_false,
    step_of_done peek_eq, bind_of_done peek_eq, ParseReply.after_false]
  cases hkind : (s.ahead.headD eofToken).kind with
  | keyword k =>
    cases htype : k.declaredType? with
    | none => simpa only [htype] using hternary
    | some type =>
      have htakable : s.kind.Takable := by rw [ParseState.kind, hkind]; rfl
      simpa only [htype] using (opens_declaration hg type).tells c s hlength hrounds htakable
  | ident name =>
    have htakable : s.kind.Takable := by rw [ParseState.kind, hkind]; rfl
    cases hpeek : firstKind s.ahead.tail with
    | mark m =>
      cases m with
      | assign op yields => exact assignment_told hg name hlength hrounds htakable hpeek
      | _ => exact hternary
    | _ => exact hternary
  | _ => exact hternary

/-- Each place tells where one level less does for what is nested in it. -/
theorem tells_production (place : Place) :
    Tells (n + 1) (fun _ => True) (Rule.production h place) (production g place) := by
  cases place with
  | expr => exact tells_expr hg
  | ternary => exact tells_ternary hg
  | logical => exact tells_logical hg
  | negation => exact tells_negation hg
  | sum => exact tells_sum hg
  | factor => exact tells_factor hg

end

/-! ## Programs -/

theorem grammar_told (level : Nat) : Grammar.Told level (Rule.grammar level) (grammar level) := by
  induction level with
  | zero => exact ⟨grammar_takes 0, fun place c s hlength => absurd hlength (Nat.not_lt_zero _)⟩
  | succ level ih =>
    refine ⟨grammar_takes (level + 1), fun place c s hlength hrounds hkind => ?_⟩
    simpa only [grammar, Rule.grammar, atLevel_eq] using
      tells_production ih place c s hlength hrounds hkind

theorem sure_strayToken (stopped : Option Diagnostic) : Sure (strayToken stopped) := by
  refine stays_current.sure.bind fun token => ?_
  split
  · exact .pure _
  · exact .pure _
  · exact stays_describeCurrent.sure.bind fun _ => .pure _

/-- Behind the statements of a program. -/
theorem programBody_behind (hg : Grammar.Told n h g) {c : ParseContext} {s t : ParseState}
    {taken : Bool} {body : Statements} (hlength : s.ahead.length < n)
    (hrounds : s.ahead.length ≤ c.rounds) (hrun : statements g c s = .done taken body t) :
    Behind false (Rule.programBody h c s) (programBody g c s) := by
  have hplain := statements_plain hg hlength hrounds
  have hmoves := goesOn_statements hg.takes c s hlength hrounds trivial
  rw [hrun] at hplain hmoves
  have hle := hmoves.1.length_le
  rw [Rule.programBody, Rule.then_of_emptyOk hplain, programBody, bind_of_done hrun]
  refine Behind.after ?_ taken
  refine (show Commits n false _ _ from ?_) c t (Nat.lt_of_le_of_lt hle hlength)
    (Nat.le_trans hle hrounds)
  exact (stays_check .eof).continues.bind fun _ => .ite (.pure _)
    (((sure_strayToken _).continues (goesOn_strayToken _)).bind fun _ => .pure _)

end Parser

/-- A parse comes to what parsers with measured flags come to. -/
theorem parse_eq (tokens : List Token) (names : Interner) :
    parse tokens names = measuredParse tokens names := by
  have hlevels := le_levelsFor (tokens.length + 1)
  unfold parse measuredParse
  generalize levelsFor (tokens.length + 1) = levels at hlevels
  have htold := Parser.grammar_told levels
  generalize hcontext : (⟨names, [], tokens.length⟩ : ParseContext) = c
  generalize hstate : (⟨tokens, none, Arena.empty, #[]⟩ : ParseState) = s
  have hlength : s.ahead.length < levels := hstate ▸ hlevels
  have hrounds : s.ahead.length ≤ c.rounds := hstate ▸ hcontext ▸ Nat.le_refl _
  dsimp only
  cases hrun : Parser.statements (Parser.grammar levels) c s with
  | done taken body t =>
    have hbehind := Parser.programBody_behind htold hlength hrounds hrun
    generalize Rule.programBody (Rule.grammar levels) c s = reply,
      Parser.programBody (Parser.grammar levels) c s = measured at hbehind
    cases hbehind <;> rfl
  | failed taken e t =>
    have hplain := Parser.statements_plain htold hlength hrounds
    rw [hrun] at hplain
    rw [Rule.programBody, Parser.programBody, Parser.bind_of_failed hrun]
    cases e with
    | fault d => rw [Rule.then_of_emptyOk hplain]; rfl
    | tooLong count => rw [Rule.then_of_error hplain]
    | exhausted => rw [Rule.then_of_error hplain]

/-- No token list uses up the levels of nesting and the rounds that its parse provides for. -/
theorem parse_ne_exhausted (tokens : List Token) (names : Interner) :
    parse tokens names ≠ .error .exhausted :=
  parse_eq tokens names ▸ measuredParse_ne_exhausted tokens names

end ExprScript
