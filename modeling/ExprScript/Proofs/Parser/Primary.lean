import ExprScript.Proofs.Parser.Block

/-!
# Primary expressions

The body of a loop is parsed inside one loop more, and that of a function outside of all loops. The
defaults of its parameters are parsed inside the loops around the function.
-/
namespace ExprScript.Parser

variable {loops : Loops} {a : Arena} {g : Grammar} (hg : Forms g)

include hg

/-! ## Lists and branches -/

theorem builds_group : Builds loops a (Parsed loops) (group g) := by
  refine quiet_advance.then fun opened => quiet_skipNewlines.then fun _ => ?_
  refine (hg .expr loops a).bind fun b inner _ hinner => (quiet_expectCloser _ _ _).then fun _ => ?_
  exact .pure fun c hbc => hinner.mono hbc

theorem builds_listLiteral : Builds loops a (Parsed loops) (listLiteral g) := by
  refine quiet_advance.then fun opened => ?_
  refine (builds_commaList (hg .ternary loops) (fun _ _ _ hbc h => h.mono hbc) .square).bind ?_
  intro b items _ hitems
  refine (quiet_expectCloser _ _ _).then fun closed => ?_
  refine (builds_storeList items).bind fun c list hbc hlist => ?_
  have hparts : (Expr.list list).parts? c = some (beside items) := by simp [Expr.parts?, hlist]
  exact .node (parsed_beside hparts rfl fun id hid => (hitems id hid).mono hbc) _

theorem builds_branch : Builds loops a (ParsedBranch loops) (branch g) := by
  refine (hg .logical loops a).bind fun b condition _ hcondition => ?_
  refine (builds_block hg).bind fun c body hbc hbody => .pure fun d hcd => ?_
  exact ⟨hcondition.mono (hbc.trans hcd), hbody.mono hcd⟩

theorem builds_nextBranch {before : List Branch} (hbefore : ∀ b ∈ before, ParsedBranch loops a b) :
    Builds loops a
      (Round (fun b before => ∀ branch ∈ before, ParsedBranch loops b branch)
        fun b result => (∀ branch ∈ result.1, ParsedBranch loops b branch) ∧
          ParsedOption loops b result.2)
      (nextBranch g before) := by
  refine quiet_pastNewlines.then fun kind => ?_
  split
  · refine quiet_skipNewlines.then fun _ => quiet_advance.then fun _ => ?_
    refine (builds_branch hg).bind fun b branch hab hbranch => .pure fun c hbc => ?_
    intro other hother
    rcases List.mem_cons.mp hother with rfl | hother
    · exact hbranch.mono hbc
    · exact (hbefore other hother).mono (hab.trans hbc)
  · refine quiet_skipNewlines.then fun _ => quiet_advance.then fun _ => ?_
    refine (builds_block hg).bind fun b body hab hbody => .pure fun c hbc => ?_
    refine ⟨fun branch hbranch => ?_, parsedOption_some (hbody.mono hbc)⟩
    exact (hbefore branch (List.mem_reverse.mp hbranch)).mono (hab.trans hbc)
  · exact .pure fun b hab =>
      ⟨fun branch hbranch => (hbefore branch (List.mem_reverse.mp hbranch)).mono hab,
        parsedOption_none⟩

theorem builds_conditional : Builds loops a (Parsed loops) (conditional g) := by
  refine quiet_advance.then fun start => (builds_branch hg).bind fun b first _ hfirst => ?_
  refine (Builds.repeating (fun b before => ∀ branch ∈ before, ParsedBranch loops b branch)
    (fun branch hbranch => ?_) fun _ _ _ hbefore => builds_nextBranch hg hbefore).bind ?_
  · rw [List.mem_singleton.mp hbranch]
    exact hfirst
  rintro c ⟨all, otherwise⟩ _ ⟨hall, hother⟩
  refine (builds_storeBranches all).bind fun d run hcd hrun => (quiet_spanFrom _).then fun _ => ?_
  have hparts : (Expr.ifElse run otherwise).parts? d =
      some (beside (all.flatMap (fun b => [b.condition, b.body]) ++ otherwise.toList)) := by
    simp [Expr.parts?, hrun]
  refine .node (parsed_beside hparts rfl fun id hid => ?_) _
  rcases List.mem_append.mp hid with hid | hid
  · obtain ⟨branch, hbranch, hid⟩ := List.mem_flatMap.mp hid
    exact ((hall branch hbranch).mono hcd).of_mem hid
  · exact hother.mono hcd id (by simpa using hid)

theorem builds_nextArm {before : List CaseArm × Option NodeId}
    (hbefore : (∀ arm ∈ before.1, ParsedArm loops a arm) ∧ ParsedOption loops a before.2) :
    Builds loops a
      (Round
        (fun b before => (∀ arm ∈ before.1, ParsedArm loops b arm) ∧ ParsedOption loops b before.2)
        fun b result => (∀ arm ∈ result.1, ParsedArm loops b arm) ∧ ParsedOption loops b result.2)
      (nextArm g before) := by
  obtain ⟨arms, otherwise⟩ := before
  obtain ⟨harms, hother⟩ := hbefore
  refine quiet_skipNewlines.then fun _ => (quiet_eatKeyword .option).then fun _ => ?_
  split
  · refine (hg .factor loops a).bind fun b pattern hab hpattern => ?_
    refine (builds_block hg).bind fun c body hbc hbody => .pure fun d hcd => ?_
    refine ⟨fun arm harm => ?_, hother.mono (hab.trans (hbc.trans hcd))⟩
    rcases List.mem_cons.mp harm with rfl | harm
    · exact ⟨hpattern.mono (hbc.trans hcd), hbody.mono hcd⟩
    · exact (harms arm harm).mono (hab.trans (hbc.trans hcd))
  · refine (quiet_checkKeyword .default).then fun _ => ?_
    split
    · split
      · exact quiet_currentSpan.then fun _ => .fail _
      · refine quiet_advance.then fun _ => (builds_block hg).bind fun b body hab hbody => ?_
        exact .pure fun c hbc => ⟨fun arm harm => (harms arm harm).mono (hab.trans hbc),
          parsedOption_some (hbody.mono hbc)⟩
    · exact .pure fun b hab => ⟨fun arm harm => (harms arm (List.mem_reverse.mp harm)).mono hab,
        hother.mono hab⟩

theorem builds_caseOf : Builds loops a (Parsed loops) (caseOf g) := by
  refine quiet_advance.then fun start => (hg .logical loops a).bind fun b subject _ hsubject => ?_
  refine quiet_currentSpan.then fun opened => (quiet_eat _).then fun _ => ?_
  split
  · refine (Builds.repeating
      (fun b before => (∀ arm ∈ before.1, ParsedArm loops b arm) ∧ ParsedOption loops b before.2)
      ⟨fun _ h => (by cases h), parsedOption_none⟩
      fun _ _ _ hbefore => builds_nextArm hg hbefore).bind ?_
    rintro c ⟨arms, otherwise⟩ hbc ⟨harms, hother⟩
    refine (quiet_expectCloser _ _ _).then fun _ => ?_
    refine (builds_storeArms arms).bind fun d run hcd hrun => (quiet_spanFrom _).then fun _ => ?_
    have hparts : (Expr.caseOf subject run otherwise).parts? d = some
        (beside (subject :: arms.flatMap (fun a => [a.pattern, a.body]) ++ otherwise.toList)) := by
      simp [Expr.parts?, hrun]
    refine .node (parsed_beside hparts rfl fun id hid => ?_) _
    rcases List.mem_append.mp hid with hid | hid
    · rcases List.mem_cons.mp hid with rfl | hid
      · exact hsubject.mono (hbc.trans hcd)
      · obtain ⟨arm, harm, hid⟩ := List.mem_flatMap.mp hid
        exact ((harms arm harm).mono hcd).of_mem hid
    · exact hother.mono hcd id (by simpa using hid)
  · exact .failExpected _

/-! ## Loops and functions -/

theorem builds_loopBody (label : Option Name) :
    Builds loops a (Parsed (label :: loops)) (loopBody g label) :=
  .withLoops (builds_block hg)

theorem builds_loopBounds :
    Builds loops a
      (fun b bounds => ParsedOption loops b bounds.1 ∧ Parsed loops b bounds.2) (loopBounds g) := by
  refine (hg .sum loops a).bind fun b bound _ hbound => (quiet_eatKeyword .toWord).then fun _ => ?_
  split
  · refine (hg .sum loops b).bind fun c last hbc hlast => .pure fun d hcd => ?_
    exact ⟨parsedOption_some (hbound.mono (hbc.trans hcd)), hlast.mono hcd⟩
  · exact .pure fun c hbc => ⟨parsedOption_none, hbound.mono hbc⟩

theorem builds_loopStep : Builds loops a (ParsedOption loops) (loopStep g) := by
  refine (quiet_eatKeyword .step).then fun _ => ?_
  split
  · exact builds_some (hg .sum loops a)
  · exact builds_none

omit hg in
theorem quiet_loopCounter : Quiet loopCounter := by
  refine (quiet_eat _).bind fun _ => .ite ?_ (.pure _)
  exact (quiet_identifier _).bind fun _ => .pure _

theorem builds_iterate (label : Option Name) (start : Span) :
    Builds loops a (Parsed loops) (iterate g label start) := by
  refine quiet_advance.then fun _ => (builds_loopBounds hg).bind ?_
  rintro b ⟨first, last⟩ _ ⟨hfirst, hlast⟩
  refine (builds_loopStep hg).bind fun c step hbc hstep => quiet_loopCounter.then fun counter => ?_
  refine (builds_loopBody hg label).bind fun d body hcd hbody => (quiet_spanFrom _).then fun _ => ?_
  refine .node ⟨fun _ h => (by cases h), _, rfl, fun part hpart => ?_⟩ _
  have hbd := hbc.trans hcd
  rcases List.mem_append.mp hpart with hpart | hpart
  · obtain ⟨id, hid, rfl⟩ := List.mem_map.mp hpart
    rcases List.mem_append.mp hid with hid | hid
    · exact hfirst.mono hbd id (by simpa using hid)
    · rcases List.mem_cons.mp hid with rfl | hid
      · exact hlast.mono hbd
      · exact hstep.mono hcd id (by simpa using hid)
  · rw [List.mem_singleton.mp hpart]
    exact hbody

theorem builds_whileLoop (label : Option Name) (start : Span) :
    Builds loops a (Parsed loops) (whileLoop g label start) := by
  refine quiet_advance.then fun _ => (hg .logical loops a).bind fun b condition _ hcondition => ?_
  refine (builds_loopBody hg label).bind fun c body hbc hbody => (quiet_spanFrom _).then fun _ => ?_
  refine .node ⟨fun _ h => (by cases h), _, rfl, fun part hpart => ?_⟩ _
  rcases List.mem_append.mp hpart with hpart | hpart
  · obtain ⟨id, hid, rfl⟩ := List.mem_map.mp hpart
    rw [List.mem_singleton.mp hid]
    exact hcondition.mono hbc
  · rw [List.mem_singleton.mp hpart]
    exact hbody

theorem builds_labelledLoop : Builds loops a (Parsed loops) (labelledLoop g) := by
  refine quiet_advance.then fun start => (quiet_identifier _).then fun label => ?_
  refine quiet_current.then fun token => ?_
  split
  · exact builds_iterate hg _ _
  · exact builds_whileLoop hg _ _
  · exact quiet_describeCurrent.then fun _ => quiet_currentSpan.then fun _ => .fail _

theorem builds_parameterDefault (name : Name) :
    Builds loops a (ParsedOption loops) (parameterDefault g name) := by
  refine quiet_current.then fun token => ?_
  split
  · exact quiet_advance.then fun _ => builds_some (hg .ternary loops a)
  · exact quiet_advance.then fun sign => (quiet_textOf name).then fun _ =>
      (quiet_warn _ _ _).then fun _ => builds_some (hg .ternary loops a)
  · exact builds_none

theorem builds_parameter :
    Builds loops a (fun b param => ParsedOption loops b param.default) (parameter g) := by
  refine quiet_current.then fun token => ?_
  split
  · exact .failFound _
  · refine quiet_advance.then fun _ => (quiet_identifier _).then fun name => ?_
    refine (builds_parameterDefault hg name).bind fun b default _ hdefault => ?_
    exact (quiet_spanFrom _).then fun _ => .pure fun c hbc => hdefault.mono hbc

omit hg in
theorem quiet_functionName : Quiet functionName := by
  refine quiet_current.bind fun token => ?_
  split
  · exact quiet_advance.bind fun _ => .pure _
  · exact .pure _

/-- The body of a function is parsed outside of loops, its defaults inside those around it. -/
theorem builds_function : Builds loops a (Parsed loops) (function g) := by
  refine quiet_advance.then fun start => quiet_functionName.then fun name => ?_
  refine quiet_currentSpan.then fun opened => (quiet_eat _).then fun _ => ?_
  split
  · refine (builds_commaList (fun _ => builds_parameter hg)
      (fun _ _ _ hbc h => ParsedOption.mono hbc h) .paren).bind fun b params _ hparams => ?_
    refine (quiet_expectCloser _ _ _).then fun _ => ?_
    have hblock : Builds loops b (Parsed []) (withLoops (fun _ => []) (block g)) :=
      .withLoops (builds_block hg)
    refine hblock.bind fun c body hbc hbody => ?_
    refine (builds_storeParams params).bind fun d run hcd hrun => ?_
    refine (quiet_spanFrom _).then fun _ => ?_
    have hparts : (Expr.define name run body).parts? d = some
        ((.inFunction, body) :: (params.flatMap (·.default.toList)).map (.asDefault, ·)) := by
      simp [Expr.parts?, hrun]
    refine .node ⟨fun _ h => (by cases h), _, hparts, fun part hpart => ?_⟩ _
    rcases List.mem_cons.mp hpart with rfl | hpart
    · exact hbody.mono hcd
    · obtain ⟨id, hid, rfl⟩ := List.mem_map.mp hpart
      obtain ⟨param, hparam, hid⟩ := List.mem_flatMap.mp hid
      exact (hparams param hparam).mono (hbc.trans hcd) id (by simpa using hid)
  · exact .failExpected _

/-! ## Atoms -/

omit hg in
theorem builds_literal {expr : Expr} (hparts : ∀ b, expr.parts? b = some (beside []))
    (hsignal : expr.signal? = none) : Builds loops a (Parsed loops) (literal expr) :=
  quiet_advance.then fun _ =>
    .node (parsed_beside (hparts a) hsignal fun _ h => (by cases h)) _

theorem builds_atom : Builds loops a (Parsed loops) (atom g) := by
  refine quiet_current.then fun token => ?_
  split
  · exact builds_literal (fun _ => rfl) rfl
  · exact builds_literal (fun _ => rfl) rfl
  · exact builds_literal (fun _ => rfl) rfl
  · exact builds_literal (fun _ => rfl) rfl
  · exact builds_group hg
  · exact builds_listLiteral hg
  · exact builds_labelledLoop hg
  · exact builds_conditional hg
  · exact builds_caseOf hg
  · exact builds_iterate hg _ _
  · exact builds_whileLoop hg _ _
  · exact builds_function hg
  · exact .failFound _

end ExprScript.Parser
