import ExprScript.Proofs.Parser.Rules
import ExprScript.Proofs.Parser.Sequences

/-!
# Round trip

The tokens of an expression, parsed as a program, give one statement that is the expression again.
-/
namespace ExprScript

namespace Parser

variable {c : ParseContext} {s : ParseState} {rest : List Token} {n level : Nat}
  {kinds : List TokenKind} {tree : SyntaxTree}

theorem readsAt_member {target : SyntaxTree} (name : Name) (h : ReadsAt 7 kinds target) :
    ReadsAt 7 (kinds ++ [.mark .dot, .ident name]) (.member target name) := by
  have hchain : IsChain 7 := by simp [IsChain]
  have hdot : (TokenKind.mark .dot).Stops 8 := fun other h => by cases h; decide
  refine .of_reaches (h.begins.append (Nat.le_refl 7) (by simp)) hchain ?_
  refine (h.reaches hchain).more hdot fun n c s rest id hfacing hid => ?_
  obtain ⟨dot, more, hahead, hkind, hmore⟩ := hfacing.tail
  refine .current hahead ?_
  rw [hkind]
  refine Succeeds.wrapped Sum.inl (.advance hahead (by rw [hkind]; rfl) fun t ht hst => ?_)
  obtain ⟨token, after, hname, hkind, hafter⟩ := (hmore t ht).tail
  have hident : Succeeds (identifier .expectedAttribute) c t after fun _ found => found = name := by
    refine .current hname ?_
    rw [hkind]
    exact .advance hname (by rw [hkind]; rfl) fun u hu _ => .pure rfl hu
  refine hident.bind fun found u hu htu hfound => .spanOf _ fun _ => .spanFrom _ fun span => ?_
  obtain rfl : after = rest := (hafter u hu).spelled.symm.trans hu |>.symm
  exact succeeds_denotes hfound rfl (.cons (hid.mono (hst.trans htu)) .nil) hu

theorem valueTypeOf_keyword (type : ValueType) :
    valueTypeOf (.keyword type.keyword) = some type := by
  cases type <;> rfl

theorem readsAt_cast {operand : SyntaxTree} (type : ValueType) (h : ReadsAt 7 kinds operand) :
    ReadsAt 7 (kinds ++ [.keyword .asWord, .keyword type.keyword]) (.cast operand type) := by
  have hchain : IsChain 7 := by simp [IsChain]
  have has : (TokenKind.keyword .asWord).Stops 8 := fun other h => by cases h; decide
  refine .of_reaches (h.begins.append (Nat.le_refl 7) (by simp)) hchain ?_
  refine (h.reaches hchain).more has fun n c s rest id hfacing hid => ?_
  obtain ⟨word, more, hahead, hkind, hmore⟩ := hfacing.tail
  refine .current hahead ?_
  rw [hkind]
  refine Succeeds.wrapped Sum.inl (.advance hahead (by rw [hkind]; rfl) fun t ht hst => ?_)
  obtain ⟨token, after, htype, hkind, hafter⟩ := (hmore t ht).tail
  refine .current htype ?_
  rw [hkind, valueTypeOf_keyword]
  refine .advance htype (by rw [hkind]; rfl) fun u hu htu => ?_
  refine .spanOf _ fun _ => .spanFrom _ fun span => ?_
  obtain rfl : after = rest := (hafter u hu).spelled.symm.trans hu |>.symm
  exact succeeds_denotes rfl rfl (.cons (hid.mono (hst.trans htu)) .nil) hu

/-! ## All trees -/

/-- What reads back without parentheses also does in a place that may ask for them. -/
theorem ReadsAt.place (h : ReadsAt tree.level tree.tokens tree) {place : Nat} (hplace : place ≤ 7) :
    ReadsAt place (tree.tokensAt place) tree := by
  unfold SyntaxTree.tokensAt fenced
  split
  · rename_i hle
    exact h.looser hle tree.level_le
  · exact (h.looser (Nat.zero_le _) tree.level_le).group.looser hplace (Nat.le_refl 7)

/-- An expression is read back at its own level. -/
theorem readsAt_level (h : tree.Fits) : ReadsAt tree.level tree.tokens tree := by
  induction tree using SyntaxTree.induct with
  | h tree ih =>
    obtain ⟨hentries, hfits⟩ := h
    have hplaced : ∀ child ∈ tree.children, ∀ place, place ≤ 7 →
        ReadsAt place (child.tokensAt place) child :=
      fun child hchild place hplace => (ih child hchild (hfits child hchild)).place hplace
    have hall : ∀ child ∈ tree.children, ReadsAt 0 child.tokens child :=
      fun child hchild => hplaced child hchild 0 (Nat.zero_le 7)
    cases tree with
    | int value => exact readsAt_int value
    | str text => exact readsAt_str text
    | ident name => exact readsAt_ident name
    | list items => exact readsAt_list hentries hall
    | unary op operand =>
      exact readsAt_unary op (hplaced operand (by simp [SyntaxTree.children]) 5 (by decide))
    | binary op left right =>
      exact readsAt_binary op (hplaced left (by simp [SyntaxTree.children]))
        (hplaced right (by simp [SyntaxTree.children]))
    | ternary condition positive negative =>
      exact readsAt_ternary (hplaced condition (by simp [SyntaxTree.children]) 1 (by decide))
        (hall positive (by simp [SyntaxTree.children]))
        (hall negative (by simp [SyntaxTree.children]))
    | call callee args =>
      rw [SyntaxTree.tokens, SyntaxTree.tokensOfArgs_eq]
      refine readsAt_call hentries (hplaced callee (by simp [SyntaxTree.children]) 7 (by decide)) ?_
      intro arg harg
      exact hall arg.value (List.mem_cons_of_mem _ (List.mem_map_of_mem harg))
    | index target spec specs =>
      rw [SyntaxTree.tokens, SyntaxTree.tokensOfSpecs_eq]
      have htarget := hplaced target (by simp [SyntaxTree.children]) 7 (by decide)
      refine readsAt_index hentries htarget ?_
      intro entry hentry child hchild
      exact hall child (List.mem_cons_of_mem _ (List.mem_flatMap.mpr ⟨entry, hentry, hchild⟩))
    | member target name =>
      exact readsAt_member name (hplaced target (by simp [SyntaxTree.children]) 7 (by decide))
    | cast operand type =>
      exact readsAt_cast type (hplaced operand (by simp [SyntaxTree.children]) 7 (by decide))

/-! ## Programs of one statement -/

theorem Succeeds.orStop {α : Type} {p : Parser α} {G : Arena → α → Prop}
    (h : Succeeds p c s rest G) :
    Succeeds (Parser.orStop p) c s rest fun b r => ∃ v, r = .ok v ∧ G b v := by
  obtain ⟨taken, v, t, hrun, hrest, hst, hv⟩ := h
  exact ⟨taken, .ok v, t, orStop_of_done hrun, hrest, hst, v, rfl, hv⟩

/-- What begins as an expression is no other statement. -/
theorem statement_of_begins {g : Grammar} (h : s.kind.Begins level) :
    statement g c s = g .expr c s := by
  unfold ParseState.kind at h
  rw [statement, bind_of_done current_eq, ParseReply.after_false]
  generalize (s.ahead.headD eofToken).kind = kind at h
  split <;> first | exact h.elim | rfl

/-- An expression in front of the end of the input is the only statement. -/
theorem ReadsAt.programBody (h : ReadsAt 0 kinds tree) {last : Token}
    (hlast : last.kind = .mark .eof) (hfacing : Facing n c s kinds [last] 0) :
    Succeeds (programBody (grammar (n + 1))) c s [last]
      fun b body => ∃ id, body = ([id], none) ∧ b.Denotes id tree := by
  have hbegins := hfacing.begins h.begins
  have hstatement : Succeeds (statement (grammar (n + 1))) c s [last]
      fun b id => b.Denotes id tree := by
    obtain ⟨taken, id, t, hrun, hrest⟩ := h.expr hfacing
    exact ⟨taken, id, t, (statement_of_begins hbegins).trans hrun, hrest⟩
  have hround : Succeeds (nextStatement (grammar (n + 1)) []) c s [last]
      fun b r => ∃ before, r = .inl before ∧ ∃ id, before = [id] ∧ b.Denotes id tree := by
    refine .skipNewlines (hbegins.isMark fun h => h) (.check _ (.check _ ?_))
    have hend : s.kind.isMark .eof = false := hbegins.isMark fun h => h
    have hclosed : s.kind.isMark (.closing .brace) = false := hbegins.isMark fun h => h
    rw [hend, hclosed]
    refine hstatement.orStop.bind fun reply t ht _ hreply => ?_
    obtain ⟨id, rfl, hid⟩ := hreply
    refine .current ht ?_
    rw [hlast]
    exact .pure ⟨_, rfl, id, rfl, hid⟩ ht
  have hstatements : Succeeds (statements (grammar (n + 1))) c s [last]
      fun b body => ∃ id, body = ⟨[id], none⟩ ∧ b.Denotes id tree := by
    have hrounds : 1 ≤ c.rounds := by
      have hlength := hfacing.spelled.length
      have hrounds := hfacing.rounds
      rw [List.length_singleton] at hlength
      omega
    obtain ⟨rounds, hrounds⟩ := Nat.exists_eq_succ_of_ne_zero (Nat.ne_of_gt hrounds)
    refine .repeating ?_
    rw [hrounds]
    refine .again (I := fun b before => ∃ id, before = [id] ∧ b.Denotes id tree) hround ?_
    intro before t after ht _ hbefore
    obtain ⟨id, rfl, hid⟩ := hbefore
    have hkind : t.kind = .mark .eof := by rw [ParseState.kind_of_ahead ht, hlast]
    refine .stop (.skipNewlines (by rw [hkind]; rfl) (.check _ (.check _ ?_)))
    rw [hkind]
    exact .pure ⟨_, rfl, id, rfl, hid⟩ ht
  refine hstatements.bind fun body t ht _ hbody => ?_
  obtain ⟨id, rfl, hid⟩ := hbody
  have hkind : t.kind = .mark .eof := by rw [ParseState.kind_of_ahead ht, hlast]
  refine .check _ ?_
  rw [hkind]
  exact .pure ⟨id, rfl, hid⟩ ht

/-- A root over few statements is stored. -/
theorem succeeds_rootBlock (c : ParseContext) (s : ParseState) (start : Span) {nodes : List NodeId}
    (hlength : nodes.length ≤ maxRunLength) :
    Succeeds (rootBlock start nodes) c s s.ahead fun b root =>
      ∃ run span, b.node? root = some ⟨.block run, span⟩ ∧ run.entries? b.lists = some nodes := by
  refine .store hlength (fun _ => ⟨by constructor <;> simp, rfl⟩) fun run t ht _ hrun => ?_
  refine .spanFrom _ fun span => ?_
  rw [← ht]
  obtain ⟨taken, id, u, hnode, hrest, htu, hid⟩ := succeeds_node (.block run) span (c := c) (s := t)
  exact ⟨taken, id, u, hnode, hrest, htu, run, span, hid, Run.entries?_mono hrun htu.lists⟩

end Parser

/-- What the tokens of an expression are parsed to, and that nothing is warned of. -/
theorem parse_quiet {tree : SyntaxTree} (hfits : tree.Fits) {tokens : List Token}
    (names : Interner) (htokens : tokens.map (·.kind) = tree.tokens ++ [.mark .eof]) :
    ∃ result run span id, parse tokens names = .ok result ∧
      (result.error = none ∧ result.warnings = []) ∧
      result.arena.node? result.root = some ⟨.block run, span⟩ ∧
      run.entries? result.arena.lists = some [id] ∧ result.arena.Denotes id tree := by
  obtain ⟨first, ending, rfl, hfirst, hending⟩ := List.map_eq_append_iff.mp htokens
  obtain ⟨last, rfl, hlast⟩ : ∃ last, ending = [last] ∧ last.kind = .mark .eof := by
    simpa using hending
  generalize htokens : first ++ [last] = tokens
  have hlength : tree.tokens.length < tokens.length := by
    simp [← htokens, ← hfirst]
  -- there are more levels of nesting than tokens
  have hlevels := le_levelsFor (tokens.length + 1)
  obtain ⟨levels, hgrammar⟩ :=
    Nat.exists_eq_add_one_of_ne_zero (Nat.ne_of_gt (Nat.lt_of_lt_of_le (Nat.succ_pos _) hlevels))
  have hfacing : Parser.Facing levels ⟨names, [], tokens.length⟩ ⟨tokens, none, Arena.empty, #[]⟩
      tree.tokens [last] 0 := by
    refine ⟨htokens ▸ spelled_of_map hfirst, by omega, Nat.le_refl _, ?_⟩
    intro other hother
    rw [firstKind, List.headD_cons, hlast] at hother
    cases hother
  have hread := (Parser.readsAt_level hfits).looser (Nat.zero_le _) tree.level_le
  obtain ⟨_, body, t, hrun, ⟨-, hquiet⟩, -, id, rfl, hid⟩ := hread.programBody hlast hfacing
  have hone : [id].length ≤ maxRunLength := Nat.succ_le_of_lt (by decide)
  obtain ⟨_, root, u, hroot, ⟨-, hsilent⟩, htu, run, span, hnode, hentries⟩ :=
    Parser.succeeds_rootBlock ⟨names, [], tokens.length⟩ t (tokens.headD Parser.eofToken).span hone
  refine ⟨⟨u.arena, root, none, u.warnings.toList⟩, run, span, id, ?_, ⟨rfl, ?_⟩, hnode, hentries,
    hid.mono htu⟩
  · rw [parse_eq, measuredParse]
    rw [hgrammar, hrun]
    dsimp only
    rw [finishParse, hroot]
  · rw [hsilent, hquiet]

/-- Whatever the tokens of an expression look like in a text, and whatever names the program has,
parsing them gives a program of one statement that is the expression. -/
theorem parse_tokens (tree : SyntaxTree) (hfits : tree.Fits) (tokens : List Token)
    (names : Interner) (htokens : tokens.map (·.kind) = tree.tokens ++ [.mark .eof]) :
    ∃ result run span id, parse tokens names = .ok result ∧ result.error = none ∧
      result.arena.node? result.root = some ⟨.block run, span⟩ ∧
      run.entries? result.arena.lists = some [id] ∧ result.arena.Denotes id tree := by
  obtain ⟨result, run, span, id, hparse, ⟨herror, -⟩, hroot⟩ := parse_quiet hfits names htokens
  exact ⟨result, run, span, id, hparse, herror, hroot⟩

/-- `(1 + 2) * -a ? f(b :: [3]) : a[0, 1 to 2].c as str` -/
theorem parse_conditional_of_product :
    ∃ result run span id,
      parse ([.mark (.opening .paren), .int 1, .mark (.arith .add), .int 2, .mark (.closing .paren),
        .mark (.arith .mul), .mark (.arith .sub), .ident ⟨0⟩, .mark .question, .ident ⟨1⟩,
        .mark (.opening .paren), .ident ⟨2⟩, .mark (.assign none false), .mark (.opening .square),
        .int 3, .mark (.closing .square), .mark (.closing .paren), .mark .colon, .ident ⟨0⟩,
        .mark (.opening .square), .int 0, .mark .comma, .int 1, .keyword .toWord, .int 2,
        .mark (.closing .square), .mark .dot, .ident ⟨3⟩, .keyword .asWord, .keyword .str,
        .mark .eof].map fun kind => ⟨kind, {}⟩) {} = .ok result ∧ result.error = none ∧
      result.arena.node? result.root = some ⟨.block run, span⟩ ∧
      run.entries? result.arena.lists = some [id] ∧
      result.arena.Denotes id (.ternary
        (.binary (.arith .mul) (.binary (.arith .add) (.int 1) (.int 2)) (.unary .neg (.ident ⟨0⟩)))
        (.call (.ident ⟨1⟩) [.mk (some ⟨2⟩) (.list [.int 3])])
        (.cast (.member (.index (.ident ⟨0⟩) (.single (.int 0)) [.range (.int 1) (.int 2)]) ⟨3⟩)
          .str)) := by
  refine parse_tokens _ ?_ _ _ rfl
  repeat'
    first
    | exact fun _ h => absurd h List.not_mem_nil
    | refine List.forall_mem_cons.mpr ⟨?_, ?_⟩
    | refine ⟨Nat.le_of_lt_succ (by decide), ?_⟩

end ExprScript
