import ExprScript.Proofs.Parser.Reading
import ExprScript.Proofs.Parser.Trees

/-!
# Trees are read back

The tokens of a tree are read as that tree. Each construct is read by the parser of its level, given
that the trees right below it are read at every level.
-/
namespace ExprScript

theorem Arena.Denotes.of_forall₂ {arena : Arena} {id : NodeId} {node : Node} {ids : List NodeId}
    {tree : SyntaxTree} (hnode : arena.node? id = some node)
    (hmatches : node.expr.Matches arena tree) (hids : node.expr.children? arena = some ids)
    (hall : List.Forall₂ arena.Denotes ids tree.children) : arena.Denotes id tree := by
  obtain ⟨hlength, hzip⟩ := List.forall₂_iff_zip.mp hall
  exact .intro hnode hmatches hids hlength fun pair hpair => hzip hpair

theorem TokenKind.Begins.ne_assign {kind : TokenKind} {level : Nat} (h : kind.Begins level)
    (op : AssignOp)
    (yields : Bool) : kind ≠ .mark (.assign op yields) := by
  rintro rfl
  exact h

theorem beginsAt_single {level : Nat} {kind : TokenKind} (hkind : kind.Begins level) :
    BeginsAt level [kind] :=
  ⟨⟨kind, [], rfl, hkind⟩, fun _ _ _ _ h => by simp at h⟩

/-- Two tokens of which the second may begin an expression or close a bracket. -/
theorem beginsAt_pair {level : Nat} {kind next : TokenKind} {more : List TokenKind}
    (hkind : kind.Begins level)
    (hnext : ∀ op yields, next ≠ .mark (.assign op yields)) :
    BeginsAt level (kind :: next :: more) :=
  ⟨⟨kind, _, rfl, hkind⟩, fun _ op yields _ h => by
    injection h with _ h
    injection h with h _
    exact hnext op yields h⟩

theorem BeginsAt.append {level place : Nat} {kinds : List TokenKind} {kind : TokenKind}
    {more : List TokenKind}
    (h : BeginsAt place kinds) (hle : level ≤ place)
    (hkind : ∀ op yields, kind ≠ .mark (.assign op yields)) :
    BeginsAt level (kinds ++ kind :: more) := by
  obtain ⟨⟨first, last, rfl, hfirst⟩, -⟩ := h.mono hle
  cases last with
  | nil => exact beginsAt_pair hfirst hkind
  | cons next last =>
    refine beginsAt_pair hfirst fun op yields hnext => ?_
    exact h.second _ _ _ _ (by rw [hnext])

namespace Parser

variable {c : ParseContext} {s : ParseState} {rest : List Token} {n level : Nat}
  {kinds : List TokenKind} {tree : SyntaxTree}

/-- A node of the same construct as a tree, over nodes for the trees below, stands for it. -/
theorem succeeds_denotes {expr : Expr} {span : Span} {ids : List NodeId}
    (hmatches : expr.Matches s.arena tree) (hids : expr.children? s.arena = some ids)
    (hall : List.Forall₂ s.arena.Denotes ids tree.children) (hrest : s.ahead = rest) :
    Succeeds (node expr span) c s rest fun b id => b.Denotes id tree := by
  have hgrows := s.arena.le_push ⟨expr, span⟩
  refine ⟨false, _, _, rfl, ⟨hrest, rfl⟩, hgrows, ?_⟩
  exact .of_forall₂ (s.arena.node?_push _) (hmatches.mono hgrows) (Expr.children?_mono hgrows hids)
    (hall.imp fun _ _ h => h.mono hgrows)

theorem succeeds_expectCloser {β : Type} {bracket : Bracket} {opened : Span}
    {stopped : Option Diagnostic} {f : Span → Parser β} {H : Arena → β → Prop} {token : Token}
    {more : List Token} (h : s.ahead = token :: more)
    (hkind : token.kind = .mark (.closing bracket))
    (hf : ∀ span t, t.ahead = more → s.arena ≤ t.arena → Succeeds (f span) c t rest H) :
    Succeeds (expectCloser bracket opened stopped >>= f) c s rest H := by
  have hstate : s.kind = .mark (.closing bracket) := by rw [ParseState.kind_of_ahead h, hkind]
  have hcloser : Succeeds (expectCloser bracket opened stopped) c s more fun _ _ => True := by
    refine .skipNewlines (by rw [hstate]; rfl) (.check _ ?_)
    rw [hstate, if_pos (by simp [TokenKind.isMark, TokenKind.mark?])]
    exact .advance h (by rw [hkind]; rfl) fun t ht hst => .pure trivial ht
  exact hcloser.bind fun span t ht hst _ => hf span t ht hst

/-! ## Places -/

/-- Behind the first token of an expression is no assignment. -/
theorem Facing.second {place : Nat} (h : Facing n c s kinds rest 0) (hbegins : BeginsAt place kinds)
    (op : AssignOp) (yields : Bool) : firstKind s.ahead.tail ≠ .mark (.assign op yields) := by
  obtain ⟨kind, more, rfl, -⟩ := hbegins.first
  obtain ⟨token, ahead, hahead, -, hmore⟩ := h.spelled
  rw [hahead, List.tail_cons]
  cases more with
  | nil =>
    obtain rfl : ahead = rest := hmore
    intro hassign
    exact absurd (h.stops 0 (by rw [hassign]; rfl)) (Nat.lt_irrefl 0)
  | cons next more =>
    rw [hmore.firstKind]
    rintro rfl
    exact hbegins.second _ _ _ _ rfl

theorem ReadsAt.ternary (h : ReadsAt 0 kinds tree) (hfacing : Facing n c s kinds rest 0) :
    Succeeds (grammar (n + 1) .ternary) c s rest fun b id => b.Denotes id tree := by
  rw [grammar_succ]
  exact h.reads n c s rest hfacing

theorem ReadsAt.factor (h : ReadsAt 5 kinds tree) (hfacing : Facing n c s kinds rest 5) :
    Succeeds (grammar (n + 1) .factor) c s rest fun b id => b.Denotes id tree := by
  rw [grammar_succ]
  exact h.reads n c s rest hfacing

/-- What reads as an operator expression is no declaration or assignment. -/
theorem ReadsAt.expr (h : ReadsAt 0 kinds tree) (hfacing : Facing n c s kinds rest 0) :
    Succeeds (grammar (n + 1) .expr) c s rest fun b id => b.Denotes id tree := by
  have hkind := hfacing.begins h.begins
  have hsecond := hfacing.second h.begins
  rw [grammar_succ]
  refine .look current_eq (.look peek_eq ?_)
  unfold ParseState.kind at hkind
  generalize (s.ahead.headD eofToken).kind = kind at hkind
  generalize firstKind s.ahead.tail = second at hsecond
  split
  · exact hkind.elim
  · exact absurd rfl (hsecond _ _)
  · exact h.reads n c s rest hfacing

/-! ## Literals and groups -/

theorem readsAt_literal {kind : TokenKind} (expr : Expr)
    (hatom : ∀ g c s token more, s.ahead = token :: more → token.kind = kind →
      atom g c s = literal expr c s)
    (hkind : kind.Begins 7) (htakable : kind.Takable) (hmatches : ∀ a, expr.Matches a tree)
    (hids : ∀ a, expr.children? a = some []) (hchildren : tree.children = []) :
    ReadsAt 7 [kind] tree := by
  refine .of_operand (beginsAt_single hkind) (by simp [IsChain]) fun n c s rest hfacing => ?_
  obtain ⟨token, more, hahead, htoken, rfl⟩ := hfacing.spelled
  have hliteral : Succeeds (literal expr) c s more fun b id => b.Denotes id tree := by
    refine .advance hahead (htoken ▸ htakable) fun t ht _ => ?_
    exact succeeds_denotes (hmatches _) (hids _) (hchildren ▸ .nil) ht
  obtain ⟨taken, id, t, hrun, hrest⟩ := hliteral
  exact ⟨taken, id, t, (hatom _ c s token more hahead htoken).trans hrun, hrest⟩

theorem readsAt_int (value : Int64) : ReadsAt 7 [.int value] (.int value) := by
  refine readsAt_literal (.int value) (fun g c s token more hahead hkind => ?_) trivial rfl
    (fun _ => rfl) (fun _ => rfl) rfl
  rw [atom, bind_of_done (current_of_ahead hahead), ParseReply.after_false, hkind]

theorem readsAt_str (text : Name) : ReadsAt 7 [.str text] (.str text) := by
  refine readsAt_literal (.str text) (fun g c s token more hahead hkind => ?_) trivial rfl
    (fun _ => rfl) (fun _ => rfl) rfl
  rw [atom, bind_of_done (current_of_ahead hahead), ParseReply.after_false, hkind]

theorem readsAt_ident (name : Name) : ReadsAt 7 [.ident name] (.ident name) := by
  refine readsAt_literal (.ident name) (fun g c s token more hahead hkind => ?_) trivial rfl
    (fun _ => rfl) (fun _ => rfl) rfl
  rw [atom, bind_of_done (current_of_ahead hahead), ParseReply.after_false, hkind]

theorem Facing.inside {bracket : Bracket} (h : Facing n c s (bracket.around kinds) rest level) :
    ∃ m opened closed more, n = m + 1 ∧ s.ahead = opened :: more ∧
      opened.kind = .mark (.opening bracket) ∧ closed.kind = .mark (.closing bracket) ∧
      ∀ t, t.ahead = more → Facing m c t kinds (closed :: rest) 0 := by
  obtain ⟨m, opened, more, rfl, hahead, hopened, hmore⟩ := h.head
  have hcloser : (TokenKind.mark (.closing bracket)).Stops 0 := fun _ h => by cases h
  obtain ⟨mid, hinside, hlast⟩ := (hmore { s with ahead := more } rfl).split hcloser
  obtain ⟨closed, after, rfl, hclosed, rfl⟩ := (hlast { s with ahead := mid } rfl).spelled
  refine ⟨m, opened, closed, more, rfl, hahead, hopened, hclosed, fun t ht => ?_⟩
  exact ⟨ht ▸ hinside.spelled, hinside.nesting, ht ▸ hinside.rounds, hinside.stops⟩

theorem ReadsAt.group (h : ReadsAt 0 kinds tree) :
    ReadsAt 7 (Bracket.paren.around kinds) tree := by
  obtain ⟨kind, more, rfl, hkind⟩ := h.begins.first
  refine .of_operand (beginsAt_pair trivial hkind.ne_assign) (by simp [IsChain]) ?_
  intro n c s rest hfacing
  obtain ⟨m, opened, closed, more, rfl, hahead, hopened, hclosed, hinside⟩ := hfacing.inside
  refine .current hahead ?_
  rw [hopened]
  refine .advance hahead (by rw [hopened]; rfl) fun t ht hst => ?_
  have hkind := (hinside t ht).begins h.begins
  refine .skipNewlines (hkind.isMark (fun h => h)) ?_
  refine (h.expr (hinside t ht)).bind fun id u hu htu hid => ?_
  exact succeeds_expectCloser hu hclosed fun _ v hv huv => .pure (hid.mono huv) hv

/-! ## Operators before and between operands -/

theorem signOp?_kind (op : UnaryOp) : signOp? op.kind = some op := by
  cases op <;> rfl

theorem readsAt_unary (op : UnaryOp) {operand : SyntaxTree} (h : ReadsAt 5 kinds operand) :
    ReadsAt 5 (op.kind :: kinds) (.unary op operand) := by
  obtain ⟨kind, more, hkinds, hkind⟩ := h.begins.first
  refine ⟨?_, fun n c s rest hfacing => ?_, fun hchain => by simp [IsChain] at hchain⟩
  · rw [hkinds]
    exact beginsAt_pair (by cases op <;> exact Nat.le_refl 5) hkind.ne_assign
  obtain ⟨m, token, more, rfl, hahead, htoken, hmore⟩ := hfacing.head
  refine .current hahead ?_
  rw [htoken, signOp?_kind]
  refine .advance hahead (by rw [htoken]; cases op <;> rfl) fun t ht hst => ?_
  refine (h.factor (hmore t ht)).bind fun id u hu _ hid => ?_
  refine .spanFrom _ fun span => ?_
  exact succeeds_denotes rfl rfl (.cons hid .nil) hu

theorem succeeds_binary {op : BinaryOp} {left right : NodeId} {first last : SyntaxTree}
    (hleft : s.arena.Denotes left first) (hright : s.arena.Denotes right last)
    (hrest : s.ahead = rest) :
    Succeeds (binary op left right) c s rest fun b id => b.Denotes id (.binary op first last) := by
  refine .spanOf _ fun _ => .spanOf _ fun _ => ?_
  exact succeeds_denotes rfl rfl (.cons hleft (.cons hright .nil)) hrest

/-- No operator between operands is on the level of signs. -/
theorem stops_five {kind : TokenKind} (h : kind.Stops 6) : kind.Stops 5 := by
  intro other hother
  have hlt := h other hother
  have hne : other ≠ 5 := by
    rintro rfl
    unfold TokenKind.level? at hother
    split at hother <;> cases hother
  omega

theorem stops_kind {op : BinaryOp} {place : Nat} (h : op.level < place) : op.kind.Stops place := by
  intro other hother
  have heq : op.level = other := by
    cases op with
    | arith op => cases op <;> exact Option.some.inj hother
    | _ => exact Option.some.inj hother
  omega

/-- A base, which may not be a power itself, and an exponent, which may. -/
theorem readsAt_power {first last : List TokenKind} {left right : SyntaxTree}
    (hleft : ReadsAt 7 first left) (hright : ReadsAt 5 last right) :
    ReadsAt 6 (first ++ BinaryOp.kind (.arith .pow) :: last)
      (.binary (.arith .pow) left right) := by
  refine ⟨hleft.begins.append (by decide) (by simp [BinaryOp.kind]), fun n c s rest hfacing => ?_,
    fun hchain => by simp [IsChain] at hchain⟩
  obtain ⟨mid, hfirst, hlast⟩ := hfacing.split (stops_kind (by decide : _ < 7))
  refine (hleft.reads n c s mid hfirst).bind fun base t ht _ hbase => ?_
  obtain ⟨m, token, more, rfl, hahead, htoken, hmore⟩ := (hlast t ht).head
  refine .eat hahead htoken (by decide) fun u hu htu => ?_
  have hexponent : Facing m c u last rest 5 :=
    { hmore u hu with stops := stops_five hfacing.stops }
  refine (hright.factor hexponent).bind fun exponent v hv huv hexponent => ?_
  exact succeeds_binary (hbase.mono (htu.trans huv)) hexponent hv

theorem round_nextOperand {operand : Grammar → Parser NodeId}
    {operator? : TokenKind → Option BinaryOp} {op : BinaryOp} {left right : SyntaxTree}
    (hoperator : operator? op.kind = some op) (htakable : op.kind.Takable)
    (hright : Reads operand (level + 1) kinds right) {id : NodeId}
    (hfacing : Facing n c s (op.kind :: kinds) rest (level + 1)) (hid : s.arena.Denotes id left) :
    Succeeds (nextOperand (operand (grammar n)) operator? id) c s rest
      fun b r => ∃ next, r = .inl next ∧ b.Denotes next (.binary op left right) := by
  obtain ⟨m, token, more, rfl, hahead, htoken, hmore⟩ := hfacing.head
  refine .current hahead ?_
  rw [htoken, hoperator]
  refine .advance hahead (htoken ▸ htakable) fun t ht hst => ?_
  have hdeeper : Facing (m + 1) c t kinds rest (level + 1) := (hmore t ht).deeper
  refine (hright _ c t rest hdeeper).bind fun other u hu htu hother => ?_
  exact (succeeds_binary (hid.mono (hst.trans htu)) hother hu).wrapped Sum.inl

theorem operatorOf_kind {op : BinaryOp} (h : op.level ≤ 4) :
    operatorOf op.level op.kind = some op := by
  cases op with
  | arith op =>
    cases op with
    | pow => exact absurd h (by decide)
    | _ => rfl
  | _ => rfl

theorem isChain_of_level {op : BinaryOp} (h : op.level ≤ 4) : IsChain op.level ∧ 0 < op.level := by
  cases op with
  | arith op =>
    cases op with
    | pow => exact absurd h (by decide)
    | _ => simp [IsChain, BinaryOp.level]
  | _ => simp [IsChain, BinaryOp.level]

theorem takable_kind (op : BinaryOp) : op.kind.Takable := by
  cases op with
  | arith op => cases op <;> rfl
  | _ => rfl

theorem readsAt_chain {op : BinaryOp} {first last : List TokenKind} {left right : SyntaxTree}
    (hlevel : op.level ≤ 4) (hleft : ReadsAt op.level first left)
    (hright : ReadsAt (op.level + 1) last right) :
    ReadsAt op.level (first ++ op.kind :: last) (.binary op left right) := by
  obtain ⟨hchain, hpos⟩ := isChain_of_level hlevel
  have hassign : ∀ other yields, op.kind ≠ .mark (.assign other yields) := by
    intro other yields
    cases op <;> simp [BinaryOp.kind]
  have hstep : stepParser op.level = fun g =>
      nextOperand (operandParser op.level g) (operatorOf op.level) := by
    generalize op.level = level at hlevel
    match level with
    | 0 | 1 | 2 | 3 | 4 => rfl
  refine .of_reaches (hleft.begins.append (Nat.le_refl _) hassign) hchain ?_
  refine (hleft.reaches hchain).more (stops_kind (Nat.lt_succ_self _)) ?_
  intro n c s rest id hfacing hid
  rw [hstep]
  have hnext := hright.readsOperand hpos hlevel
  exact round_nextOperand (operatorOf_kind hlevel) (takable_kind op) hnext
    hfacing hid

theorem level_of_ne_pow {op : BinaryOp} (h : op ≠ .arith .pow) : op.level ≤ 4 := by
  cases op with
  | arith op =>
    cases op with
    | pow => exact absurd rfl h
    | _ => simp [BinaryOp.level]
  | _ => simp [BinaryOp.level]

theorem readsAt_binary (op : BinaryOp) {left right : SyntaxTree}
    (hleft : ∀ place, place ≤ 7 → ReadsAt place (left.tokensAt place) left)
    (hright : ∀ place, place ≤ 7 → ReadsAt place (right.tokensAt place) right) :
    ReadsAt op.level (SyntaxTree.binary op left right).tokens (.binary op left right) := by
  by_cases hpow : op = .arith .pow
  · subst hpow
    exact readsAt_power (hleft 7 (by decide)) (hright 5 (by decide))
  · have hlevel : op.level ≤ 4 := level_of_ne_pow hpow
    have htokens : (SyntaxTree.binary op left right).tokens =
        left.tokensAt op.level ++ op.kind :: right.tokensAt (op.level + 1) := by
      simp only [SyntaxTree.tokens, SyntaxTree.tokensAt, BinaryOp.leftLevel, BinaryOp.rightLevel,
        if_neg hpow]
    rw [htokens]
    exact readsAt_chain hlevel (hleft _ (by omega)) (hright _ (by omega))

theorem atBoundary_of_begins {level : Nat} (h : s.kind.Begins level) :
    atBoundary c s = .done false false s := by
  unfold ParseState.kind at h
  rw [Parser.atBoundary, bind_of_done current_eq]
  generalize (s.ahead.headD eofToken).kind = kind at h
  split <;> first | exact h.elim | rfl

theorem readsAt_ternary {first second last : List TokenKind}
    {condition positive negative : SyntaxTree}
    (hcondition : ReadsAt 1 first condition) (hpositive : ReadsAt 0 second positive)
    (hnegative : ReadsAt 0 last negative) :
    ReadsAt 0 (first ++ .mark .question :: (second ++ .mark .colon :: last))
      (.ternary condition positive negative) := by
  refine ⟨hcondition.begins.append (by decide) (by simp), fun n c s rest hfacing => ?_,
    fun hchain => by simp [IsChain] at hchain⟩
  have hquestion : (TokenKind.mark .question).Stops 1 := fun other h => by cases h; decide
  have hcolon : (TokenKind.mark .colon).Stops 0 := fun other h => by cases h
  obtain ⟨mid, hfirst, hmore⟩ := hfacing.split hquestion
  refine (hcondition.reads n c s mid hfirst).bind fun id t ht _ hid => ?_
  obtain ⟨m, token, more, rfl, hahead, htoken, hbranches⟩ := (hmore t ht).head
  refine .eat hahead htoken (by decide) fun u hu htu => ?_
  obtain ⟨between, hsecond, hlast⟩ := (hbranches u hu).split hcolon
  have hpositive : Succeeds (positiveBranch (grammar (m + 1)) id) c u between
      fun b branch => ∃ other, branch = some other ∧ b.Denotes other positive := by
    have hkind : u.kind.isMark .colon = false :=
      (hsecond.begins hpositive.begins).isMark fun h => h
    refine .check .colon ?_
    rw [hkind]
    exact (hpositive.ternary hsecond).wrapped some
  refine hpositive.bind fun branch v hv huv hbranch => ?_
  obtain ⟨other, rfl, hother⟩ := hbranch
  obtain ⟨k, colon, after, rfl, hcolon, hkind, hlast⟩ := (hlast v hv).head
  have hnegative : Succeeds (negativeBranch (grammar (k + 1 + 1)) (some other)) c v rest
      fun b branch => ∃ third, branch = some third ∧ b.Denotes third negative := by
    refine .eat hcolon hkind (by decide) fun w hw _ => ?_
    have hdeeper : Facing (k + 1) c w last rest 0 := (hlast w hw).deeper
    refine .look (atBoundary_of_begins (hdeeper.begins hnegative.begins)) ?_
    exact (hnegative.ternary hdeeper).wrapped some
  refine hnegative.bind fun branch w hw hvw hbranch => ?_
  obtain ⟨third, rfl, hthird⟩ := hbranch
  refine .spanOf _ fun _ => .spanFrom _ fun span => ?_
  exact succeeds_denotes ⟨rfl, rfl⟩ rfl
    (.cons (hid.mono ((htu.trans huv).trans hvw)) (.cons (hother.mono hvw) (.cons hthird .nil))) hw

end Parser
end ExprScript
