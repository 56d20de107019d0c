import ExprScript.Proofs.Parser.Readback

/-!
# Sequences between brackets

Entries with commas between them are read one after another. What reads one entry stops in front of
a comma, so a sequence is read back if all its entries are.
-/
namespace ExprScript

namespace Parser

variable {α τ : Type} {c : ParseContext} {s : ParseState} {rest : List Token} {n level : Nat}
  {kinds : List TokenKind} {tree : SyntaxTree} {R : Arena → α → τ → Prop}

theorem Facing.tail {kind : TokenKind} (h : Facing n c s (kind :: kinds) rest level) :
    ∃ token more, s.ahead = token :: more ∧ token.kind = kind ∧
      ∀ t, t.ahead = more → Facing n c t kinds rest level := by
  obtain ⟨m, token, more, rfl, hahead, hkind, hmore⟩ := h.head
  exact ⟨token, more, hahead, hkind, fun t ht => (hmore t ht).deeper⟩

def endsEntry : TokenKind → Prop
  | .mark .comma | .mark (.closing _) => True
  | _ => False

structure ReadsEntry (item : Grammar → Parser α) (R : Arena → α → τ → Prop)
    (kinds : List TokenKind) (entry : τ) : Prop where
  begins : ∃ kind more, kinds = kind :: more ∧ kind.Begins 0
  reads : ∀ n c s rest, Facing n c s kinds rest 0 → endsEntry (firstKind rest) →
    Succeeds (item (grammar (n + 1))) c s rest fun b v => R b v entry
  lasts : ∀ {a b v}, a ≤ b → R a v entry → R b v entry

def itemRound (item : Parser α) (before : List α) : Parser (List α ⊕ List α) := do
  let next ← item
  skipNewlines
  if ← eat .comma then
    skipNewlines
    return .inl (next :: before)
  else return .inr (next :: before).reverse

theorem commaRound_eq {closing : Bracket} {item : Parser α} {before : List α}
    (h : s.kind.Begins 0) : commaRound closing item before c s = itemRound item before c s := by
  have hcloser : s.kind.isMark (.closing closing) = false := h.isMark fun h => h
  have hend : s.kind.isMark .eof = false := h.isMark fun h => h
  rw [commaRound, bind_of_done (check_eq _), ParseReply.after_false, hcloser, isAtEnd,
    bind_of_done (check_eq _), ParseReply.after_false, hend]
  rfl

theorem Facing.kind_of_begins (h : Facing n c s kinds rest level)
    (hbegins : ∃ kind more, kinds = kind :: more ∧ kind.Begins 0) : s.kind.Begins 0 := by
  obtain ⟨kind, more, rfl, hkind⟩ := hbegins
  have hfirst : s.kind = kind := h.spelled.firstKind
  rwa [hfirst]

variable {item : Grammar → Parser α} {entry : τ} {before : List α} {done : List τ}

theorem ReadsEntry.last (h : ReadsEntry item R kinds entry) (hfacing : Facing n c s kinds rest 0)
    {bracket : Bracket} (hstop : firstKind rest = .mark (.closing bracket))
    (hbefore : ∀ b, s.arena ≤ b → List.Forall₂ (R b) before.reverse done) :
    Succeeds (itemRound (item (grammar (n + 1))) before) c s rest
      fun b r => ∃ all, r = .inr all ∧ List.Forall₂ (R b) all (done ++ [entry]) := by
  refine (h.reads n c s rest hfacing (by rw [hstop]; trivial)).bind fun next t ht hst hnext => ?_
  have hkind : t.kind = .mark (.closing bracket) := by rw [← hstop, firstKind, ParseState.kind, ht]
  refine .skipNewlines (by rw [hkind]; rfl) (.eatNot (by rw [hkind]; rfl) (.pure ⟨_, rfl, ?_⟩ ht))
  rw [List.reverse_cons]
  exact List.rel_append (hbefore _ hst) (.cons hnext .nil)

theorem ReadsEntry.again {others : List TokenKind} (h : ReadsEntry item R kinds entry)
    (hothers : ∃ kind more, others = kind :: more ∧ kind.Begins 0)
    (hfacing : Facing n c s (kinds ++ .mark .comma :: others) rest 0) :
    ∃ mid, mid.length < s.ahead.length ∧ (∀ t, t.ahead = mid → Facing n c t others rest 0) ∧
      Succeeds (itemRound (item (grammar (n + 1))) before) c s mid
        fun b r => ∃ all, r = .inl all ∧ ∃ next, all = next :: before ∧ R b next entry := by
  have hcomma : (TokenKind.mark .comma).Stops 0 := fun _ h => by cases h
  obtain ⟨between, hentry, hlast⟩ := hfacing.split hcomma
  obtain ⟨comma, mid, hbetween, hkind, hmid⟩ := (hlast { s with ahead := between } rfl).tail
  obtain rfl : between = comma :: mid := hbetween
  refine ⟨mid, ?_, hmid, ?_⟩
  · have hlength := hentry.spelled.length
    rw [List.length_cons] at hlength
    omega
  have hend : endsEntry (firstKind (comma :: mid)) := by
    rw [firstKind, List.headD_cons, hkind]
    trivial
  refine (h.reads n c s _ hentry hend).bind fun next t ht _ hnext => ?_
  have hstop : t.kind = .mark .comma := by rw [ParseState.kind_of_ahead ht, hkind]
  refine .skipNewlines (by rw [hstop]; rfl) (.eat ht hkind (by decide) fun u hu htu => ?_)
  have hbegins := (hmid u hu).kind_of_begins hothers
  refine .skipNewlines (hbegins.isMark fun h => h) (.pure ⟨_, rfl, next, rfl, ?_⟩ hu)
  exact h.lasts htu hnext

theorem begins_commaSeparated {tokensOf : τ → List TokenKind} {first : τ} (others : List τ)
    (h : ∃ kind more, tokensOf first = kind :: more ∧ kind.Begins 0) :
    ∃ kind more, commaSeparated ((first :: others).map tokensOf) = kind :: more ∧
      kind.Begins 0 := by
  obtain ⟨kind, more, hfirst, hkind⟩ := h
  cases others with
  | nil => exact ⟨kind, more, by simp [hfirst], hkind⟩
  | cons second others =>
    let later := commaSeparated ((second :: others).map tokensOf)
    refine ⟨kind, more ++ .mark .comma :: later, ?_, hkind⟩
    rw [List.map_cons, List.map_cons, commaSeparated_cons, hfirst]
    rfl

/-- Entries are added to those read before. The induction is on the entries to come. -/
theorem succeeds_entries {step : List α → Parser (List α ⊕ List α)}
    {tokensOf : τ → List TokenKind} {first : τ} {others : List τ}
    (hstep : ∀ before c s, s.kind.Begins 0 →
      step before c s = itemRound (item (grammar (n + 1))) before c s)
    (hentries : ∀ entry ∈ first :: others, ReadsEntry item R (tokensOf entry) entry)
    (hfacing : Facing n c s (commaSeparated ((first :: others).map tokensOf)) rest 0)
    {bracket : Bracket} (hstop : firstKind rest = .mark (.closing bracket))
    (hbefore : ∀ b, s.arena ≤ b → List.Forall₂ (R b) before.reverse done) {steps : Nat}
    (hsteps : s.ahead.length < steps) (flag : Bool) :
    Succeeds (loop step steps flag before) c s rest
      fun b all => List.Forall₂ (R b) all (done ++ first :: others) := by
  induction others generalizing first s before done steps flag with
  | nil =>
    obtain ⟨steps, rfl⟩ := Nat.exists_eq_succ_of_ne_zero (Nat.ne_of_gt (Nat.zero_lt_of_lt hsteps))
    have hfirst := hentries first List.mem_cons_self
    rw [List.map_singleton, commaSeparated_single] at hfacing
    obtain ⟨taken, r, t, hrun, hround⟩ := hfirst.last hfacing hstop hbefore
    rw [← hstep before c s (hfacing.kind_of_begins hfirst.begins)] at hrun
    exact .stop ⟨taken, r, t, hrun, hround⟩
  | cons second others ih =>
    obtain ⟨steps, rfl⟩ := Nat.exists_eq_succ_of_ne_zero (Nat.ne_of_gt (Nat.zero_lt_of_lt hsteps))
    have hfirst := hentries first List.mem_cons_self
    have hsecond := hentries second (by simp)
    have hbegins := hfacing.kind_of_begins (begins_commaSeparated (second :: others) hfirst.begins)
    rw [List.map_cons, List.map_cons, commaSeparated_cons] at hfacing
    obtain ⟨mid, hshorter, hmid, taken, r, t, hrun, hround⟩ :=
      hfirst.again (begins_commaSeparated others hsecond.begins) hfacing
    rw [← hstep before c s hbegins] at hrun
    refine .again (I := fun b all => ∃ next, all = next :: before ∧ R b next first)
      ⟨taken, r, t, hrun, hround⟩ fun all u after hu hsu hall => ?_
    obtain ⟨next, rfl, hnext⟩ := hall
    have hlonger : ∀ b, u.arena ≤ b →
        List.Forall₂ (R b) (next :: before).reverse (done ++ [first]) := by
      intro b hub
      rw [List.reverse_cons]
      exact List.rel_append (hbefore b (hsu.trans hub)) (.cons (hfirst.lasts hub hnext) .nil)
    have hfewer : u.ahead.length < steps := by
      rw [hu]
      omega
    have hlater := fun entry hentry => hentries entry (List.mem_cons_of_mem _ hentry)
    have hmore := ih hlater (hmid u hu) hlonger hfewer after
    simpa using hmore

theorem succeeds_commaList {tokensOf : τ → List TokenKind} {entries : List τ} {bracket : Bracket}
    {closed : Token} (hclosed : closed.kind = .mark (.closing bracket))
    (hentries : ∀ entry ∈ entries, ReadsEntry item R (tokensOf entry) entry)
    (hfacing : Facing n c s (commaSeparated (entries.map tokensOf)) (closed :: rest) 0) :
    Succeeds (commaList bracket (item (grammar (n + 1)))) c s (closed :: rest)
      fun b all => List.Forall₂ (R b) all entries := by
  cases entries with
  | nil =>
    have hahead : s.ahead = closed :: rest := hfacing.spelled
    have hkind : s.kind = .mark (.closing bracket) := by
      rw [ParseState.kind_of_ahead hahead, hclosed]
    refine .skipNewlines (by rw [hkind]; rfl) (.repeating (.stop ?_))
    refine .check _ ?_
    have hcloser : s.kind.isMark (.closing bracket) = true := by
      rw [hkind]
      simp [TokenKind.isMark, TokenKind.mark?]
    rw [hcloser]
    exact .check _ (.pure ⟨[], rfl, .nil⟩ hahead)
  | cons first others =>
    have hbegins := begins_commaSeparated others (hentries first List.mem_cons_self).begins
    have hkind := hfacing.kind_of_begins hbegins
    refine .skipNewlines (hkind.isMark fun h => h) ?_
    have hstart : ∀ b, s.arena ≤ b → List.Forall₂ (R b) ([] : List α).reverse ([] : List τ) :=
      fun _ _ => .nil
    exact .repeating (succeeds_entries (fun _ _ _ h => commaRound_eq h) hentries hfacing
      hclosed hstart (Nat.lt_succ_of_le hfacing.rounds) false)

/-! ## Lists, calls and indices -/

theorem ReadsAt.readsEntry (h : ReadsAt 0 kinds tree) :
    ReadsEntry (fun g => g .ternary) Arena.Denotes kinds tree where
  begins := h.begins.first
  reads _ _ _ _ hfacing _ := h.ternary hfacing
  lasts hab hid := hid.mono hab

theorem beginsAt_around {entries : List τ} {tokensOf : τ → List TokenKind} {bracket : Bracket}
    (hbracket : (TokenKind.mark (.opening bracket)).Begins level)
    (h : ∀ entry ∈ entries, ∃ kind more, tokensOf entry = kind :: more ∧ kind.Begins 0) :
    BeginsAt level (bracket.around (commaSeparated (entries.map tokensOf))) := by
  cases entries with
  | nil => exact beginsAt_pair hbracket (by simp)
  | cons first others =>
    obtain ⟨kind, more, hkinds, hkind⟩ := begins_commaSeparated others (h first List.mem_cons_self)
    rw [hkinds]
    exact beginsAt_pair hbracket hkind.ne_assign

/-- Brackets around items of which there are not too many are a list of them. -/
theorem readsAt_list {items : List SyntaxTree} (hlength : items.length ≤ maxRunLength)
    (hitems : ∀ item ∈ items, ReadsAt 0 item.tokens item) :
    ReadsAt 7 (SyntaxTree.list items).tokens (.list items) := by
  have hbegins :
      BeginsAt 7 (Bracket.square.around (commaSeparated (items.map SyntaxTree.tokens))) :=
    beginsAt_around trivial fun item hitem => (hitems item hitem).begins.first
  rw [SyntaxTree.tokens, SyntaxTree.tokensOfItems_eq]
  refine .of_operand hbegins (by simp [IsChain]) fun n c s rest hfacing => ?_
  obtain ⟨m, opened, closed, more, rfl, hahead, hopened, hclosed, hinside⟩ := hfacing.inside
  refine .current hahead ?_
  rw [hopened]
  refine .advance hahead (by rw [hopened]; rfl) fun t ht _ => ?_
  have hlist := succeeds_commaList hclosed (fun item hitem => (hitems item hitem).readsEntry)
    (hinside t ht)
  refine hlist.bind fun ids u hu _ hids => succeeds_expectCloser hu hclosed fun span v hv huv => ?_
  refine .store (hids.length_eq ▸ hlength) (fun _ => ⟨by constructor <;> simp, rfl⟩) ?_
  intro run w hw hvw hrun
  have hall : List.Forall₂ w.arena.Denotes ids items :=
    hids.imp fun _ _ h => h.mono (huv.trans hvw)
  have hchildren : (Expr.list run).children? w.arena = some ids := by
    simp [Expr.children?, Expr.parts?, hrun]
  exact succeeds_denotes trivial hchildren hall (hw.trans hv)

/-- An argument of the same name, with a value that stands for a tree. -/
def ArgumentDenotes (arena : Arena) (arg : Argument) (entry : ArgumentTree) : Prop :=
  arg.name = entry.name ∧ arena.Denotes arg.value entry.value

theorem argumentName_of_ne (h : ∀ op yields, firstKind s.ahead.tail ≠ .mark (.assign op yields)) :
    argumentName c s = .done false none s := by
  rw [argumentName, bind_of_done current_eq, ParseReply.after_false, bind_of_done peek_eq,
    ParseReply.after_false]
  generalize (s.ahead.headD eofToken).kind = kind
  generalize firstKind s.ahead.tail = second at h
  split
  · exact absurd rfl (h _ _)
  · exact absurd rfl (h _ _)
  · rfl

theorem ArgumentTree.reads {arg : ArgumentTree} (h : ReadsAt 0 arg.value.tokens arg.value) :
    ReadsEntry argument ArgumentDenotes arg.tokens arg where
  begins := by
    obtain ⟨name, value⟩ := arg
    cases name with
    | none => exact h.begins.first
    | some name => exact ⟨_, _, rfl, trivial⟩
  reads n c s rest hfacing _ := by
    obtain ⟨name, value⟩ := arg
    refine .currentSpan fun start => ?_
    cases name with
    | none =>
      refine .look (argumentName_of_ne (hfacing.second h.begins)) ?_
      refine (h.ternary hfacing).bind fun id t ht _ hid => .spanFrom _ fun span => ?_
      exact .pure ⟨rfl, hid⟩ ht
    | some name =>
      obtain ⟨first, more, hfirst, hname, hmore⟩ := hfacing.tail
      obtain ⟨second, after, hsecond, hassign, hvalue⟩ := (hmore { s with ahead := more } rfl).tail
      obtain rfl : more = second :: after := hsecond
      have hread : Succeeds argumentName c s after fun _ found => found = some name := by
        refine .current hfirst (.look peek_eq ?_)
        rw [hname, hfirst, List.tail_cons, firstKind, List.headD_cons, hassign]
        refine .advance hfirst (by rw [hname]; rfl) fun t ht _ => ?_
        exact .advance ht (by rw [hassign]; rfl) fun u hu _ => .pure rfl hu
      refine hread.bind fun found t ht _ hfound => ?_
      refine (h.ternary (hvalue t ht)).bind fun id u hu _ hid => .spanFrom _ fun span => ?_
      exact .pure ⟨hfound, hid⟩ hu
  lasts hab harg := ⟨harg.1, harg.2.mono hab⟩

/-- A selection of the same kind over nodes that stand for its trees. -/
def SpecDenotes (arena : Arena) (spec : IndexSpec) (entry : SpecTree) : Prop :=
  spec.isRange = entry.isRange ∧ List.Forall₂ arena.Denotes spec.nodes entry.children

theorem SpecTree.reads {spec : SpecTree}
    (h : ∀ child ∈ spec.children, ReadsAt 0 child.tokens child) :
    ReadsEntry indexSpec SpecDenotes spec.tokens spec where
  begins := by
    cases spec with
    | single index => exact (h index (by simp [SpecTree.children])).begins.first
    | range first last =>
      have hfirst := h first (by simp [SpecTree.children])
      exact (hfirst.begins.append (Nat.le_refl 0) (by simp)).first
  reads n c s rest hfacing hend := by
    cases spec with
    | single index =>
      have hindex := h index (by simp [SpecTree.children])
      refine (hindex.ternary hfacing).bind fun id t ht _ hid => ?_
      have hto : t.kind.isKeyword .toWord = false := by
        rw [ParseState.kind, ht]
        unfold endsEntry firstKind at hend
        split at hend
        · rename_i hkind
          rw [hkind]
          rfl
        · rename_i hkind
          rw [hkind]
          rfl
        · exact hend.elim
      exact .eatKeywordNot hto (.pure ⟨rfl, .cons hid .nil⟩ ht)
    | range first last =>
      have hfirst := h first (by simp [SpecTree.children])
      have hlast := h last (by simp [SpecTree.children])
      have hto : (TokenKind.keyword .toWord).Stops 0 := fun _ h => by cases h
      obtain ⟨mid, hbefore, hbehind⟩ := hfacing.split hto
      refine (hfirst.ternary hbefore).bind fun id t ht _ hid => ?_
      obtain ⟨token, more, hahead, hkind, hmore⟩ := (hbehind t ht).tail
      refine .eatKeyword hahead hkind fun u hu htu => ?_
      refine (hlast.ternary (hmore u hu)).bind fun other v hv huv hother => ?_
      exact .pure ⟨rfl, .cons (hid.mono (htu.trans huv)) (.cons hother .nil)⟩ hv
  lasts hab hspec := ⟨hspec.1, hspec.2.imp fun _ _ h => h.mono hab⟩

theorem map_eq_of_forall₂ {β : Type} {R : α → τ → Prop} {f : α → β} {g : τ → β} {as : List α}
    {ts : List τ} (h : List.Forall₂ R as ts) (hR : ∀ a t, R a t → f a = g t) :
    as.map f = ts.map g := by
  induction h with
  | nil => rfl
  | cons hhead _ ih => rw [List.map_cons, List.map_cons, hR _ _ hhead, ih]

/-- What stands in front of parentheses is called with the arguments between them. -/
theorem readsAt_call {callee : SyntaxTree} {args : List ArgumentTree}
    (hlength : args.length ≤ maxRunLength) (hcallee : ReadsAt 7 kinds callee)
    (hargs : ∀ arg ∈ args, ReadsAt 0 arg.value.tokens arg.value) :
    ReadsAt 7 (kinds ++ Bracket.paren.around (commaSeparated (args.map ArgumentTree.tokens)))
      (.call callee args) := by
  have hchain : IsChain 7 := by simp [IsChain]
  have hparen : (TokenKind.mark (.opening .paren)).Stops 8 := fun other h => by cases h; decide
  refine .of_reaches (hcallee.begins.append (Nat.le_refl 7) (by simp)) hchain ?_
  refine (hcallee.reaches hchain).more hparen fun n c s rest id hfacing hid => ?_
  obtain ⟨m, opened, closed, more, rfl, hahead, hopened, hclosed, hinside⟩ := hfacing.inside
  refine .current hahead ?_
  rw [hopened]
  refine Succeeds.wrapped Sum.inl (.advance hahead (by rw [hopened]; rfl) fun t ht hst => ?_)
  have hlist := succeeds_commaList hclosed (fun arg harg => ArgumentTree.reads (hargs arg harg))
    (hinside t ht)
  refine hlist.bind fun found u hu htu hfound => ?_
  refine succeeds_expectCloser hu hclosed fun span v hv huv => ?_
  refine .store (hfound.length_eq ▸ hlength) (fun _ => ⟨by constructor <;> simp, rfl⟩) ?_
  intro run w hw hvw hrun
  refine .spanOf _ fun _ => ?_
  have hcallee : w.arena.Denotes id callee := hid.mono (((hst.trans htu).trans huv).trans hvw)
  have hvalues : List.Forall₂ w.arena.Denotes (found.map (·.value)) (args.map ArgumentTree.value) :=
    List.rel_map (fun _ _ harg => harg.2.mono (huv.trans hvw)) hfound
  have hnames : found.map (·.name) = args.map ArgumentTree.name :=
    map_eq_of_forall₂ hfound fun _ _ harg => harg.1
  have hchildren : (Expr.call id run).children? w.arena = some (id :: found.map (·.value)) := by
    simp [Expr.children?, Expr.parts?, hrun]
  exact succeeds_denotes ⟨found, hrun, hnames⟩ hchildren (.cons hcallee hvalues) (hw.trans hv)

/-- What stands in front of square brackets is indexed with the selections between them. -/
theorem readsAt_index {target : SyntaxTree} {spec : SpecTree} {specs : List SpecTree}
    (hlength : specs.length + 1 ≤ maxRunLength) (htarget : ReadsAt 7 kinds target)
    (hspecs : ∀ entry ∈ spec :: specs, ∀ child ∈ entry.children, ReadsAt 0 child.tokens child) :
    ReadsAt 7
      (kinds ++ Bracket.square.around (commaSeparated ((spec :: specs).map SpecTree.tokens)))
      (.index target spec specs) := by
  have hchain : IsChain 7 := by simp [IsChain]
  have hsquare : (TokenKind.mark (.opening .square)).Stops 8 := fun other h => by cases h; decide
  have hentries : ∀ entry ∈ spec :: specs, ReadsEntry indexSpec SpecDenotes entry.tokens entry :=
    fun entry hentry => SpecTree.reads (hspecs entry hentry)
  refine .of_reaches (htarget.begins.append (Nat.le_refl 7) (by simp)) hchain ?_
  refine (htarget.reaches hchain).more hsquare fun n c s rest id hfacing hid => ?_
  obtain ⟨m, opened, closed, more, rfl, hahead, hopened, hclosed, hinside⟩ := hfacing.inside
  refine .current hahead ?_
  rw [hopened]
  refine Succeeds.wrapped Sum.inl (.advance hahead (by rw [hopened]; rfl) fun t ht hst => ?_)
  have hkind := (hinside t ht).kind_of_begins
    (begins_commaSeparated specs (hentries spec List.mem_cons_self).begins)
  refine .skipNewlines (hkind.isMark fun h => h) (.eatNot (hkind.isMark fun h => h) ?_)
  have hstep : ∀ before c s, s.kind.Begins 0 → nextSpec (grammar (m + 1)) before c s =
      itemRound (indexSpec (grammar (m + 1))) before c s := fun _ _ _ _ => rfl
  have hstart : ∀ b, t.arena ≤ b →
      List.Forall₂ (SpecDenotes b) ([] : List IndexSpec).reverse ([] : List SpecTree) :=
    fun _ _ => .nil
  have hlist := succeeds_entries hstep hentries (hinside t ht) hclosed hstart
    (Nat.lt_succ_of_le (hinside t ht).rounds) false
  refine (Succeeds.repeating hlist).bind fun found u hu htu hfound => ?_
  refine succeeds_expectCloser hu hclosed fun span v hv huv => ?_
  refine .store (hfound.length_eq ▸ hlength) (fun _ => ⟨by constructor <;> simp, rfl⟩) ?_
  intro run w hw hvw hrun
  refine .spanOf _ fun _ => ?_
  have htarget : w.arena.Denotes id target := hid.mono (((hst.trans htu).trans huv).trans hvw)
  have hnodes : List.Forall₂ w.arena.Denotes (found.flatMap IndexSpec.nodes)
      ((spec :: specs).flatMap SpecTree.children) :=
    List.rel_flatMap hfound fun _ _ hspec => hspec.2.imp fun _ _ h => h.mono (huv.trans hvw)
  have hranges : found.map (·.isRange) = (spec :: specs).map SpecTree.isRange :=
    map_eq_of_forall₂ hfound fun _ _ hspec => hspec.1
  have hchildren : (Expr.index id run).children? w.arena =
      some (id :: found.flatMap IndexSpec.nodes) := by
    simp [Expr.children?, Expr.parts?, hrun]
  exact succeeds_denotes ⟨found, hrun, hranges⟩ hchildren (.cons htarget hnodes) (hw.trans hv)

end Parser
end ExprScript
