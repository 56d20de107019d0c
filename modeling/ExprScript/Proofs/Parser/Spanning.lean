import ExprScript.Proofs.Parser.Running
import ExprScript.Proofs.Tree.Layout

/-!
# How parsers lay out nodes

A parser goes along the tokens. What it builds on the way stands between the token that was ahead
and the last one it has taken, and what two parsers build one after the other stands in this order.
So a node stands around its children if its span reaches from the first token of its construct to
the last.
-/
namespace ExprScript

/-- Tokens one behind the other. The last one is the end of the input, all others take
characters. -/
structure InOrder (tokens : List Token) : Prop where
  ends : ∃ front place, tokens = front ++ [⟨.mark .eof, .point place⟩] ∧
    ∀ token ∈ front, token.kind.Takable ∧ token.span.start.offset < token.span.stop.offset
  apart : tokens.Pairwise fun a b => a.span.Before b.span

namespace InOrder

variable {tokens : List Token} (h : InOrder tokens) {token a b : Token}
include h

theorem pos (ha : token ∈ tokens) (hkind : token.kind.Takable) :
    token.span.start.offset < token.span.stop.offset := by
  obtain ⟨front, place, rfl, hfront⟩ := h.ends
  rcases List.mem_append.mp ha with hmem | hmem
  · exact (hfront token hmem).2
  · obtain rfl := List.mem_singleton.mp hmem
    cases hkind

theorem start_le_stop (ha : token ∈ tokens) : token.span.start.offset ≤ token.span.stop.offset := by
  obtain ⟨front, place, rfl, hfront⟩ := h.ends
  rcases List.mem_append.mp ha with hmem | hmem
  · exact Nat.le_of_lt (hfront token hmem).2
  · obtain rfl := List.mem_singleton.mp hmem
    exact Nat.le_refl _

theorem along (ha : token ∈ tokens) (hkind : token.kind.Takable) : token.span.Along tokens :=
  ⟨⟨token, ha, rfl⟩, ⟨token, ha, rfl⟩, h.pos ha hkind⟩

/-- A token that ends behind the start of another one is this token or comes behind it. -/
theorem le_of_lt (ha : a ∈ tokens) (hb : b ∈ tokens)
    (hlt : b.span.start.offset < a.span.stop.offset) :
    b.span.start.offset ≤ a.span.start.offset ∧ b.span.stop.offset ≤ a.span.stop.offset := by
  have hle := h.start_le_stop ha
  have hle' := h.start_le_stop hb
  obtain ⟨i, hi, rfl⟩ := List.mem_iff_getElem.mp ha
  obtain ⟨j, hj, rfl⟩ := List.mem_iff_getElem.mp hb
  have hapart := List.pairwise_iff_getElem.mp h.apart
  rcases Nat.lt_trichotomy i j with hij | rfl | hij
  · have hbefore : _ ≤ _ := hapart i j hi hj hij
    omega
  · exact ⟨Nat.le_refl _, Nat.le_refl _⟩
  · have hbefore : _ ≤ _ := hapart j i hj hi hij
    omega

end InOrder

/-! ## Arenas -/

/-- Every node of an arena stands around its children. -/
def Arena.Laid (tokens : List Token) (arena : Arena) : Prop :=
  ∀ id node, arena.node? id = some node → arena.Stands tokens node

/-- What is found behind a push is the new node, or was found before. -/
theorem Arena.node?_of_push {arena : Arena} {node found : Node} {id : NodeId}
    (h : (arena.push node).2.node? id = some found) :
    id = (arena.push node).1 ∧ found = node ∨ arena.node? id = some found := by
  unfold Arena.node? Arena.push at h
  rw [Array.getElem?_push] at h
  split at h
  next hindex =>
    cases h
    exact .inl ⟨congrArg NodeId.mk hindex, rfl⟩
  next => exact .inr h

theorem Arena.Laid.push {tokens : List Token} {arena : Arena} {node : Node}
    (h : arena.Laid tokens) (hnode : arena.Stands tokens node) :
    (arena.push node).2.Laid tokens := by
  have hgrows := arena.le_push node
  intro id found hfound
  rcases Arena.node?_of_push hfound with ⟨-, rfl⟩ | hold
  · exact hnode.mono hgrows
  · exact (h id found hold).mono hgrows

theorem Arena.Laid.tables {tokens : List Token} {a b : Arena} (h : a.Laid tokens) (hab : a ≤ b)
    (hnodes : b.nodes = a.nodes) : b.Laid tokens := by
  intro id node hnode
  unfold Arena.node? at hnode
  rw [hnodes] at hnode
  exact (h id node hnode).mono hab

/-! ## States -/

namespace ParseState

/-- Where the last token that was taken ends. -/
def front (s : ParseState) : Nat := (s.previous.map fun span => span.stop.offset).getD 0

def next (s : ParseState) : Nat := (s.ahead.headD Parser.eofToken).span.start.offset

def span (s : ParseState) : Span := (s.ahead.headD Parser.eofToken).span

structure On (tokens : List Token) (s : ParseState) : Prop where
  split : ∃ gone, tokens = gone ++ s.ahead ∧ (∀ token ∈ gone, token.kind.Takable) ∧
    s.previous = gone.getLast?.map (·.span)
  arena : s.arena.Laid tokens

variable {tokens : List Token} {s t u : ParseState} {token : Token} {rest : List Token}

theorem On.exists_ahead (h : InOrder tokens) (hs : s.On tokens) :
    ∃ token rest, s.ahead = token :: rest := by
  obtain ⟨gone, hsplit, htaken, -⟩ := hs.split
  cases hahead : s.ahead with
  | cons token rest => exact ⟨token, rest, rfl⟩
  | nil =>
    obtain ⟨front, place, htokens, -⟩ := h.ends
    have hgone : gone = front ++ [⟨.mark .eof, .point place⟩] := by
      rw [← htokens, hsplit, hahead, List.append_nil]
    have heof := htaken ⟨.mark .eof, .point place⟩ (by simp [hgone])
    cases heof

theorem span_of_ahead (hahead : s.ahead = token :: rest) : s.span = token.span := by
  simp [span, hahead]

theorem On.mem_of_ahead (hs : s.On tokens) (hahead : s.ahead = token :: rest) :
    token ∈ tokens := by
  obtain ⟨gone, hsplit, -⟩ := hs.split
  rw [hsplit, hahead]
  simp

theorem next_of_ahead (hahead : s.ahead = token :: rest) : s.next = token.span.start.offset := by
  simp [next, hahead]

theorem On.exists_previous (hs : s.On tokens) (hfront : 0 < s.front) :
    ∃ token ∈ tokens, token.kind.Takable ∧ s.previous = some token.span := by
  obtain ⟨gone, hsplit, htaken, hprevious⟩ := hs.split
  cases hlast : gone.getLast? with
  | none => simp [front, hprevious, hlast] at hfront
  | some token =>
    have hmem := List.mem_of_getLast? hlast
    exact ⟨token, by simp [hsplit, hmem], htaken token hmem, by simp [hprevious, hlast]⟩

theorem front_of_previous {span : Span} (hprevious : s.previous = some span) :
    s.front = span.stop.offset := by
  simp [front, hprevious]

theorem On.front_le_next (h : InOrder tokens) (hs : s.On tokens) : s.front ≤ s.next := by
  obtain ⟨token, rest, hahead⟩ := hs.exists_ahead h
  obtain ⟨gone, hsplit, -, hprevious⟩ := hs.split
  rw [next_of_ahead hahead]
  cases hlast : gone.getLast? with
  | none => simp [front, hprevious, hlast]
  | some last =>
    have hapart := h.apart
    rw [hsplit, hahead] at hapart
    have hbefore : last.span.stop.offset ≤ token.span.start.offset :=
      (List.pairwise_append.mp hapart).2.2 last (List.mem_of_getLast? hlast) token
        List.mem_cons_self
    simpa [front, hprevious, hlast] using hbefore

/-- A span up to the last token that was taken, behind whose start tokens were taken. -/
theorem On.exists_spanFrom (h : InOrder tokens) (hs : s.On tokens) {start : Span}
    (halong : start.Along tokens) (hlt : start.start.offset < s.front)
    (hle : start.stop.offset ≤ s.front) :
    ∃ span, (∀ c, Parser.spanFrom start c s = .done false span s) ∧ span.Along tokens ∧
      span.start = start.start ∧ span.stop.offset = s.front := by
  obtain ⟨last, hlast, hkind, hprevious⟩ := hs.exists_previous (by omega)
  have hfront := front_of_previous hprevious
  obtain ⟨first, hfirst, hstart⟩ := halong.start
  rw [hstart, hfront] at hlt
  have hbehind := (h.le_of_lt hlast hfirst hlt).1
  rw [← hstart] at hbehind
  refine ⟨start.merge last.span, fun c => ?_, halong.merge (h.along hlast hkind),
    Span.merge_start hbehind, ?_⟩
  · have hsame : s.previous.getD (Span.point (s.ahead.headD Parser.eofToken).span.start) =
        last.span := by rw [hprevious, Option.getD_some]
    rw [← hsame]
    rfl
  · rw [hfront]
    exact Span.merge_stop_offset (hfront ▸ hle)

/-- From one state to a later one. -/
structure Reaches (tokens : List Token) (s t : ParseState) : Prop where
  arena : s.arena ≤ t.arena
  front : s.front ≤ t.front
  next : s.next ≤ t.next
  on : t.On tokens

theorem On.refl (hs : s.On tokens) : Reaches tokens s s :=
  ⟨le_refl _, Nat.le_refl _, Nat.le_refl _, hs⟩

theorem Reaches.trans (hst : Reaches tokens s t) (htu : Reaches tokens t u) :
    Reaches tokens s u :=
  ⟨hst.arena.trans htu.arena, Nat.le_trans hst.front htu.front, Nat.le_trans hst.next htu.next,
    htu.on⟩

theorem On.past (h : InOrder tokens) (hs : s.On tokens) (hahead : s.ahead = token :: rest)
    (hkind : token.kind.Takable) : Reaches tokens s (s.past token rest) := by
  have hon : (s.past token rest).On tokens := by
    obtain ⟨gone, hsplit, htaken, -⟩ := hs.split
    refine ⟨⟨gone ++ [token], by simp [hsplit, hahead], fun other hother => ?_, by simp⟩, hs.arena⟩
    rcases List.mem_append.mp hother with hmem | hmem
    · exact htaken other hmem
    · exact List.mem_singleton.mp hmem ▸ hkind
  have hpos := h.pos (hs.mem_of_ahead hahead) hkind
  have hfront : (s.past token rest).front = token.span.stop.offset := rfl
  have hbefore := hs.front_le_next h
  have hafter := hon.front_le_next h
  rw [next_of_ahead hahead] at hbefore
  refine ⟨le_refl _, by omega, ?_, hon⟩
  rw [next_of_ahead hahead]
  omega

/-- A construct begins with a token that was taken, or with a node that was built. -/
structure Begins (tokens : List Token) (s t : ParseState) (start : Span) : Prop where
  reaches : Reaches tokens s t
  along : start.Along tokens
  lo : s.next ≤ start.start.offset
  taken : start.stop.offset ≤ t.front

structure Closes (tokens : List Token) (s t : ParseState) (closed : Span) : Prop where
  along : closed.Along tokens
  lo : s.next ≤ closed.start.offset
  stop : closed.stop.offset = t.front

variable {start closed : Span}

theorem Begins.later (hst : Begins tokens s t start) (htu : Reaches tokens t u) :
    Begins tokens s u start :=
  ⟨hst.reaches.trans htu, hst.along, hst.lo, Nat.le_trans hst.taken htu.front⟩

theorem Begins.lt_front (hst : Begins tokens s t start) : start.start.offset < t.front :=
  Nat.lt_of_lt_of_le hst.along.pos hst.taken

theorem Begins.before_of_next (h : InOrder tokens) (hst : Begins tokens s t start)
    (hnext : t.next ≤ closed.start.offset) : start.Before closed := by
  have hfront := hst.reaches.on.front_le_next h
  have htaken := hst.taken
  unfold Span.Before
  omega

/-- What is built behind the beginning of a construct stands behind its start. -/
theorem Begins.around (h : InOrder tokens) (hst : Begins tokens s t start) {children : List Child}
    (hchildren : u.arena.Spread tokens t.next u.front children) :
    u.arena.Spread tokens start.start.offset u.front children := by
  have hnext := hst.reaches.on.front_le_next h
  have hlt := hst.lt_front
  exact hchildren.widen (by omega) (Nat.le_refl _)

theorem Closes.earlier (htu : Closes tokens t u closed) (hst : Reaches tokens s t) :
    Closes tokens s u closed :=
  ⟨htu.along, Nat.le_trans hst.next htu.lo, htu.stop⟩

theorem Closes.stored (hst : Closes tokens s t closed) (hfront : u.front = t.front) :
    Closes tokens s u closed :=
  ⟨hst.along, hst.lo, hst.stop.trans hfront.symm⟩

theorem Begins.of_past (h : InOrder tokens) (hs : s.On tokens) (hahead : s.ahead = token :: rest)
    (hkind : token.kind.Takable) : Begins tokens s (s.past token rest) token.span :=
  ⟨hs.past h hahead hkind, h.along (hs.mem_of_ahead hahead) hkind,
    Nat.le_of_eq (next_of_ahead hahead), Nat.le_refl _⟩

/-- What was built on the way from one state to another stands between the token that was ahead and
the last one taken. -/
def Between (tokens : List Token) (s t : ParseState) (children : List Child) : Prop :=
  t.arena.Spread tokens s.next t.front children

variable {children more : List Child} {id : NodeId}

theorem Between.nil : Between tokens s t [] := Arena.Spread.nil

theorem Between.later (hst : Between tokens s t children) (htu : Reaches tokens t u) :
    Between tokens s u children :=
  (Arena.Spread.mono htu.arena hst).widen (Nat.le_refl _) htu.front

theorem Between.earlier (htu : Between tokens t u children) (hst : Reaches tokens s t) :
    Between tokens s u children :=
  Arena.Spread.widen htu hst.next (Nat.le_refl _)

theorem Between.append (h : InOrder tokens) (hst : Reaches tokens s t) (htu : Reaches tokens t u)
    (hchildren : Between tokens s t children) (hmore : Between tokens t u more) :
    Between tokens s u (children ++ more) :=
  Arena.Spread.append (Arena.Spread.mono htu.arena hchildren) hmore hst.next
    (hst.on.front_le_next h) htu.front

/-- A node takes characters. -/
theorem Between.next_lt_front (hst : Between tokens s t [.node id]) : s.next < t.front := by
  obtain ⟨span, -, halong, hstart, hstop, -⟩ := Arena.Spread.exists_first hst
  have hpos := halong.pos
  omega

theorem Begins.of_lt (h : InOrder tokens) (hst : Reaches tokens s t) (hs : s.On tokens)
    (hlt : s.next < t.front) : Begins tokens s t s.span := by
  obtain ⟨token, rest, hahead⟩ := hs.exists_ahead h
  rw [span_of_ahead hahead]
  obtain ⟨last, hlast, hkind, hprevious⟩ := hst.on.exists_previous (by omega)
  have hmem := hs.mem_of_ahead hahead
  rw [next_of_ahead hahead, front_of_previous hprevious] at hlt
  obtain ⟨-, hstop⟩ := h.le_of_lt hlast hmem hlt
  refine ⟨hst, h.along hmem ?_, Nat.le_of_eq (next_of_ahead hahead), ?_⟩
  · obtain ⟨front, place, htokens, hfront⟩ := h.ends
    have hapart := h.apart
    rw [htokens] at hmem hlast hapart
    rcases List.mem_append.mp hmem with hmem | hmem
    · exact (hfront token hmem).1
    · -- Nothing that is taken ends behind the end of the input.
      have hlast : last ∈ front := by
        rcases List.mem_append.mp hlast with hlast | hlast
        · exact hlast
        · obtain rfl := List.mem_singleton.mp hlast
          cases hkind
      have hbefore : last.span.stop.offset ≤ token.span.start.offset :=
        (List.pairwise_append.mp hapart).2.2 last hlast token hmem
      omega
  · rw [front_of_previous hprevious]
    exact hstop

end ParseState

/-- The children that a value stands for, in the order of the text. -/
class Spans (α : Type) where
  children : α → List Child

open Spans ParseState

section
variable {α β : Type} [Spans α] [Spans β]

instance : Spans NodeId := ⟨fun id => [.node id]⟩
instance : Spans Argument := ⟨fun arg => [arg.child]⟩
instance : Spans Parameter := ⟨fun param => [param.child]⟩
instance : Spans IndexSpec := ⟨fun spec => spec.nodes.map .node⟩
instance : Spans Branch := ⟨Branch.layout⟩
instance : Spans CaseArm := ⟨CaseArm.layout⟩
instance : Spans (List α) := ⟨fun values => values.flatMap children⟩
instance : Spans (Option α) := ⟨fun value => value.toList.flatMap children⟩
instance : Spans (α × β) := ⟨fun pair => children pair.1 ++ children pair.2⟩

end

namespace Parser

variable {α β σ : Type} {tokens : List Token} {s t u : ParseState} {G : ParseState → α → Prop}
  {H : ParseState → β → Prop} {p : Parser α} {f : α → Parser β}

/-! ## Parsers -/

/-- A reply after some way along the tokens: a value with a property, or a failure. -/
def Arrives (tokens : List Token) (s : ParseState) (G : ParseState → α → Prop) :
    ParseReply α → Prop
  | .done _ v t => Reaches tokens s t ∧ G t v
  | .failed _ _ t => Reaches tokens s t

/-- From a state the parser goes along the tokens, and a value that it gives has a property. -/
def Goes (tokens : List Token) (s : ParseState) (G : ParseState → α → Prop) (p : Parser α) :
    Prop :=
  ∀ c, Arrives tokens s G (p c s)

abbrev Lays [Spans α] (tokens : List Token) (s : ParseState) (p : Parser α) : Prop :=
  Goes tokens s (fun t v => Between tokens s t (children v)) p

/-- What the value stands for is built on the way from an earlier state. -/
abbrev LaysFrom [Spans α] (tokens : List Token) (s t : ParseState) (p : Parser α) : Prop :=
  Goes tokens t (fun u v => Between tokens s u (children v)) p

/-- The values of a repetition so far, the last one first, are built on the way. -/
abbrev Row [Spans α] (tokens : List Token) (s t : ParseState) (before : List α) : Prop :=
  Between tokens s t (children before.reverse)

theorem Arrives.after {reply : ParseReply α} (h : Arrives tokens t G reply)
    (hst : Reaches tokens s t) (taken : Bool) : Arrives tokens s G (reply.after taken) := by
  cases reply with
  | done more v u => exact ⟨hst.trans h.1, h.2⟩
  | failed more e u => exact hst.trans h

theorem Goes.mono {G' : ParseState → α → Prop} (h : Goes tokens s G p)
    (hG : ∀ t v, Reaches tokens s t → G t v → G' t v) : Goes tokens s G' p := by
  intro c
  have hreply := h c
  cases hrun : p c s with
  | done taken v t =>
    rw [hrun] at hreply
    exact ⟨hreply.1, hG t v hreply.1 hreply.2⟩
  | failed taken e t =>
    rw [hrun] at hreply
    exact hreply

theorem Goes.bind (hp : Goes tokens s G p)
    (hf : ∀ t v, Reaches tokens s t → G t v → Goes tokens t H (f v)) :
    Goes tokens s H (p >>= f) := by
  intro c
  have hreply := hp c
  cases hrun : p c s with
  | failed taken e t =>
    rw [hrun] at hreply
    rw [bind_of_failed hrun]
    exact hreply
  | done taken v t =>
    rw [hrun] at hreply
    rw [bind_of_done hrun]
    exact (hf t v hreply.1 hreply.2 c).after hreply.1 taken

theorem Goes.pure {v : α} (hs : s.On tokens) (hv : G s v) : Goes tokens s G (Pure.pure v) :=
  fun _ => ⟨hs.refl, hv⟩

theorem Goes.fail {failure : ParseFailure} (hs : s.On tokens) :
    Goes tokens s G (Parser.fail failure) :=
  fun _ => hs.refl

theorem Goes.look {v : α} (hp : ∀ c, p c s = .done false v s) (h : Goes tokens s H (f v)) :
    Goes tokens s H (p >>= f) := by
  intro c
  rw [bind_of_done (hp c), ParseReply.after_false]
  exact h c

theorem Goes.context {f : ParseContext → Parser β} (h : ∀ c, Goes tokens s H (f c)) :
    Goes tokens s H (Parser.context >>= f) := by
  intro c
  have hcontext : Parser.context c s = .done false c s := rfl
  rw [bind_of_done hcontext, ParseReply.after_false]
  exact h c c

theorem Goes.textOf {name : Name} {f : String → Parser β}
    (h : ∀ text, Goes tokens s H (f text)) : Goes tokens s H (Parser.textOf name >>= f) := by
  intro c
  have htext : Parser.textOf name c s = .done false (c.names.lookup name) s := rfl
  rw [bind_of_done htext, ParseReply.after_false]
  exact h _ c

theorem Goes.withLoops {change : List (Option Name) → List (Option Name)}
    (hp : Goes tokens s G p) : Goes tokens s G (Parser.withLoops change p) :=
  fun c => hp { c with loops := change c.loops }

theorem Goes.map {f : α → β} (hp : Goes tokens s (fun t v => H t (f v)) p) :
    Goes tokens s H (f <$> p) := by
  change Goes tokens s H (p >>= fun v => Pure.pure (f v))
  exact hp.bind fun t v hst hv => .pure hst.on hv

/-- What a round of a repetition leaves: a state for the next round, or the result. -/
def Turn (I : ParseState → σ → Prop) (G : ParseState → α → Prop) (t : ParseState) : σ ⊕ α → Prop
  | .inl next => I t next
  | .inr result => G t result

theorem Goes.repeating {step : σ → Parser (σ ⊕ α)} {start : σ} (I : ParseState → σ → Prop)
    (hs : s.On tokens) (hstart : I s start)
    (hstep : ∀ t v, Reaches tokens s t → I t v → Goes tokens t (Turn I G) (step v)) :
    Goes tokens s G (Parser.repeating step start) := by
  intro c
  suffices h : ∀ steps before t v, Reaches tokens s t → I t v →
      Arrives tokens s G (Parser.loop step steps before v c t) from
    h (c.rounds + 1) false s start hs.refl hstart
  intro steps
  induction steps with
  | zero => exact fun before t v hst _ => hst
  | succ steps ih =>
    intro before t v hst hv
    have hround := hstep t v hst hv c
    rw [loop_succ]
    cases hrun : step v c t with
    | failed more e u =>
      rw [hrun] at hround
      exact hst.trans hround
    | done more r u =>
      rw [hrun] at hround
      obtain ⟨htu, hturn⟩ := hround
      cases r with
      | inr result => exact ⟨hst.trans htu, hturn⟩
      | inl next => exact ih (before || more) u next (hst.trans htu) hturn

theorem Goes.orStop (hp : Goes tokens s G p) :
    Goes tokens s (fun t r => ∀ v, r = .ok v → G t v) (Parser.orStop p) := by
  intro c
  have hreply := hp c
  unfold Parser.orStop
  cases hrun : p c s with
  | done taken v t =>
    rw [hrun] at hreply
    refine ⟨hreply.1, fun w hw => ?_⟩
    cases hw
    exact hreply.2
  | failed taken e t =>
    rw [hrun] at hreply
    cases taken with
    | true => exact hreply
    | false =>
      cases e with
      | fault d => exact ⟨hreply, fun w hw => by cases hw⟩
      | tooLong count => exact hreply
      | exhausted => exact hreply

/-! ## Single steps -/

theorem Goes.current {f : Token → Parser β} (h : InOrder tokens) (hs : s.On tokens)
    (hf : ∀ token rest, s.ahead = token :: rest → Goes tokens s H (f token)) :
    Goes tokens s H (Parser.current >>= f) := by
  obtain ⟨token, rest, hahead⟩ := hs.exists_ahead h
  exact .look (fun _ => current_of_ahead hahead) (hf token rest hahead)

theorem currentSpan_eq (c : ParseContext) : currentSpan c s = .done false s.span s := rfl

theorem goes_warn (code : Code) (span : Span) (args : List String) (hs : s.On tokens) :
    Goes tokens s (fun _ _ => True) (warn code span args) :=
  fun _ => ⟨⟨le_refl _, Nat.le_refl _, Nat.le_refl _, hs.split, hs.arena⟩, trivial⟩

theorem goes_atBoundary (hs : s.On tokens) : Goes tokens s (fun t _ => t = s) atBoundary := by
  refine .look (fun _ => rfl) ?_
  split <;> exact .pure hs rfl

theorem goes_failFound (code : Code) (hs : s.On tokens) :
    Goes tokens s G (failFound code) := fun _ => hs.refl

theorem goes_failExpected (what : String) (hs : s.On tokens) :
    Goes tokens s G (failExpected what) := fun _ => hs.refl

/-! ## Storing -/

/-- A list of children is stored before the node that they belong to. -/
theorem Goes.store {table : Arena → Array α} {put : Arena → Array α → Arena} {items : List α}
    {f : Run α → Parser β}
    (hput : ∀ b, b ≤ put b (table b ++ items.toArray) ∧
      table (put b (table b ++ items.toArray)) = table b ++ items.toArray ∧
      (put b (table b ++ items.toArray)).nodes = b.nodes)
    (hs : s.On tokens)
    (hf : ∀ t run, Reaches tokens s t → t.front = s.front →
      run.entries? (table t.arena) = some items → Goes tokens t H (f run)) :
    Goes tokens s H (Parser.store table put items >>= f) := by
  intro c
  by_cases hlength : items.length ≤ maxRunLength
  · obtain ⟨hgrows, htable, hnodes⟩ := hput s.arena
    have hstore : Parser.store table put items c s =
        .done false (appendRun (table s.arena) items).1
          { s with arena := put s.arena (table s.arena ++ items.toArray) } := by
      simp [Parser.store, hlength, appendRun]
    have hreaches : Reaches tokens s
        { s with arena := put s.arena (table s.arena ++ items.toArray) } :=
      ⟨hgrows, Nat.le_refl _, Nat.le_refl _, hs.split, hs.arena.tables hgrows hnodes⟩
    rw [bind_of_done hstore]
    refine (hf _ _ hreaches rfl ?_ c).after hreaches false
    rw [htable]
    exact entries?_appendRun ..
  · have hstore : Parser.store table put items c s = .failed false (.tooLong items.length) s := by
      simp [Parser.store, hlength]
    rw [bind_of_failed hstore]
    exact hs.refl

theorem Goes.storeList {items : List NodeId} {f : Run NodeId → Parser β} (hs : s.On tokens)
    (hf : ∀ t run, Reaches tokens s t → t.front = s.front →
      run.entries? t.arena.lists = some items → Goes tokens t H (f run)) :
    Goes tokens s H (Parser.storeList items >>= f) :=
  .store (fun _ => ⟨by constructor <;> simp, rfl, rfl⟩) hs hf

theorem Goes.storeSpecs {items : List IndexSpec} {f : Run IndexSpec → Parser β} (hs : s.On tokens)
    (hf : ∀ t run, Reaches tokens s t → t.front = s.front →
      run.entries? t.arena.specs = some items → Goes tokens t H (f run)) :
    Goes tokens s H (Parser.storeSpecs items >>= f) :=
  .store (fun _ => ⟨by constructor <;> simp, rfl, rfl⟩) hs hf

theorem Goes.storeBranches {items : List Branch} {f : Run Branch → Parser β} (hs : s.On tokens)
    (hf : ∀ t run, Reaches tokens s t → t.front = s.front →
      run.entries? t.arena.branches = some items → Goes tokens t H (f run)) :
    Goes tokens s H (Parser.storeBranches items >>= f) :=
  .store (fun _ => ⟨by constructor <;> simp, rfl, rfl⟩) hs hf

theorem Goes.storeArms {items : List CaseArm} {f : Run CaseArm → Parser β} (hs : s.On tokens)
    (hf : ∀ t run, Reaches tokens s t → t.front = s.front →
      run.entries? t.arena.arms = some items → Goes tokens t H (f run)) :
    Goes tokens s H (Parser.storeArms items >>= f) :=
  .store (fun _ => ⟨by constructor <;> simp, rfl, rfl⟩) hs hf

theorem Goes.storeParams {items : List Parameter} {f : Run Parameter → Parser β} (hs : s.On tokens)
    (hf : ∀ t run, Reaches tokens s t → t.front = s.front →
      run.entries? t.arena.params = some items → Goes tokens t H (f run)) :
    Goes tokens s H (Parser.storeParams items >>= f) :=
  .store (fun _ => ⟨by constructor <;> simp, rfl, rfl⟩) hs hf

theorem Goes.storeArgs {items : List Argument} {f : Run Argument → Parser β} (hs : s.On tokens)
    (hf : ∀ t run, Reaches tokens s t → t.front = s.front →
      run.entries? t.arena.args = some items → Goes tokens t H (f run)) :
    Goes tokens s H (Parser.storeArgs items >>= f) :=
  .store (fun _ => ⟨by constructor <;> simp, rfl, rfl⟩) hs hf

theorem lays_node {expr : Expr} {span : Span} {early : Nat} {parts : List Child}
    (hst : Reaches tokens s t) (halong : span.Along tokens) (hlo : s.next ≤ span.start.offset)
    (hhi : span.stop.offset ≤ t.front) (hparts : expr.layout? t.arena early = some parts)
    (hspread : t.arena.Spread tokens span.start.offset span.stop.offset parts) :
    LaysFrom tokens s t (node expr span) := by
  intro c
  have hgrows := t.arena.le_push ⟨expr, span⟩
  have hnew := t.arena.node?_push ⟨expr, span⟩
  have hlaid : (t.arena.push ⟨expr, span⟩).2.Laid tokens :=
    hst.on.arena.push ⟨halong, early, parts, hparts, hspread⟩
  exact ⟨⟨hgrows, Nat.le_refl _, Nat.le_refl _, hst.on.split, hlaid⟩,
    .single ⟨expr, hnew⟩ halong hlo hhi⟩

/-! ## Taking tokens -/

section
variable (h : InOrder tokens)
include h

theorem Goes.take {f : Token → Parser β} {token : Token} {rest : List Token} (hs : s.On tokens)
    (hahead : s.ahead = token :: rest) (hkind : token.kind.Takable)
    (hf : Reaches tokens s (s.past token rest) → Goes tokens (s.past token rest) H (f token)) :
    Goes tokens s H (advance >>= f) := by
  intro c
  have hpast := hs.past h hahead hkind
  rw [bind_of_done (advance_of_ahead hahead hkind)]
  exact (hf hpast c).after hpast true

theorem Goes.begins {f : Token → Parser β} (hs : s.On tokens) (hkind : s.kind.Takable)
    (hf : ∀ t token, Begins tokens s t token.span → Goes tokens t H (f token)) :
    Goes tokens s H (advance >>= f) := by
  obtain ⟨token, rest, hahead⟩ := hs.exists_ahead h
  rw [kind_of_ahead hahead] at hkind
  exact .take h hs hahead hkind fun _ => hf _ token (.of_past h hs hahead hkind)

theorem Goes.passes {q : Parser β} (hs : s.On tokens) (hkind : s.kind.Takable)
    (hq : ∀ t, Begins tokens s t s.span → Goes tokens t H q) :
    Goes tokens s H (advance >>= fun _ => q) := by
  obtain ⟨token, rest, hahead⟩ := hs.exists_ahead h
  rw [kind_of_ahead hahead] at hkind
  refine .take h hs hahead hkind fun _ => hq _ ?_
  rw [span_of_ahead hahead]
  exact .of_past h hs hahead hkind

theorem goes_advance (hs : s.On tokens) : Goes tokens s (fun _ _ => True) advance := by
  intro c
  obtain ⟨token, rest, hahead⟩ := hs.exists_ahead h
  by_cases hkind : s.kind.Takable
  · rw [kind_of_ahead hahead] at hkind
    rw [advance_of_ahead hahead hkind]
    exact ⟨hs.past h hahead hkind, trivial⟩
  · rw [advance_of_not hkind]
    exact ⟨hs.refl, trivial⟩

theorem Goes.eat {f : Bool → Parser β} {mark : Mark} (hs : s.On tokens) (hmark : mark ≠ .eof)
    (hyes : ∀ t, Begins tokens s t s.span → Goes tokens t H (f true))
    (hno : Goes tokens s H (f false)) : Goes tokens s H (Parser.eat mark >>= f) := by
  rw [eat_then]
  refine .look (fun _ => check_eq mark) ?_
  split
  next hfound => exact .passes h hs (.of_isMark hfound hmark) hyes
  next => exact hno

theorem Goes.eatKeyword {f : Bool → Parser β} {word : Keyword} (hs : s.On tokens)
    (hyes : ∀ t, Begins tokens s t s.span → Goes tokens t H (f true))
    (hno : Goes tokens s H (f false)) : Goes tokens s H (Parser.eatKeyword word >>= f) := by
  rw [eatKeyword_then]
  refine .look (fun _ => checkKeyword_eq word) ?_
  split
  next hfound => exact .passes h hs (.of_isKeyword hfound) hyes
  next => exact hno

theorem goes_skipNewlines (hs : s.On tokens) : Goes tokens s (fun _ _ => True) skipNewlines := by
  refine .repeating (fun _ _ => True) hs trivial fun t _ hst _ => ?_
  refine .eat h hst.on (by simp) (fun u htu => ?_) ?_
  · exact .pure htu.reaches.on trivial
  · exact .pure hst.on trivial

theorem goes_identifier (code : Code) (hs : s.On tokens) :
    Goes tokens s (fun _ _ => True) (identifier code) := by
  refine .current h hs fun token rest _ => ?_
  split
  · exact (goes_advance h hs).bind fun t _ hst _ => .pure hst.on trivial
  · exact goes_failFound code hs

theorem goes_expectCloser (bracket : Bracket) (opened : Span) (stopped : Option Diagnostic)
    (hs : s.On tokens) :
    Goes tokens s (fun t closed => Closes tokens s t closed)
      (expectCloser bracket opened stopped) := by
  refine (goes_skipNewlines h hs).bind fun t _ hst _ => ?_
  obtain ⟨token, rest, hahead⟩ := hst.on.exists_ahead h
  refine .look (fun _ => check_eq _) ?_
  split
  next hfound =>
    rw [kind_of_ahead hahead] at hfound
    have hkind : token.kind.Takable := .of_isMark hfound (by simp)
    have hcloses : Closes tokens t (t.past token rest) token.span :=
      ⟨h.along (hst.on.mem_of_ahead hahead) hkind, Nat.le_of_eq (next_of_ahead hahead), rfl⟩
    exact .take h hst.on hahead hkind fun hpast => .pure hpast.on (hcloses.earlier hst)
  next =>
    refine .look (fun _ => check_eq _) ?_
    split
    · exact .fail hst.on
    · split
      · exact .fail hst.on
      · exact goes_failExpected _ hst.on

/-! ## Constructs -/

/-- A node from the beginning of its construct up to the last token taken, around all that was built
behind the beginning. -/
theorem lays_over {expr : Expr} {start span : Span} {early : Nat} {parts : List Child}
    (hbegins : Begins tokens s t start) (htu : Reaches tokens t u) (halong : span.Along tokens)
    (hstart : span.start = start.start) (hstop : span.stop.offset = u.front)
    (hparts : expr.layout? u.arena early = some parts) (hbetween : Between tokens t u parts) :
    LaysFrom tokens s u (node expr span) := by
  refine lays_node (hbegins.reaches.trans htu) halong (hstart ▸ hbegins.lo) (Nat.le_of_eq hstop)
    hparts ?_
  rw [hstart, hstop]
  exact hbegins.around h hbetween

theorem lays_spanFrom {expr : Expr} {start : Span} {early : Nat} {parts : List Child}
    (hbegins : Begins tokens s t start) (htu : Reaches tokens t u)
    (hparts : expr.layout? u.arena early = some parts) (hbetween : Between tokens t u parts) :
    LaysFrom tokens s u (spanFrom start >>= fun span => node expr span) := by
  have hlater := hbegins.later htu
  obtain ⟨span, hspan, halong, hstart, hstop⟩ :=
    htu.on.exists_spanFrom h hbegins.along hlater.lt_front hlater.taken
  exact .look hspan (lays_over h hbegins htu halong hstart hstop hparts hbetween)

theorem lays_brackets {expr : Expr} {opened closed : Span} {early : Nat} {parts : List Child}
    (hbegins : Begins tokens s t opened) (htu : Reaches tokens t u)
    (hcloses : Closes tokens t u closed) (hparts : expr.layout? u.arena early = some parts)
    (hbetween : Between tokens t u parts) :
    LaysFrom tokens s u (node expr (opened.merge closed)) := by
  have hbehind := hbegins.before_of_next h hcloses.lo
  have hpos := hbegins.along.pos
  have hpos' := hcloses.along.pos
  unfold Span.Before at hbehind
  refine lays_over h hbegins htu (hbegins.along.merge hcloses.along)
    (Span.merge_start (by omega)) ?_ hparts hbetween
  rw [Span.merge_stop_offset (by omega), hcloses.stop]

omit h in
theorem spanOf_of_hasSpan {id : NodeId} {span : Span} (hspan : t.arena.HasSpan id span)
    (c : ParseContext) : Parser.spanOf id c t = .done false span t := by
  rw [← hspan.spanOf]
  rfl

omit h in
theorem exists_begins {first : NodeId} {rest : List Child} (hst : Reaches tokens s t)
    (hbetween : Between tokens s t (.node first :: rest)) :
    ∃ start, t.arena.HasSpan first start ∧ Begins tokens s t start ∧
      t.arena.Spread tokens start.start.offset t.front (.node first :: rest) := by
  obtain ⟨start, hat, halong, hlo, hhi, hspread⟩ := Arena.Spread.exists_first hbetween
  exact ⟨start, hat, ⟨hst, halong, hlo, hhi⟩, hspread⟩

theorem lays_spanFrom_first {expr : Expr} {first : NodeId} {early : Nat} {rest : List Child}
    (hst : Reaches tokens s t) (hparts : expr.layout? t.arena early = some (.node first :: rest))
    (hbetween : Between tokens s t (.node first :: rest)) :
    LaysFrom tokens s t
      (Parser.spanOf first >>= fun start => spanFrom start >>= fun span => node expr span) := by
  obtain ⟨start, hat, hbegins, hspread⟩ := exists_begins hst hbetween
  obtain ⟨span, hspan, halong, hsame, hstop⟩ :=
    hst.on.exists_spanFrom h hbegins.along hbegins.lt_front hbegins.taken
  refine .look (spanOf_of_hasSpan hat) (.look hspan ?_)
  refine lays_node hst halong (hsame ▸ hbegins.lo) (Nat.le_of_eq hstop) hparts ?_
  rwa [hsame, hstop]

theorem lays_closed_first {expr : Expr} {first : NodeId} {early : Nat} {rest : List Child}
    {closed : Span} (hst : Reaches tokens s t) (htu : Reaches tokens t u)
    (hcloses : Closes tokens t u closed) (hfirst : Between tokens s t [.node first])
    (hparts : expr.layout? u.arena early = some (.node first :: rest))
    (hrest : Between tokens t u rest) :
    LaysFrom tokens s u
      (Parser.spanOf first >>= fun start => node expr (start.merge closed)) := by
  obtain ⟨start, hat, hbegins, hspread⟩ := exists_begins hst hfirst
  have hbehind : start.stop.offset ≤ closed.start.offset := hbegins.before_of_next h hcloses.lo
  have hpos := hbegins.along.pos
  have hpos' := hcloses.along.pos
  have hnext := hst.on.front_le_next h
  have htaken := hbegins.taken
  have hstop : (start.merge closed).stop.offset = u.front := by
    rw [Span.merge_stop_offset (by omega), hcloses.stop]
  have hstart : (start.merge closed).start = start.start := Span.merge_start (by omega)
  refine .look (spanOf_of_hasSpan (hat.mono htu.arena)) ?_
  refine lays_node (hst.trans htu) (hbegins.along.merge hcloses.along) (hstart ▸ hbegins.lo)
    (Nat.le_of_eq hstop) hparts ?_
  rw [hstart, hstop]
  exact (hspread.mono htu.arena).append hrest (by omega) hnext htu.front

/-- What is marked with a span of its own, up to the last token taken. -/
theorem exists_marked (inner : Option NodeId) {start : Span} (hbegins : Begins tokens s t start)
    (hinner : t.arena.Spread tokens start.start.offset t.front (inner.toList.map .node)) :
    ∃ span, (∀ c, spanFrom start c t = .done false span t) ∧
      Between tokens s t [.marked span inner] := by
  obtain ⟨span, hspan, halong, hstart, hstop⟩ :=
    hbegins.reaches.on.exists_spanFrom h hbegins.along hbegins.lt_front hbegins.taken
  refine ⟨span, hspan, .single ⟨rfl, fun id hid => ?_⟩ halong (hstart ▸ hbegins.lo)
    (Nat.le_of_eq hstop)⟩
  obtain rfl : inner = some id := hid
  obtain ⟨part, hat, -, hlo, hhi, -⟩ := Arena.Spread.exists_first hinner
  exact ⟨part, hat, hstart ▸ hlo, hstop ▸ hhi⟩

end
end Parser
end ExprScript
