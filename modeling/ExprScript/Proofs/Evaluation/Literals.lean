import ExprScript.Proofs.Evaluation.Signals
import ExprScript.Proofs.Tree.Literals

/-!
# Evaluating spelled values

An expression that spells a value evaluates to it wherever the names of the constants mean the
constants, and nothing but the value comes of it.
-/
namespace ExprScript

/-- Whether the names of the constants mean the constants where a machine stands. -/
def Machine.HasConstants (m : Machine) : Prop :=
  ∀ value text name, Value.constant? value = some text → m.names.Knows text name →
    m.scopes.entry? m.context.scope name = some (.constant value)

namespace Eval

variable {α β : Type} {p : Eval α} {a : α} {m n : Machine}

theorem bind_of_ok (h : p m = .ok a n) (f : α → Eval β) : (p >>= f) m = f a n := by
  rw [bind_apply, h]

/-- What leaves the machine as it is may be done again and again. -/
theorem mapM_in_place {f : α → Eval β} {as : List α} {bs : List β} (hlength : as.length = bs.length)
    (h : ∀ pair ∈ as.zip bs, f pair.1 m = .ok pair.2 m) : as.mapM f m = .ok bs m := by
  induction as generalizing bs with
  | nil =>
    obtain rfl : bs = [] := List.length_eq_zero_iff.mp hlength.symm
    rfl
  | cons a as ih =>
    cases bs with
    | nil => cases hlength
    | cons b bs =>
      rw [List.zip_cons_cons] at h
      obtain ⟨hfirst, hrest⟩ := List.forall_mem_cons.mp h
      rw [List.mapM_cons, bind_of_ok hfirst, bind_of_ok (ih (Nat.succ.inj hlength) hrest)]
      rfl

theorem eval_node {id : NodeId} {node : Node} (hnode : m.context.script.arena.node? id = some node)
    {level : Nat} (hlevel : id.index < level) :
    ∃ fewer, id.index ≤ fewer ∧
      eval level (.node id) m = evalExpr (eval fewer) fewer node.span node.expr m := by
  obtain ⟨fewer, rfl⟩ : ∃ fewer, level = fewer + 1 := ⟨level - 1, by omega⟩
  have hfound : Eval.node id m = .ok node m := by
    unfold Eval.node
    rw [hnode]
  refine ⟨fewer, Nat.le_of_lt_succ hlevel, ?_⟩
  rw [Simulation.eval_succ, runTask, bind_of_ok hfound]

theorem entries_of_some {run : Run α} {table : Arena → Array α} {items : List α}
    (h : run.entries? (table m.context.script.arena) = some items) :
    entries run table m = .ok items m := by
  unfold entries
  rw [h]

/-- A sign before an int gives its opposite. -/
theorem negate_of_neg {opposite n : Int64} (h : Int64Ops.neg? opposite = some n) (span : Span) :
    Operate.unary .neg ⟨.int opposite, span⟩ = .ok (.int n) := by
  simp [Operate.unary, Operate.sign, Operate.signed, Operate.negate, Value.toNumber?, h]
  rfl

/-- An expression that spells a value evaluates to the value, and leaves the machine as it is. -/
theorem eval_spells {value : Value} {tree : SyntaxTree} (h : m.names.Spells value tree)
    (hsound : m.names.Sound) (hconstants : m.HasConstants)
    (hformed : m.context.script.arena.WellFormed) {id : NodeId}
    (hid : m.context.script.arena.Denotes id tree) {level : Nat} (hlevel : id.index < level) :
    eval level (.node id) m = .ok value m := by
  induction h generalizing id level with
  | @constant value text name hconstant hname =>
    obtain ⟨span, hnode⟩ := hid.ident
    obtain ⟨fewer, -, heval⟩ := eval_node hnode hlevel
    have hentry : entry? name m = .ok (some (.constant value)) m := by
      unfold entry?
      rw [hconstants value text name hconstant hname]
    rw [heval, evalExpr, evalIdent, bind_of_ok hentry]
    rfl
  | int n =>
    obtain ⟨span, hnode⟩ := hid.int
    obtain ⟨fewer, -, heval⟩ := eval_node hnode hlevel
    rw [heval]
    rfl
  | @negative n opposite hopposite =>
    obtain ⟨inner, span, hnode, hinner⟩ := hid.unary
    obtain ⟨fewer, hfewer, heval⟩ := eval_node hnode hlevel
    obtain ⟨_, hids, hbefore⟩ := hformed id _ hnode
    cases hids
    obtain ⟨innerSpan, hliteral⟩ := hinner.int
    obtain ⟨least, -, hint⟩ :=
      eval_node hliteral (Nat.lt_of_lt_of_le (hbefore inner List.mem_cons_self) hfewer)
    have hoperand : eval fewer (.node inner) m = .ok (.int opposite) m := hint
    rw [heval, evalExpr, bind_of_ok hoperand, negate_of_neg hopposite]
    rfl
  | @str text name hname =>
    obtain ⟨span, hnode⟩ := hid.str
    obtain ⟨fewer, -, heval⟩ := eval_node hnode hlevel
    have htext : Eval.text name m = .ok text m := by
      unfold Eval.text
      rw [hsound.lookup hname]
    rw [heval, evalExpr, bind_of_ok htext]
    rfl
  | @list items trees hlength hitems ih =>
    obtain ⟨run, ids, span, hnode, hentries, hcount, hchildren⟩ := hid.list
    obtain ⟨fewer, hfewer, heval⟩ := eval_node hnode hlevel
    obtain ⟨_, hids, hbefore⟩ := hformed id _ hnode
    have hsame : Expr.children? m.context.script.arena (.list run) = some ids := by
      simp [Expr.children?, Expr.parts?, hentries]
    cases hsame.symm.trans hids
    have hvalues : ids.mapM (fun child => eval fewer (.node child)) m = .ok items m := by
      apply mapM_in_place (hcount.trans hlength)
      intro pair hpair
      obtain ⟨i, hi, rfl⟩ := List.mem_iff_getElem.mp hpair
      have hchild : i < ids.length := by
        rw [List.length_zip] at hi
        omega
      have htree : i < trees.length := by omega
      have hitem : i < items.length := by omega
      rw [List.getElem_zip]
      apply ih (items[i], trees[i]) (getElem_mem_zip hitem htree)
      · exact hchildren (ids[i], trees[i]) (getElem_mem_zip hchild htree)
      · exact Nat.lt_of_lt_of_le (hbefore _ (List.getElem_mem hchild)) hfewer
    rw [heval, evalExpr, bind_of_ok (entries_of_some hentries), bind_of_ok hvalues]
    rfl

/-- A program of one expression that spells a value gives the value, and changes nothing. -/
theorem program_spells {value : Value} {tree : SyntaxTree} (h : m.names.Spells value tree)
    (hsound : m.names.Sound) {script : Script} (hconstants : (m.atTop script).HasConstants)
    (hformed : script.arena.WellFormed) {run : Run NodeId} {span : Span} {id : NodeId}
    (hroot : script.arena.node? script.root = some ⟨.block run, span⟩)
    (hstatements : run.entries? script.arena.lists = some [id])
    (hid : script.arena.Denotes id tree) {level : Nat} (hlevel : script.arena.size < level) :
    eval level (.program script) m = .ok value m := by
  obtain ⟨fewer, rfl⟩ : ∃ fewer, level = fewer + 1 := ⟨level - 1, by omega⟩
  have hlt : id.index < fewer := by
    obtain ⟨_, _, _, hnode, -⟩ := hid.node
    exact Nat.lt_of_lt_of_le (Arena.lt_size_of_node? hnode) (Nat.le_of_lt_succ hlevel)
  have hblock : Eval.node script.root (m.atTop script) =
      .ok ⟨.block run, span⟩ (m.atTop script) := by
    have hroot : (m.atTop script).context.script.arena.node? script.root = _ := hroot
    unfold Eval.node
    rw [hroot]
  have hvalue : eval fewer (.node id) (m.atTop script) = .ok value (m.atTop script) :=
    eval_spells (m := m.atTop script) h hsound hconstants hformed hid hlt
  have hrun : runInPlace (fun id => eval fewer (.node id)) script.root (m.atTop script) =
      .ok value (m.atTop script) := by
    have hentries : entries run Arena.lists (m.atTop script) = .ok [id] (m.atTop script) :=
      entries_of_some hstatements
    rw [runInPlace, bind_of_ok hblock]
    dsimp only
    rw [bind_of_ok hentries, runStatements, List.foldlM_cons, bind_of_ok hvalue]
    rfl
  rw [Simulation.eval_succ]
  unfold Machine.atTop at hrun
  simp only [runTask, runProgram, inProgram, elsewhere, stoppedAtTop, sourced, completeFault, hrun]

end Eval
end ExprScript
