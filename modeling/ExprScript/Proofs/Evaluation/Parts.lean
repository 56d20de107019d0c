import ExprScript.Proofs.Evaluation.Discipline
import ExprScript.Proofs.Tree.Signals

/-!
# Parts by where they run

A discipline asks for the parts of every expression in a way of its own. But what is asked of a part
depends on nothing but where it runs, so a discipline that does not look at expressions may be shown
to be lawful at once for all of them.
-/
namespace ExprScript.Discipline

variable {D : Discipline} {region : D.Region}

def part (D : Discipline) (region : D.Region) : Part → Prop
  | (.beside, id) => D.node region id
  | (.inLoop label, id) => D.node (D.insideLoop label region) id
  | (.inFunction, id) | (.asDefault, id) =>
    ∀ f : Function, f.script = D.scriptOf region → D.node (D.ofFunction f) id

theorem entries_of {α : Type} {run : Run α} {table : Arena → Array α} {G : α → Prop}
    {items : List α} (hitems : run.entries? (table (D.scriptOf region).arena) = some items)
    (hG : ∀ item ∈ items, G item) : D.entries region run table G := by
  unfold entries
  rw [hitems]
  exact hG

/-- An expression has what is asked for if all its parts may be evaluated where they run, its signal
may be sent and its arguments point into the text. -/
theorem parts_of {expr : Expr} {parts : List Part}
    (hparts : expr.parts? (D.scriptOf region).arena = some parts)
    (hall : ∀ part ∈ parts, D.part region part)
    (hsignal : ∀ label, expr.signal? = some label → D.signal region label)
    (hargs : ∀ arg ∈ (D.scriptOf region).arena.args, D.points region arg.span) :
    D.parts region expr := by
  have hbeside : ∀ id, (.beside, id) ∈ parts → D.node region id :=
    fun id hid => hall (.beside, id) hid
  have hoptional : ∀ part : Option NodeId, (∀ id, part = some id → (.beside, id) ∈ parts) →
      D.optional region part := fun part hpart id hid => hbeside id (hpart id hid)
  cases expr with
  | int n => trivial
  | float x => trivial
  | str name => trivial
  | ident name => trivial
  | list run | block run =>
    obtain ⟨items, hitems, rfl⟩ := Option.map_eq_some_iff.mp hparts
    exact entries_of hitems fun id hid => hbeside id (by simpa [beside] using hid)
  | index target run =>
    obtain ⟨specs, hspecs, rfl⟩ := Option.map_eq_some_iff.mp hparts
    refine ⟨hbeside target (by simp [beside]), entries_of hspecs fun spec hspec => ?_⟩
    have hnode : ∀ id ∈ spec.nodes, D.node region id := fun id hid =>
      hbeside id (by simpa [beside] using .inr ⟨spec, hspec, hid⟩)
    cases spec with
    | single index => exact hnode index (by simp [IndexSpec.nodes])
    | range first last =>
      exact ⟨hnode first (by simp [IndexSpec.nodes]), hnode last (by simp [IndexSpec.nodes])⟩
  | member target name =>
    cases hparts
    exact hbeside target (by simp [beside])
  | cast operand type =>
    cases hparts
    exact hbeside operand (by simp [beside])
  | binary op left right =>
    cases hparts
    exact ⟨hbeside left (by simp [beside]), hbeside right (by simp [beside])⟩
  | unary op operand =>
    cases hparts
    exact hbeside operand (by simp [beside])
  | ternary condition positive negative =>
    cases hparts
    exact ⟨hbeside condition (by simp [beside]),
      hoptional _ (by simp +contextual [beside]),
      hoptional _ (by simp +contextual [beside])⟩
  | declare type name value yields =>
    cases hparts
    exact hoptional _ (by simp +contextual [beside])
  | assign name op value yields =>
    cases hparts
    exact hbeside value (by simp [beside])
  | ifElse run otherwise =>
    obtain ⟨branches, hbranches, rfl⟩ := Option.map_eq_some_iff.mp hparts
    refine ⟨entries_of hbranches fun branch hbranch => ?_,
      hoptional _ (by simp +contextual [beside])⟩
    exact ⟨hbeside branch.condition (by simpa [beside] using .inl ⟨branch, hbranch, .inl rfl⟩),
      hbeside branch.body (by simpa [beside] using .inl ⟨branch, hbranch, .inr rfl⟩)⟩
  | caseOf subject run otherwise =>
    obtain ⟨arms, harms, rfl⟩ := Option.map_eq_some_iff.mp hparts
    refine ⟨hbeside subject (by simp [beside]), entries_of harms fun arm harm => ?_,
      hoptional _ (by simp +contextual [beside])⟩
    exact ⟨hbeside arm.pattern (by simpa [beside] using .inr (.inl ⟨arm, harm, .inl rfl⟩)),
      hbeside arm.body (by simpa [beside] using .inr (.inl ⟨arm, harm, .inr rfl⟩))⟩
  | iterate label first last step counter body =>
    cases hparts
    exact ⟨hoptional _ (by simp +contextual [beside]),
      hbeside last (by simp [beside]),
      hoptional _ (by simp +contextual [beside]),
      hall (.inLoop label, body) (by simp)⟩
  | whileLoop label condition body =>
    cases hparts
    exact ⟨hbeside condition (by simp [beside]), hall (.inLoop label, body) (by simp)⟩
  | define name run body =>
    obtain ⟨params, hparams, rfl⟩ := Option.map_eq_some_iff.mp hparts
    refine ⟨entries_of hparams fun _ _ => trivial, fun f hscript _ hbody hf => ?_⟩
    cases hparams.symm.trans hf
    refine ⟨?_, fun param hparam id hid => ?_⟩
    · rw [hbody]
      exact hall (.inFunction, body) (by simp) f hscript
    · exact hall (.asDefault, id) (by simpa using ⟨param, hparam, hid⟩) f hscript
  | call callee run =>
    obtain ⟨args, hfound, rfl⟩ := Option.map_eq_some_iff.mp hparts
    refine ⟨hbeside callee (by simp [beside]), entries_of hfound fun arg harg => ⟨?_, ?_⟩⟩
    · exact hbeside arg.value (by simpa [beside] using .inr ⟨arg, harg, rfl⟩)
    · exact hargs arg (Run.mem_of_entries? hfound arg harg)
  | returnValue value guard =>
    cases hparts
    exact ⟨hoptional _ (by simp +contextual [beside]), hoptional _ (by simp +contextual [beside])⟩
  | breakLoop label guard | continueLoop label guard =>
    cases hparts
    exact ⟨hsignal label rfl, hoptional _ (by simp +contextual [beside])⟩

end ExprScript.Discipline
