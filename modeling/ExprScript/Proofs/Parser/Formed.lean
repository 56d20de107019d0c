import ExprScript.Proofs.Parser.Operators
import ExprScript.Proofs.Parser.Rules

/-!
# Parsed nodes are formed

Every production gives a formed node for the loops around it, if the grammar that it uses for nested
expressions does. So the labels that the parser keeps are those of the loops in which code will run,
but for the defaults of parameters: these are parsed inside the loops around their function.
-/
namespace ExprScript

namespace Parser

variable {loops : Loops} {a : Arena}

theorem grammar_forms (level : Nat) : Forms (grammar level) := by
  induction level with
  | zero => exact fun place loops a => .fail _
  | succ level ih =>
    intro place loops a c s hc hs
    have h := builds_production ih place c s hc hs
    simpa only [grammar, atLevel_eq] using h

theorem builds_programBody {g : Grammar} (hg : Forms g) :
    Builds loops a (fun b body => ParsedList loops b body.1) (programBody g) := by
  refine (builds_statements hg).bind fun b body _ hbody => (quiet_check .eof).then fun _ => ?_
  split
  · exact .pure fun c hbc => hbody.mono hbc
  · have hstray : Quiet (strayToken body.stopped) := by
      refine quiet_current.bind fun token => ?_
      split
      · exact .pure _
      · exact .pure _
      · exact quiet_describeCurrent.bind fun _ => .pure _
    exact hstray.then fun d => .pure fun c hbc => hbody.mono hbc

theorem builds_rootBlock (start : Span) {nodes : List NodeId} (hnodes : ParsedList loops a nodes) :
    Builds loops a (Parsed loops) (rootBlock start nodes) := by
  refine (builds_storeList nodes).bind fun b list hab hlist => (quiet_spanFrom _).then fun _ => ?_
  have hparts : (Expr.block list).parts? b = some (beside nodes) := by simp [Expr.parts?, hlist]
  exact .node (parsed_beside hparts rfl (hnodes.mono hab)) _

end Parser

theorem finishParse_formed {context : ParseContext} {start : Span} {nodes : List NodeId}
    {error : Option Diagnostic} {s : ParseState} {result : ParseResult}
    (hnodes : Parser.ParsedList context.loops s.arena nodes)
    (h : finishParse context start nodes error s = .ok result) :
    Parsed context.loops result.arena result.root := by
  have hroot := Parser.builds_rootBlock start hnodes context s rfl (le_refl _)
  unfold finishParse at h
  cases hrun : Parser.rootBlock start nodes context s with
  | done taken root t =>
    rw [hrun] at hroot h
    cases h
    exact hroot.2
  | failed taken e t =>
    rw [hrun] at h
    cases e <;> cases h

/-- Whatever is parsed, the root is formed outside of loops. -/
theorem parse_formed {tokens : List Token} {names : Interner} {result : ParseResult}
    (h : parse tokens names = .ok result) : Parsed [] result.arena result.root := by
  rw [parse_eq, measuredParse] at h
  generalize levelsFor (tokens.length + 1) = levels at h
  have hbody := Parser.builds_programBody (Parser.grammar_forms levels) ⟨names, [], tokens.length⟩
    ⟨tokens, none, Arena.empty, #[]⟩ rfl (le_refl _)
  cases hrun : Parser.programBody (Parser.grammar levels) ⟨names, [], tokens.length⟩
      ⟨tokens, none, Arena.empty, #[]⟩ with
  | done taken body s =>
    rw [hrun] at hbody h
    exact finishParse_formed hbody.2 h
  | failed taken e s =>
    rw [hrun] at h
    cases e with
    | fault d => exact finishParse_formed (fun _ h => by cases h) h
    | tooLong count => cases h
    | exhausted => cases h

end ExprScript
