import ExprScript.Proofs.Parser.Roundtrip
import ExprScript.Proofs.Session.Brackets
import ExprScript.Proofs.Session.Constants
import ExprScript.Proofs.Token.Literals

/-!
# Reading a value back

The display form of a value, fed to a session as a program, gives the value again: it is lexed to
the tokens of an expression that spells the value, the parser reads this expression back, and it
evaluates to the value.
-/
namespace ExprScript

/-- What the tokens of an expression are parsed to is sound, and they close what they open. -/
theorem parse_whole {tree : SyntaxTree} (hfits : tree.Fits) {tokens : List Token}
    (names : Interner) (hends : EndsOnce tokens)
    (htokens : tokens.map (·.kind) = tree.tokens ++ [.mark .eof]) :
    bracketDepth tokens = 0 ∧
      ∃ result run span id, parse tokens names = .ok result ∧
        (result.error = none ∧ result.warnings = []) ∧ result.arena.WellFormed ∧
        result.arena.node? result.root = some ⟨.block run, span⟩ ∧
        run.entries? result.arena.lists = some [id] ∧ result.arena.Denotes id tree := by
  obtain ⟨result, run, span, id, hparse, ⟨herror, hquiet⟩, hroot⟩ := parse_quiet hfits names htokens
  constructor
  · have hnested : WellNested tokens := by
      have hjudges := parse_judges hends hparse
      rw [herror] at hjudges
      exact hjudges
    have hlength := length_openBrackets hnested
    rw [List.length_nil] at hlength
    omega
  · have hformed : result.arena.WellFormed := by
      have hspans : ∀ token ∈ tokens, (fun _ : Span => True) token.span := fun _ _ => trivial
      rcases parse_keeps Span.closed_true names hspans with
        ⟨_, -, hlong⟩ | ⟨other, hother, hkeeps⟩
      · rw [hparse] at hlong
        cases hlong
      · rw [hparse] at hother
        cases hother
        exact hkeeps.wellFormed
    exact ⟨result, run, span, id, hparse, ⟨herror, hquiet⟩, hformed, hroot⟩

namespace Session

variable {m : Machine} {value : Value}

def displayInput (name : String) (value : Value) (mayWait : Bool) : Input :=
  ⟨name, value.display, none, mayWait⟩

/-- Reading the display form of a value changes nothing but the names. -/
theorem tokensOf_display (h : value.Plain) (name : String) (mayWait : Bool) (m : Machine) :
    ∃ tokens tree names,
      tokensOf (displayInput name value mayWait) m = .ok tokens { m with names } ∧
      (m.names.Grows names ∧ (m.names.Sound → names.Sound)) ∧ names.Spells value tree ∧
      EndsOnce tokens ∧
      tokens.map (·.kind) = tree.tokens ++ [.mark .eof] := by
  obtain ⟨tokens, tree, names, hlex, hgrows, hspells, hkinds⟩ :=
    lexText_display h (startOf none) m.names
  have hends : EndsOnce ([] ++ tokens) := by
    apply endsOnce_of_lexText (congrArg LexResult.outcome hlex)
    simp
  refine ⟨tokens, tree, names, ?_, hgrows, hspells, hends, hkinds⟩
  have hfrom := (lexFrom_inputSource name value.display none m.names).trans hlex
  have hread : Eval.readTokens (inputSource name value.display none).1
      (inputSource name value.display none).2 m = .ok tokens { m with names } := by
    unfold Eval.readTokens
    rw [hfrom]
    rfl
  unfold tokensOf displayInput
  rw [Eval.bind_of_ok hread]
  rfl

theorem finish_spells {tree : SyntaxTree} (h : m.names.Spells value tree) (hplain : value.Plain)
    (hsound : m.names.Sound) (hconstants : ∀ script, (m.atTop script).HasConstants)
    {tokens : List Token} (hends : EndsOnce tokens)
    (htokens : tokens.map (·.kind) = tree.tokens ++ [.mark .eof]) (source : SourceFile)
    (mayWait : Bool) : finish source tokens mayWait m = (.finished value, m) := by
  obtain ⟨hdepth, result, run, span, id, hparse, ⟨herror, hquiet⟩, hformed, hroot, hstatements,
    hid⟩ := parse_whole (h.fits hplain) m.names hends htokens
  have hscript : Eval.readScript source tokens m =
      .ok ⟨source, result.arena, result.root⟩ m := by
    unfold Eval.readScript
    rw [hparse]
    dsimp only
    rw [herror, hquiet]
    rfl
  have hvalue := Eval.program_spells h hsound (hconstants ⟨source, result.arena, result.root⟩)
    hformed hroot hstatements hid (lt_maxLevels ⟨source, result.arena, result.root⟩)
  unfold finish
  rw [hdepth]
  simp only [hscript, hvalue]
  simp

/-- Whatever has happened to a session, the display form of a value, run as a program, gives the
value again. Nothing else comes of it but names for the texts in it: no warning, nothing printed,
and no change of a scope. A host may give a built-in function any name, also that of a constant,
which then means the function; this is left out. -/
theorem display_reads_back {config : SessionConfig} (host : Host)
    (hbuiltins : ∀ action ∈ config.builtins, action.name ∉ ["true", "false", "null"])
    (events : List Event) {value : Value} (hplain : value.Plain) (name : String) (mayWait : Bool) :
    let session := (new config host).afterAll events
    ∃ names, session.machine.names.Grows names ∧
      session.runInput name value.display none mayWait =
        (.finished value, { session with machine := { session.machine with names } }) := by
  intro session
  obtain ⟨hsound, hconstants⟩ := constants_kept host hbuiltins events
  obtain ⟨tokens, tree, names, hread, ⟨hgrows, hkept⟩, hspells, hends, hkinds⟩ :=
    tokensOf_display hplain name mayWait session.machine
  refine ⟨names, hgrows, ?_⟩
  have hfinish : ∀ source,
      finish source tokens mayWait { session.machine with names } =
        (.finished value, { session.machine with names }) :=
    fun source => finish_spells hspells hplain (hkept hsound)
      (fun script => hconstants names script hgrows) hends hkinds source mayWait
  calc session.runInput name value.display none mayWait
      = session.feed (displayInput name value mayWait) := rfl
    _ = (.finished value, { session with machine := { session.machine with names } }) := by
      rw [feed_eq_finish, hread]
      dsimp only [displayInput]
      rw [hfinish]

/-- `[null, true, -3, "a\"b\n", []]`, after an input that declares a variable by the name of a
constant. -/
theorem nested_list_reads_back :
    (∀ action ∈ ({} : SessionConfig).builtins, action.name ∉ ["true", "false", "null"]) ∧
    (Value.list [.null, .bool true, .int (-3), .str "a\"b\n", .list []]).Plain ∧
    let session := (new {} noHost).afterAll [.input ⟨"", "auto true :: 1", none, true⟩]
    let value : Value := .list [.null, .bool true, .int (-3), .str "a\"b\n", .list []]
    ∃ names, session.machine.names.Grows names ∧
      session.runInput "" value.display none true =
        (.finished value, { session with machine := { session.machine with names } }) := by
  have hbuiltins : ∀ action ∈ ({} : SessionConfig).builtins,
      action.name ∉ ["true", "false", "null"] := by decide
  have hplain : (Value.list [.null, .bool true, .int (-3), .str "a\"b\n", .list []]).Plain := by
    refine .list (by decide) ?_
    simp only [List.forall_mem_cons]
    exact ⟨.null, .bool true, .int (by decide), .str _, .list (by decide) (by simp), by simp⟩
  exact ⟨hbuiltins, hplain, display_reads_back noHost hbuiltins _ hplain "" true⟩

end Session
end ExprScript
