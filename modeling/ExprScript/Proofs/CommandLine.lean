import Mathlib.Data.List.TakeWhile
import ExprScript.CommandLine.Arguments

/-!
# What command line arguments come to

Arguments that can all be read are options, some of which name a command. The first option that asks
for help or for the version says what is done, unless two commands stand before it: these are a
fault before the option is looked at. Without such an option there may be one command at most.
-/
namespace ExprScript

/-- An argument in the place of an option, and the command that it names, with its value, if it
names one. A file is an option of its own. -/
structure OptionArgument where
  arg : String
  command : Option Command
  deriving DecidableEq

def infoCommand? (arg : String) : Option Command :=
  if arg = "-h" ∨ arg = "--help" then some .help
  else if arg = "-V" ∨ arg = "--version" then some .version
  else none

/-- The arguments in the places of options, from left to right, if every option is known and has its
value. -/
def optionArguments? : List String → Option (List OptionArgument)
  | [] => some []
  | arg :: rest =>
    match ArgumentKind.of arg, rest with
    | .noColor, rest | .quiet, rest => (optionArguments? rest).map (⟨arg, none⟩ :: ·)
    | .command command, rest => (optionArguments? rest).map (⟨arg, some command⟩ :: ·)
    | .unknown, _ | .valued _ _, [] => none
    | .valued _ make, value :: rest => (optionArguments? rest).map (⟨arg, some (make value)⟩ :: ·)

def commandsOf (options : List OptionArgument) : List Command :=
  options.filterMap (·.command)

theorem commandsOf_cons (arg : String) (command : Command) (options : List OptionArgument) :
    commandsOf (⟨arg, some command⟩ :: options) = command :: commandsOf options :=
  rfl

namespace Arguments

variable {args : List String} {options : List OptionArgument} {before : Option Command}
  {commands : List Command}

/-! ## Which command counts -/

def combineAll (before : Option Command) : List Command → Except UsageError (Option Command)
  | [] => .ok before
  | next :: rest =>
    match combine before next with
    | .ok command => combineAll (some command) rest
    | .error e => .error e

/-- Of some commands the first one counts that only tells about the program, or else the only one.
Two others before it are a fault. -/
theorem combineAll_eq (before : Option Command) (commands : List Command) :
    combineAll before commands =
      let all := before.toList ++ commands
      if (all.takeWhile (!·.isInfo)).length ≤ 1 then .ok ((all.find? (·.isInfo)).or all.head?)
      else .error .severalCommands := by
  induction commands generalizing before with
  | nil => cases before with
    | none => rfl
    | some command => cases h : command.isInfo <;> simp [combineAll, h]
  | cons next rest ih =>
    cases before with
    | none => exact ih (some next)
    | some command =>
      cases hinfo : command.isInfo with
      | true => simp [combineAll, combine, hinfo, ih]
      | false => cases hnext : next.isInfo <;> simp [combineAll, combine, hinfo, hnext, ih]

theorem command_readFrom (h : optionArguments? args = some options) (before : Option Command)
    (noColor quiet : Bool) :
    (readFrom before noColor quiet args).map (·.command) =
      (combineAll before (commandsOf options)).map (·.getD .repl) := by
  fun_induction optionArguments? args generalizing options before noColor quiet with
  | case1 =>
    cases h
    rfl
  | case2 arg rest harg ih | case3 arg rest harg ih =>
    obtain ⟨options, hrest, rfl⟩ := Option.map_eq_some_iff.mp h
    simp [readFrom, harg, commandsOf, ih hrest]
  | case5 | case6 => cases h
  | case4 arg command rest harg ih | case7 arg _ make value rest harg ih =>
    obtain ⟨options, hrest, rfl⟩ := Option.map_eq_some_iff.mp h
    unfold readFrom
    rw [harg, commandsOf_cons, combineAll]
    dsimp only
    generalize combine before _ = combined
    cases combined with
    | ok command => exact ih hrest _ _ _
    | error e => rfl

/-! ## Options that ask for help or for the version -/

theorem infoCommand?_eq (arg : String) :
    infoCommand? arg =
      match ArgumentKind.of arg with
      | .command command => if command.isInfo then some command else none
      | _ => none := by
  fun_cases ArgumentKind.of arg <;> simp_all [infoCommand?, Command.isInfo]

/-- What an option makes of its value is not to tell about the program. -/
theorem isInfo_of_valued {arg what : String} {make : String → Command}
    (h : ArgumentKind.of arg = .valued what make) (value : String) :
    (make value).isInfo = false := by
  revert h
  fun_cases ArgumentKind.of arg <;> first | (rintro ⟨⟩; rfl) | simp_all

/-- Only these options name a command that tells about the program, whatever values the others
have. -/
theorem infoCommand?_of_mem (h : optionArguments? args = some options) {option : OptionArgument}
    (hoption : option ∈ options) :
    infoCommand? option.arg = option.command.filter (·.isInfo) := by
  fun_induction optionArguments? args generalizing options with
  | case1 =>
    cases h
    cases hoption
  | case5 | case6 => cases h
  | case2 arg rest harg ih | case3 arg rest harg ih | case4 arg command rest harg ih =>
    obtain ⟨options, hrest, rfl⟩ := Option.map_eq_some_iff.mp h
    rcases List.mem_cons.mp hoption with rfl | hoption
    · simp [infoCommand?_eq, harg, Option.filter]
    · exact ih hrest hoption
  | case7 arg what make value rest harg ih =>
    obtain ⟨options, hrest, rfl⟩ := Option.map_eq_some_iff.mp h
    rcases List.mem_cons.mp hoption with rfl | hoption
    · simp [infoCommand?_eq, harg, Option.filter, isInfo_of_valued harg]
    · exact ih hrest hoption

section
variable (h : ∀ option ∈ options, infoCommand? option.arg = option.command.filter (·.isInfo))
include h

/-- The first command that tells about the program is the one that the first of these options
names. -/
theorem find?_commandsOf :
    (commandsOf options).find? (·.isInfo) = options.findSome? (infoCommand? ·.arg) := by
  induction options with
  | nil => rfl
  | cons option options ih =>
    obtain ⟨hoption, hrest⟩ := List.forall_mem_cons.mp h
    rw [List.findSome?_cons, hoption, ← ih hrest]
    cases hcommand : option.command with
    | none => simp [commandsOf, hcommand]
    | some command =>
      cases hinfo : command.isInfo <;> simp [commandsOf, hcommand, hinfo, Option.filter]

/-- The commands before that one are those of the options before that one. -/
theorem takeWhile_commandsOf :
    (commandsOf options).takeWhile (!·.isInfo) =
      commandsOf (options.takeWhile fun option => (infoCommand? option.arg).isNone) := by
  induction options with
  | nil => rfl
  | cons option options ih =>
    obtain ⟨hoption, hrest⟩ := List.forall_mem_cons.mp h
    rw [List.takeWhile_cons, hoption]
    cases hcommand : option.command with
    | none => simpa [commandsOf, hcommand] using ih hrest
    | some command =>
      cases hinfo : command.isInfo with
      | true => simp [commandsOf, hcommand, hinfo, Option.filter]
      | false => simpa [commandsOf, hcommand, hinfo, Option.filter] using ih hrest

end

/-- What is done with arguments that can be read: what the first option says that asks for help or
for the version, or else what the only command says. More than one command before is a fault. -/
theorem command_read (h : optionArguments? args = some options) :
    (read args).map (·.command) =
      if (commandsOf (options.takeWhile fun option => (infoCommand? option.arg).isNone)).length ≤ 1
      then .ok (((options.findSome? (infoCommand? ·.arg)).or (commandsOf options).head?).getD .repl)
      else .error .severalCommands := by
  have hoptions : ∀ option ∈ options, _ := fun _ => infoCommand?_of_mem h
  rw [read, command_readFrom h, combineAll_eq, ← takeWhile_commandsOf hoptions,
    ← find?_commandsOf hoptions]
  dsimp only [Option.toList_none, List.nil_append]
  split <;> rfl

/-- If some option asks for help or for the version, this is what is done, as the first of them
says, exactly if there is no more than one command before it. Otherwise there may be one command at
most. -/
theorem info_counts_first (h : optionArguments? args = some options) :
    (∀ info, options.findSome? (infoCommand? ·.arg) = some info →
      ((∃ arguments, read args = .ok arguments ∧ arguments.command = info) ↔
        (commandsOf (options.takeWhile fun option => (infoCommand? option.arg).isNone)).length
          ≤ 1)) ∧
    (options.findSome? (infoCommand? ·.arg) = none →
      ((∃ arguments, read args = .ok arguments) ↔ (commandsOf options).length ≤ 1)) := by
  have hread := command_read h
  refine ⟨fun info hinfo => ?_, fun hnone => ?_⟩
  · rw [hinfo] at hread
    cases hargs : read args <;> rw [hargs] at hread <;> split at hread <;> simp_all [Except.map]
  · have hall : options.takeWhile (fun option => (infoCommand? option.arg).isNone) = options :=
      List.takeWhile_eq_self_iff.mpr fun option hoption => by
        simpa using List.findSome?_eq_none_iff.mp hnone option hoption
    rw [hnone, hall] at hread
    cases hargs : read args <;> rw [hargs] at hread <;> split at hread <;> simp_all [Except.map]

theorem help_behind_file :
    optionArguments? ["main.fck", "--help", "-c", "-V"] =
      some [⟨"main.fck", some (.runFile "main.fck")⟩, ⟨"--help", some .help⟩,
        ⟨"-c", some (.runCode "-V")⟩] ∧
    ∃ arguments, read ["main.fck", "--help", "-c", "-V"] = .ok arguments ∧
      arguments.command = .help :=
  ⟨rfl, ((info_counts_first rfl).1 .help rfl).mpr (by decide)⟩

/-- Help does not count behind two files, although all three are options that can be read. -/
theorem help_behind_two_files :
    optionArguments? ["a", "b", "--help"] =
      some [⟨"a", some (.runFile "a")⟩, ⟨"b", some (.runFile "b")⟩, ⟨"--help", some .help⟩] ∧
    infoCommand? "--help" = some .help ∧
    read ["a", "b", "--help"] = .error .severalCommands :=
  ⟨rfl, rfl, rfl⟩

end Arguments
end ExprScript
