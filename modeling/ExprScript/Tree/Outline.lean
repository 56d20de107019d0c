import ExprScript.Stack
import ExprScript.Tree.Arena

/-!
# Trees in outline

A tree written with brackets: each node shows its offsets, its kind and its parts in order, and an
absent part is an underscore. Two trees have one outline only if they agree in kinds, parts and
offsets; indices of nodes do not show.
-/
namespace ExprScript

/-- A number in base sixteen with at least `width` digits. -/
def hexText (width n : Nat) : String :=
  let digits := Nat.toDigits 16 n
  String.ofList (List.replicate (width - digits.length) '0' ++ digits)

/-- A float by its bits; all that are no number look alike. -/
def floatBitsText (x : Float) : String :=
  if x.isNaN then "nan" else hexText 16 x.toBits.toNat

/-- One character inside double quotes, with the escapes that JSON requires. -/
def jsonEscape (c : Char) : String :=
  if c = '"' then "\\\""
  else if c = '\\' then "\\\\"
  else if c = '\n' then "\\n"
  else if c = '\t' then "\\t"
  else if c = '\r' then "\\r"
  else if c.val = 8 then "\\b"
  else if c.val = 12 then "\\f"
  else if c.val < 32 then "\\u" ++ hexText 4 c.toNat
  else c.toString

def jsonQuoted (text : String) : String :=
  text.foldl (fun out c => out ++ jsonEscape c) "\"" ++ "\""

/-- A tree that is being written: the texts of its names and its arena. -/
structure OutlineContext where
  names : Interner
  arena : Arena

namespace OutlineContext

def nameText (c : OutlineContext) (name : Option Name) : String :=
  match name with
  | some name => c.names.lookup name
  | none => "_"

def spanText (span : Span) : String :=
  s!"{span.start.offset}-{span.stop.offset}:("

def writeAll {α : Type} (write : α → String → String) (items : List α) (out : String) : String :=
  items.foldl (fun out item => write item (out ++ " ")) out

def entries {α : Type} (run : Run α) (table : Array α) : List α :=
  (run.entries? table).getD []

/-- The parts of a node behind the opening bracket, given how to write a child. -/
def writeParts (c : OutlineContext) (child : NodeId → String → String) (expr : Expr)
    (out : String) : String :=
  let part := fun id (out : String) => child id (out ++ " ")
  let optional := fun id (out : String) =>
    match id with
    | some id => part id out
    | none => out ++ " _"
  match expr with
  | .int n => out ++ s!"int {n.toInt}"
  | .float x => out ++ s!"float {floatBitsText x}"
  | .str text => out ++ "str " ++ jsonQuoted (c.names.lookup text)
  | .ident name => out ++ s!"ident {c.names.lookup name}"
  | .list items => writeAll child (entries items c.arena.lists) (out ++ "list")
  | .block items => writeAll child (entries items c.arena.lists) (out ++ "block")
  | .index target specs =>
    let spec := fun s (out : String) =>
      match s with
      | IndexSpec.single id => child id out
      | IndexSpec.range a b => part b (part a (out ++ "(to")) ++ ")"
    writeAll spec (entries specs c.arena.specs) (part target (out ++ "index"))
  | .member target name => part target (out ++ "attr") ++ s!" {c.names.lookup name}"
  | .cast operand type => part operand (out ++ "as") ++ s!" {type.name}"
  | .binary op left right => part right (part left (out ++ s!"binary {op.symbol}"))
  | .unary op operand => part operand (out ++ s!"unary {op.symbol}")
  | .ternary condition positive negative =>
    optional negative (optional positive (part condition (out ++ "ternary")))
  | .declare type name value yields =>
    let sign := if yields then ":>" else "::"
    optional value (out ++ s!"decl {type.name} {c.names.lookup name} {sign}")
  | .assign name op value yields =>
    let sign := if yields then op.yieldSymbol else op.setSymbol
    part value (out ++ s!"set {c.names.lookup name} {sign}")
  | .ifElse run otherwise =>
    let branch := fun (b : Branch) out => part b.body (child b.condition out)
    optional otherwise (writeAll branch (entries run c.arena.branches) (out ++ "if") ++ " else")
  | .caseOf subject run otherwise =>
    let arm := fun (a : CaseArm) out => part a.body (child a.pattern out)
    let out := writeAll arm (entries run c.arena.arms) (part subject (out ++ "case"))
    optional otherwise (out ++ " default")
  | .iterate label first last step counter body =>
    let out := optional step (part last (optional first (out ++ s!"iterate {c.nameText label}")))
    part body (out ++ s!" {c.nameText counter}")
  | .whileLoop label condition body =>
    part body (part condition (out ++ s!"while {c.nameText label}"))
  | .define name run body =>
    let param := fun (p : Parameter) (out : String) =>
      optional p.default
        (out ++ spanText p.span ++ s!"param {p.type.name} {c.names.lookup p.name}") ++ ")"
    part body (writeAll param (entries run c.arena.params) (out ++ s!"def {c.nameText name}"))
  | .call callee run =>
    let arg := fun (a : Argument) (out : String) =>
      part a.value (out ++ spanText a.span ++ s!"arg {c.nameText a.name}") ++ ")"
    writeAll arg (entries run c.arena.args) (part callee (out ++ "call"))
  | .returnValue value guard => optional guard (optional value (out ++ "return"))
  | .breakLoop label guard => optional guard (out ++ s!"break {c.nameText label}")
  | .continueLoop label guard => optional guard (out ++ s!"continue {c.nameText label}")

def writeNode (c : OutlineContext) : Nat → NodeId → String → String
  | 0, _, out => out
  | level + 1, id, out =>
    atLevel level fun _ =>
      match c.arena.node? id with
      | none => out ++ "_"
      | some node =>
        c.writeParts (c.writeNode level) node.expr (out ++ spanText node.span) ++ ")"

/-- The outline of a node. Children come before their parents, so the levels suffice. -/
def outline (c : OutlineContext) (id : NodeId) : String :=
  c.writeNode (levelsFor (c.arena.size + 1)) id ""

def outlineBlock (c : OutlineContext) (root : NodeId) : List String :=
  match c.arena.node? root with
  | some ⟨.block items, _⟩ => (entries items c.arena.lists).map c.outline
  | _ => []

end OutlineContext
end ExprScript
