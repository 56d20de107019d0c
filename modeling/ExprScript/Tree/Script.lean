import ExprScript.Text.Source
import ExprScript.Tree.Arena

/-!
# Scripts

A script is a parsed source: the nodes and the text that their spans point into stay together.
-/
namespace ExprScript

structure Script where
  source : SourceFile
  arena : Arena
  root : NodeId
  deriving Inhabited

end ExprScript
