import CoolTree.Output.Sink
import CoolTree.Syntax.Kind

/-!
# Errors of output

Output fails when a sink refuses bytes: while a node is written, or while a
graph is rendered.
-/

namespace CoolTree

inductive OutputError where
  /-- A node of this kind could not be written. -/
  | write (kind : Kind) (cause : Refusal)
  /-- A graph could not be rendered. -/
  | render (cause : Refusal)
deriving DecidableEq

namespace OutputError

/-- The kind of the node being written, if one was. -/
def kind? : OutputError → Option Kind
  | write kind _ => some kind
  | render _ => none

def cause : OutputError → Refusal
  | write _ cause => cause
  | render cause => cause

def message : OutputError → String
  | write kind _ => "failed to write " ++ kind.label ++ " node"
  | render _ => "failed to render AST graph"

end OutputError

end CoolTree
