import CoolTree.Syntax.Kind
import CoolTree.Text.Quoted

/-!
# The log

Walks, printers and graphs note what they do in a log: when a walk starts, when
a hook handles a node, when a walk ends and how many nodes it entered, with
which indent a printer is created, and how large a graph has become.
-/

namespace CoolTree

inductive LogLevel where
  | debug
  | trace
deriving DecidableEq, Inhabited

def LogLevel.label : LogLevel → String
  | debug => "DEBUG"
  | trace => "TRACE"

inductive LogRecord where
  /-- A walk starts at a root of this kind. -/
  | walking (root : Kind)
  /-- The pre hook of a node of this kind handled the node. -/
  | handled (kind : Kind)
  /-- A walk reached its end after it entered this many nodes. -/
  | walked (root : Kind) (entered : Nat)
  /-- A printer is created with this indent. -/
  | printerCreated (indent : String)
  /-- A graph with this many nodes and edges is complete. -/
  | graphBuilt (nodes edges : Nat)
deriving DecidableEq, Inhabited

namespace LogRecord

/-- The level of a record: only handled nodes are traced, all else is for debugging. -/
def level : LogRecord → LogLevel
  | handled _ => .trace
  | walking _ | walked _ _ | printerCreated _ | graphBuilt _ _ => .debug

def text : LogRecord → String
  | walking root => "walking " ++ root.label ++ " tree"
  | handled kind => kind.label ++ " handled by its pre-visit hook"
  | walked root entered =>
      "walked " ++ root.label ++ " tree, entered " ++ entered.repr ++ " nodes"
  | printerCreated indent => "creating pretty printer with indent " ++ Text.quoted indent
  | graphBuilt nodes edges =>
      "built AST graph with " ++ nodes.repr ++ " nodes and " ++ edges.repr ++ " edges"

end LogRecord

/-- The records of a run, oldest first. -/
abbrev Log := Array LogRecord

end CoolTree
