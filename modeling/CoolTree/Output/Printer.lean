import CoolTree.Output.Error
import CoolTree.Walk.Traversal

/-!
# The indented dump

A printer writes one line for each node in the order of the walk: the indent
once for every ancestor, the text of the node and a line feed.  It counts the
ancestors in its depth, which grows when the line of a node is written and
shrinks when the node is left.  A printer keeps its depth when a walk fails or
meets a malformed node, and a next walk goes on at that depth.
-/

namespace CoolTree

structure Printer where
  sink : Sink
  depth : Nat
  /-- What stands in front of a line once for every level of depth. -/
  indent : String

/-- Why a dump is not a text. -/
inductive DumpError where
  | malformed (defect : Defect)
  | refused (error : OutputError)
  /-- The bytes written are not the UTF-8 form of a text. -/
  | undecodable
deriving DecidableEq

namespace Printer

variable {Context : Type}

def defaultIndent : String :=
  "  "

/-- A new printer, whose indent is noted in the log. -/
def create (sink : Sink) (indent : String) (log : Log) : Journal Printer :=
  ⟨⟨sink, 0, indent⟩, log.push (.printerCreated indent)⟩

/-- The pieces of a node's line behind the indent, in the order of writing. -/
def pieces (node : Node Context) : List String :=
  match node.payload? with
  | some payload => [node.kind.label, " ", payload, "\n"]
  | none => [node.kind.label, "\n"]

def writeLine (indent : String) (depth : Nat) (node : Node Context) :
    EStateM Refusal Sink Unit := do
  (List.replicate depth indent).forM Sink.writeText
  (pieces node).forM Sink.writeText

/-- The pre hook: writes the line of a node and goes one level deeper.  A line
that is refused leaves the depth as it is. -/
def enter (node : Node Context) : EStateM OutputError Printer Bool := fun printer =>
  match writeLine printer.indent printer.depth node printer.sink with
  | .ok () sink => .ok false { printer with sink, depth := printer.depth + 1 }
  | .error cause sink => .error (.write node.kind cause) { printer with sink }

/-- The post hook: comes back one level. -/
def leave (_ : Node Context) : EStateM OutputError Printer Unit := fun printer =>
  .ok () { printer with depth := printer.depth - 1 }

/-- The hooks of a printer.  They are generic, and nothing is left to do for the
single kinds. -/
def hooks : HookTable Context (Action Printer OutputError) where
  visitKind := fun _ _ => pure ()
  preNode? := some fun node => .ofState (enter node)
  postNode? := some fun node => .ofState (leave node)

def dispatch (root : Node Context) : Action Printer OutputError Unit :=
  hooks.visitor.walk root

def limitTo (limit? : Option Nat) : Action Printer OutputError Unit :=
  .ofState fun printer => .ok () { printer with sink := printer.sink.limitTo limit? }

def print (root : Node Context) (sink : Sink) (log : Log) :
    EStateM.Result (Stop OutputError) (Journal Printer) Unit :=
  dispatch root (create sink defaultIndent log)

/-- The dump of a tree as a text, with the log of making it. -/
def dump (root : Node Context) : Except DumpError String × Log :=
  match print root Sink.unlimited #[] with
  | .ok () journal =>
      match String.fromUTF8? journal.state.sink.stored with
      | some text => (.ok text, journal.log)
      | none => (.error .undecodable, journal.log)
  | .error (.malformed defect) journal => (.error (.malformed defect), journal.log)
  | .error (.failed error) journal => (.error (.refused error), journal.log)

end Printer

end CoolTree
