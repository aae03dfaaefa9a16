import CoolTree.Graph.Basic
import CoolTree.Walk.Traversal

/-!
# Building graphs

The builder of a graph is a visitor.  It keeps the nodes that are entered and
not yet left, the deepest first, each with the slots whose children are still
to come.  A node that is entered takes the next slot of the deepest open node
and becomes the deepest open node itself.
-/

namespace CoolTree

/-- A node that is entered and not yet left. -/
structure OpenNode where
  number : Nat
  /-- The slots whose children have not been entered yet. -/
  remaining : List Slot
deriving DecidableEq, Inhabited

structure GraphBuilder where
  /-- The labels of the nodes entered so far. -/
  labels : Array String
  /-- The edges to the nodes entered so far. -/
  edges : Array Edge
  /-- The open nodes, the deepest first. -/
  opened : List OpenNode
deriving DecidableEq

namespace GraphBuilder

variable {Context : Type}

def empty : GraphBuilder :=
  ⟨#[], #[], []⟩

/-- The edge from the deepest open node to a node entered now, if that node has
a slot left, and the open nodes without that slot. -/
def takeSlot (target : Nat) : List OpenNode → Option Edge × List OpenNode
  | ⟨number, slot :: remaining⟩ :: outer =>
      (some ⟨number, target, slot⟩, ⟨number, remaining⟩ :: outer)
  | opened => (none, opened)

/-- The pre hook: labels the node, adds the edge to it, and opens it. -/
def enter (node : Node Context) : EStateM Empty GraphBuilder Bool := fun builder =>
  match builder with
  | ⟨labels, edges, opened⟩ =>
    let number := labels.size
    let slots := node.slots.map Prod.fst
    match takeSlot number opened with
    | (some edge, opened) =>
        .ok false ⟨labels.push node.text, edges.push edge, ⟨number, slots⟩ :: opened⟩
    | (none, opened) => .ok false ⟨labels.push node.text, edges, ⟨number, slots⟩ :: opened⟩

/-- The post hook: closes the deepest open node. -/
def leave (_ : Node Context) : EStateM Empty GraphBuilder Unit := fun builder =>
  .ok () { builder with opened := builder.opened.tail }

def hooks : HookTable Context (Action GraphBuilder Empty) where
  visitKind := fun _ _ => pure ()
  preNode? := some fun node => .ofState (enter node)
  postNode? := some fun node => .ofState (leave node)

end GraphBuilder

/-- The graph of a tree, with the log of building it.  The size of the graph is
noted once the walk is over. -/
def Graph.ofTree {Context : Type} (root : Node Context) (log : Log) :
    Except Defect Graph × Log :=
  match GraphBuilder.hooks.visitor.walk root ⟨GraphBuilder.empty, log⟩ with
  | .ok () ⟨⟨labels, edges, _⟩, log⟩ =>
      (.ok ⟨labels, edges⟩, log.push (.graphBuilt labels.size edges.size))
  | .error (.malformed defect) ⟨_, log⟩ => (.error defect, log)

end CoolTree
