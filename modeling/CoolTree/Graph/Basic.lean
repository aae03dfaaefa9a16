import CoolTree.Syntax.Slot

/-!
# Graphs of trees

The graph of a tree numbers the nodes in the order in which a walk enters them.
Every node has a label, and every edge leads from a parent to one of its
children and bears the slot that the child has there.
-/

namespace CoolTree

structure Edge where
  source : Nat
  target : Nat
  slot : Slot
deriving DecidableEq, Inhabited

structure Graph where
  /-- The labels of the nodes in the order of their numbers. -/
  labels : Array String
  /-- The edges in the order of the nodes they lead to. -/
  edges : Array Edge
deriving DecidableEq

namespace Graph

def nodeCount (graph : Graph) : Nat :=
  graph.labels.size

def label? (graph : Graph) (number : Nat) : Option String :=
  graph.labels[number]?

end Graph

end CoolTree
