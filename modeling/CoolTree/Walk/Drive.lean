import CoolTree.Syntax.Node

/-!
# Driven walks

A pre hook can drive walks of its own over children of its node.  Which
children it takes, and in which order, is given by rules for single kinds; the
same goes for the nodes that a hook handles.
-/

namespace CoolTree

variable {Context : Type}

/-- What a pre hook does on its own: it walks the children at some positions,
one after the other, and then answers whether the node is handled. -/
structure Drive where
  positions : List Nat
  handled : Bool
deriving DecidableEq, Inhabited

inductive Selection where
  | forward
  | reverse
  | first
  | init
  | tail
  | twice
deriving DecidableEq, Inhabited

def Selection.positions (selection : Selection) (count : Nat) : List Nat :=
  match selection with
  | forward => List.range count
  | reverse => (List.range count).reverse
  | first => (List.range count).take 1
  | init => (List.range count).dropLast
  | tail => (List.range count).drop 1
  | twice => (List.range count).flatMap fun position => [position, position]

structure DriveRule where
  kind : Kind
  selection : Selection
  handled : Bool
deriving DecidableEq, Inhabited

/-- The walks that some rules drive at a node; the first rule for its kind counts. -/
def DriveRule.drive? (rules : List DriveRule) (node : Node Context) : Option Drive :=
  (rules.find? fun rule => rule.kind = node.kind).map fun rule =>
    ⟨rule.selection.positions node.children.length, rule.handled⟩

def handlesAny [DecidableEq Context] (kinds : List Kind) (contexts : List Context)
    (node : Node Context) : Bool :=
  node.kind ∈ kinds ∨ node.context ∈ contexts

end CoolTree
