import CoolTree.Syntax.Size
import CoolTree.Walk.Visitor

/-!
# Walks

A walk fixes the order in which a visitor reaches the nodes of a tree: a node
is entered, then its children are walked in the order of the grammar, then the
node is left.  Entering calls the pre hook, leaving calls the visit and post
hooks, and a handled node is not left.  A malformed node stops the walk before
any hook is called for it, and the first hook that stops ends the walk.

The walk works through a list of pending steps, so that deep trees cost no deep
recursion.
-/

namespace CoolTree

/-- What a walk still has to do. -/
inductive Step (Context : Type) where
  | enter (node : Node Context)
  | leave (node : Node Context)

variable {Context State Failure : Type}

/-- The number of steps that a pending step can still lead to, itself included. -/
def Step.weight : Step Context → Nat
  | enter node => 2 * node.size
  | leave _ => 1

def totalWeight (steps : List (Step Context)) : Nat :=
  steps.foldr (fun step total => step.weight + total) 0

@[simp]
theorem totalWeight_nil : totalWeight ([] : List (Step Context)) = 0 := rfl

@[simp]
theorem totalWeight_cons (step : Step Context) (steps : List (Step Context)) :
    totalWeight (step :: steps) = step.weight + totalWeight steps := rfl

@[simp]
theorem totalWeight_append (left right : List (Step Context)) :
    totalWeight (left ++ right) = totalWeight left + totalWeight right := by
  induction left with
  | nil => simp
  | cons step steps ih => simp only [List.cons_append, totalWeight_cons, ih, Nat.add_assoc]

/-- Entering some trees weighs twice their nodes. -/
theorem totalWeight_map_enter (nodes : List (Node Context)) :
    totalWeight (nodes.map Step.enter) = 2 * Node.totalSize nodes := by
  induction nodes with
  | nil => rfl
  | cons node nodes ih =>
    rw [List.map_cons, totalWeight_cons, ih, Node.totalSize_cons, Step.weight]
    omega

/-- The steps that follow once a node is entered: its children, then leaving it. -/
def Node.stepsInside (node : Node Context) : List (Step Context) :=
  node.children.map .enter ++ [.leave node]

/-- What lies inside a node weighs less than entering it. -/
theorem totalWeight_stepsInside_lt (node : Node Context) :
    totalWeight node.stepsInside < (Step.enter node).weight := by
  have hsize := node.size_eq
  rw [Node.stepsInside, totalWeight_append, totalWeight_map_enter, totalWeight_cons,
    totalWeight_nil, Step.weight, Step.weight]
  omega

namespace Visitor

/-- Works through the pending steps and answers how many nodes have been entered. -/
def run (visitor : Visitor Context (Action State Failure)) (steps : List (Step Context))
    (entered : Nat) : Action State Failure Nat :=
  match steps with
  | [] => pure entered
  | .enter node :: rest =>
      match node.defect? with
      | some defect => throw (.malformed defect)
      | none => do
          if ← visitor.pre node then
            Action.note (.handled node.kind)
            visitor.run rest (entered + 1)
          else
            visitor.run (node.stepsInside ++ rest) (entered + 1)
  | .leave node :: rest => do
      visitor.visit node
      visitor.post node
      visitor.run rest entered
termination_by totalWeight steps
decreasing_by
  · rw [totalWeight_cons]
    have := totalWeight_stepsInside_lt node
    omega
  · rw [totalWeight_append, totalWeight_cons]
    have := totalWeight_stepsInside_lt node
    omega
  · rw [totalWeight_cons, Step.weight]
    omega

/-- Walks a tree.  The start is noted before the first hook, and the end, with
the number of nodes entered, only when nothing stopped the walk. -/
def walk (visitor : Visitor Context (Action State Failure)) (root : Node Context) :
    Action State Failure Unit := do
  Action.note (.walking root.kind)
  let entered ← visitor.run [.enter root] 0
  Action.note (.walked root.kind entered)

end Visitor

end CoolTree
