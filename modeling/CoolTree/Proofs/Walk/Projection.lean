import CoolTree.Proofs.Walk.Recursion

/-!
# Walks seen through a projection

When the state of one visitor is a view of the state of another, and the hooks
of both agree on that view, then so do their walks.  In this way what only
observes a walk, or what a walk only notes, can be left out.
-/

namespace CoolTree

variable {Context Failure Answer Result Memory Image : Type}

def mapState (project : Memory → Image) :
    EStateM.Result (Stop Failure) Memory Answer → EStateM.Result (Stop Failure) Image Answer
  | .ok answer memory => .ok answer (project memory)
  | .error stop memory => .error stop (project memory)

/-- An action does to the projected state what another one does to the state. -/
def Follows (project : Memory → Image) (action : EStateM (Stop Failure) Memory Answer)
    (view : EStateM (Stop Failure) Image Answer) : Prop :=
  ∀ memory, mapState project (action memory) = view (project memory)

namespace Follows

variable {project : Memory → Image}

theorem pure (answer : Answer) :
    Follows project (Pure.pure answer : EStateM (Stop Failure) Memory Answer)
      (Pure.pure answer) := by
  intro memory
  rfl

theorem throw (stop : Stop Failure) :
    Follows project (MonadExcept.throw stop : EStateM (Stop Failure) Memory Answer)
      (MonadExcept.throw stop) := by
  intro memory
  rfl

theorem bind {action : EStateM (Stop Failure) Memory Answer}
    {view : EStateM (Stop Failure) Image Answer}
    {next : Answer → EStateM (Stop Failure) Memory Result}
    {nextView : Answer → EStateM (Stop Failure) Image Result}
    (haction : Follows project action view)
    (hnext : ∀ answer, Follows project (next answer) (nextView answer)) :
    Follows project (action >>= next) (view >>= nextView) := by
  intro memory
  have hview := haction memory
  simp only [Bind.bind, EStateM.bind, ← hview]
  cases action memory with
  | ok answer memory => exact hnext answer memory
  | error stop memory => rfl

end Follows

structure Visitor.Follows (project : Memory → Image)
    (visitor : Visitor Context (EStateM (Stop Failure) Memory))
    (view : Visitor Context (EStateM (Stop Failure) Image)) : Prop where
  pre : ∀ node, CoolTree.Follows project (visitor.pre node) (view.pre node)
  visit : ∀ node, CoolTree.Follows project (visitor.visit node) (view.visit node)
  post : ∀ node, CoolTree.Follows project (visitor.post node) (view.post node)

namespace Visitor.Follows

variable {project : Memory → Image}
  {visitor : Visitor Context (EStateM (Stop Failure) Memory)}
  {view : Visitor Context (EStateM (Stop Failure) Image)}

theorem descendAll {nodes : List (Node Context)}
    (each : ∀ node ∈ nodes, ∀ entered,
      CoolTree.Follows project (visitor.descend node entered) (view.descend node entered))
    (entered : Nat) :
    CoolTree.Follows project (visitor.descendAll nodes entered)
      (view.descendAll nodes entered) := by
  induction nodes generalizing entered with
  | nil =>
      rw [Visitor.descendAll, Visitor.descendAll]
      exact .pure entered
  | cons node rest ih =>
      rw [Visitor.descendAll, Visitor.descendAll]
      apply CoolTree.Follows.bind
      · exact each node List.mem_cons_self entered
      · exact ih fun other member => each other (List.mem_cons_of_mem node member)

/-- Hooks that follow others make recursions that follow each other. -/
theorem descend (follows : visitor.Follows project view) (node : Node Context) (entered : Nat) :
    CoolTree.Follows project (visitor.descend node entered) (view.descend node entered) := by
  induction node using Node.induction generalizing entered with
  | step node ih =>
      rw [Visitor.descend, Visitor.descend]
      cases node.defect? with
      | some defect => exact .throw _
      | none =>
          apply CoolTree.Follows.bind (follows.pre node)
          intro handled
          cases handled with
          | true => exact .pure _
          | false =>
              apply CoolTree.Follows.bind (descendAll ih (entered + 1))
              intro entered
              apply CoolTree.Follows.bind (follows.visit node)
              intro _
              apply CoolTree.Follows.bind (follows.post node)
              intro _
              exact .pure entered

end Visitor.Follows

end CoolTree
