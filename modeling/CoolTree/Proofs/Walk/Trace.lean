import CoolTree.Proofs.Walk.Projection
import CoolTree.Walk.Event

/-!
# Traces of hook calls

A traced visitor writes down every call that a walk makes of its hooks, together
with the answer, and leaves everything else as it is.  The main statement is
that a walk over pending steps and the recursion over the tree do the same:
they come to the same outcome with the same state and the same log, and they
call the same hooks in the same order with the same answers.
-/

namespace CoolTree

variable {Context State Failure Answer : Type}

/-- The call of a hook by a walk.  A visit or post hook has nothing to tell and
counts as answering `false`. -/
structure Call (Context Failure : Type) where
  phase : Phase
  node : Node Context
  answer : Except (Stop Failure) Bool

/-- The state of a visitor with the calls made so far, oldest first. -/
structure Traced (Context State Failure : Type) where
  state : State
  calls : List (Call Context Failure)

def Journal.untraced (journal : Journal (Traced Context State Failure)) : Journal State :=
  ⟨journal.state.state, journal.log⟩

/-- An action that is written down as the call of a hook. -/
def Action.traced (phase : Phase) (node : Node Context) (told : Answer → Bool)
    (action : Action State Failure Answer) :
    Action (Traced Context State Failure) Failure Answer := fun journal =>
  match action journal.untraced with
  | .ok answer ⟨state, log⟩ =>
      .ok answer ⟨⟨state, journal.state.calls ++ [⟨phase, node, .ok (told answer)⟩]⟩, log⟩
  | .error stop ⟨state, log⟩ =>
      .error stop ⟨⟨state, journal.state.calls ++ [⟨phase, node, .error stop⟩]⟩, log⟩

def Visitor.traced (visitor : Visitor Context (Action State Failure)) :
    Visitor Context (Action (Traced Context State Failure) Failure) where
  pre node := Action.traced .pre node id (visitor.pre node)
  visit node := Action.traced .visit node (fun _ => false) (visitor.visit node)
  post node := Action.traced .post node (fun _ => false) (visitor.post node)

theorem Action.traced_follows (phase : Phase) (node : Node Context) (told : Answer → Bool)
    (action : Action State Failure Answer) :
    Follows Journal.untraced (Action.traced phase node told action) action := by
  intro journal
  rw [Action.traced]
  cases action journal.untraced <;> rfl

theorem Action.note_follows_untraced (record : LogRecord) :
    Follows Journal.untraced
      (Action.note record : Action (Traced Context State Failure) Failure Unit)
      (Action.note record) := by
  intro journal
  rfl

namespace Visitor

/-- Noting what is handled does not depend on the trace. -/
theorem noting_traced_follows (visitor : Visitor Context (Action State Failure)) :
    visitor.traced.noting.Follows Journal.untraced visitor.noting where
  pre node := by
    apply Follows.bind (Action.traced_follows .pre node id (visitor.pre node))
    intro handled
    cases handled with
    | true =>
        apply Follows.bind (Action.note_follows_untraced _)
        intro _
        exact .pure true
    | false => exact .pure false
  visit node := Action.traced_follows .visit node _ (visitor.visit node)
  post node := Action.traced_follows .post node _ (visitor.post node)

/-- A trace is written beside the walk and changes nothing in it. -/
theorem walk_traced_follows (visitor : Visitor Context (Action State Failure))
    (root : Node Context) :
    CoolTree.Follows Journal.untraced (visitor.traced.walk root) (visitor.walk root) := by
  rw [walk_eq_walkRecursively, walk_eq_walkRecursively]
  apply CoolTree.Follows.bind (Action.note_follows_untraced _)
  intro _
  apply CoolTree.Follows.bind (visitor.noting_traced_follows.descend root 0)
  intro entered
  exact Action.note_follows_untraced _

/-- The walk over pending steps is the recursion over the tree.  For every tree
and every visitor both end with the same answer, failure or defect, in the same
state and with the same log; and both make the same calls of hooks, which the
trace shows without disturbing the walk. -/
theorem walk_refines_recursion (visitor : Visitor Context (Action State Failure))
    (root : Node Context) :
    visitor.walk root = visitor.walkRecursively root ∧
      visitor.traced.walk root = visitor.traced.walkRecursively root ∧
      CoolTree.Follows Journal.untraced (visitor.traced.walk root) (visitor.walk root) := by
  refine ⟨?_, ?_, ?_⟩
  · exact visitor.walk_eq_walkRecursively root
  · exact visitor.traced.walk_eq_walkRecursively root
  · exact visitor.walk_traced_follows root

end Visitor

end CoolTree
