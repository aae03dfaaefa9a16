import CoolTree.Proofs.Walk.Relation
import CoolTree.Walk.Event

/-!
# Watching the state of a visitor

The state of a visitor changes inside its hooks only.  A watched visitor writes
down the state before and after every call of a hook, also when the hook stops
the walk, and leaves everything else as it is.  What holds of all the states it
writes down holds at every moment of the walk.
-/

namespace CoolTree

variable {Context State Failure Answer : Type}

structure Sighting (Context State : Type) where
  phase : Phase
  node : Node Context
  before : State
  after : State

/-- The state of a visitor with what has been seen so far, oldest first. -/
structure Watched (Context State : Type) where
  state : State
  sightings : List (Sighting Context State)

namespace Journal

def unwatched (journal : Journal (Watched Context State)) : Journal State :=
  ⟨journal.state.state, journal.log⟩

def seeing (phase : Phase) (node : Node Context) (before : Journal (Watched Context State))
    (after : Journal State) : Journal (Watched Context State) :=
  ⟨⟨after.state, before.state.sightings ++ [⟨phase, node, before.state.state, after.state⟩]⟩,
    after.log⟩

end Journal

def Action.watched (phase : Phase) (node : Node Context) (action : Action State Failure Answer) :
    Action (Watched Context State) Failure Answer := fun journal =>
  mapState (journal.seeing phase node) (action journal.unwatched)

theorem Action.watched_follows (phase : Phase) (node : Node Context)
    (action : Action State Failure Answer) :
    Follows Journal.unwatched (Action.watched phase node action) action := by
  intro journal
  rw [Action.watched]
  cases action journal.unwatched <;> rfl

namespace Visitor

/-- The visitor that writes down its states. -/
def watched (visitor : Visitor Context (Action State Failure)) :
    Visitor Context (Action (Watched Context State) Failure) where
  pre node := Action.watched .pre node (visitor.pre node)
  visit node := Action.watched .visit node (visitor.visit node)
  post node := Action.watched .post node (visitor.post node)

/-- Apart from what is written down, the walk of the watched visitor is the walk itself. -/
theorem walk_watched_follows (visitor : Visitor Context (Action State Failure))
    (root : Node Context) :
    CoolTree.Follows Journal.unwatched (visitor.watched.walk root) (visitor.walk root) := by
  have corresponds : Visitor.Corresponds
      (fun Answer (left : Action (Watched Context State) Failure Answer) right =>
        CoolTree.Follows Journal.unwatched left right)
      (fun node => node) visitor.watched visitor := {
    pre := fun node => Action.watched_follows .pre node (visitor.pre node)
    visit := fun node => Action.watched_follows .visit node (visitor.visit node)
    post := fun node => Action.watched_follows .post node (visitor.post node) }
  exact corresponds.walk (Follows.sequential fun _ _ => rfl) .refl root

end Visitor

end CoolTree
