import CoolTree.Syntax.Shape
import CoolTree.Walk.Log

/-!
# Actions

An action is what a walk or a hook does: it changes the state of a visitor,
adds to the log, and in the end gives an answer or stops.  What was changed and
noted before a stop stays changed and noted.
-/

namespace CoolTree

/-- Why an action stops before its end. -/
inductive Stop (Failure : Type) where
  | failed (failure : Failure)
  | malformed (defect : Defect)
deriving DecidableEq

/-- The state of a visitor together with the log of the run. -/
structure Journal (State : Type) where
  state : State
  log : Log

/-- A change of state and log that ends with an answer or a stop. -/
abbrev Action (State Failure Answer : Type) :=
  EStateM (Stop Failure) (Journal State) Answer

namespace Action

variable {State Failure Answer : Type}

def note (record : LogRecord) : Action State Failure Unit := fun journal =>
  .ok () { journal with log := journal.log.push record }

/-- Changes the state of the visitor and nothing else, and gives an answer or fails. -/
def ofState (change : EStateM Failure State Answer) : Action State Failure Answer :=
  fun journal =>
    match journal with
    | ⟨state, log⟩ =>
      match change state with
      | .ok answer state => .ok answer ⟨state, log⟩
      | .error failure state => .error (.failed failure) ⟨state, log⟩

end Action

end CoolTree
