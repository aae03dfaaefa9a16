import CoolTree.Syntax.Node

/-!
# Events

An event is a call of a hook as a recorder writes it down.  A failure point
picks one of the calls to come, and the hook called then fails.
-/

namespace CoolTree

variable {Context : Type}

inductive Phase where
  | pre
  | visit
  | post
deriving DecidableEq, Inhabited

def Phase.label : Phase → String
  | pre => "pre"
  | visit => "visit"
  | post => "post"

/-- The call of a hook: its phase, the kind whose own hook was called if it was
not the generic one, and the node it was called for. -/
structure Event (Context : Type) where
  phase : Phase
  hook? : Option Kind
  node : Node Context

/-- The name of an event.  A star marks a pre or post hook of a kind's own;
visit hooks always belong to a kind. -/
def Event.label (event : Event Context) : String :=
  match event.phase, event.hook? with
  | .visit, _ | _, none => event.phase.label
  | _, some _ => event.phase.label ++ "*"

structure HookFailure where
  phase : Phase
  kind : Kind
deriving DecidableEq, Inhabited

/-- The call at which a recorder fails: a call of a phase, at a node of a kind
if one is given, after so many earlier calls of that phase and kind. -/
structure FailurePoint where
  phase : Phase
  kind? : Option Kind
  earlier : Nat
deriving DecidableEq, Inhabited

def FailurePoint.counts (point : FailurePoint) (phase : Phase) (kind : Kind) : Bool :=
  point.phase = phase ∧ (point.kind? = none ∨ point.kind? = some kind)

end CoolTree
