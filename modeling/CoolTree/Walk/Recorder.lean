import CoolTree.Walk.Drive
import CoolTree.Walk.Event
import CoolTree.Walk.Script

/-!
# Recorders

A recorder is a visitor that writes down every call of its hooks.  It can be
told which hooks it overrides, which nodes it handles, over which children it
drives its own walks, and at which call it fails.
-/

namespace CoolTree

variable {Context : Type}

/-- The pre and post hooks that a recorder overrides.  It always has visit hooks. -/
inductive Overrides where
  | none
  /-- The generic pre and post hooks, and own ones for the listed kinds. -/
  | generic (own : List Kind)
deriving DecidableEq, Inhabited

structure Recorder (Context : Type) where
  overrides : Overrides := .generic []
  /-- Whether a node is handled when no walk is driven at it. -/
  handles : Node Context → Bool := fun _ => false
  /-- The walks that are driven at a node. -/
  drive? : Node Context → Option Drive := fun _ => none
  /-- The call that fails. -/
  failure? : Option FailurePoint := none

structure Recording (Context : Type) where
  events : Array (Event Context)
  /-- How many of them count towards the failure point. -/
  counted : Nat

def Recording.empty : Recording Context :=
  ⟨#[], 0⟩

namespace Recorder

/-- Writes down a call, and fails when it is the call that is to fail. -/
def record (recorder : Recorder Context) (phase : Phase) (hook? : Option Kind)
    (node : Node Context) : Hook (Recording Context) HookFailure Unit :=
  fun ⟨events, counted⟩ =>
    let events := events.push ⟨phase, hook?, node⟩
    match recorder.failure? with
    | none => .finish (.ok ()) ⟨events, counted⟩
    | some point =>
        if point.counts phase node.kind then
          if counted = point.earlier then
            .finish (.error ⟨phase, node.kind⟩) ⟨events, counted + 1⟩
          else
            .finish (.ok ()) ⟨events, counted + 1⟩
        else
          .finish (.ok ()) ⟨events, counted⟩

/-- The pre hook: writes down the call, drives the walks that are asked for, and
answers whether the node is handled. -/
def pre (recorder : Recorder Context) (hook? : Option Kind) (node : Node Context) :
    Hook (Recording Context) HookFailure Bool := do
  recorder.record .pre hook? node
  match recorder.drive? node with
  | some drive =>
      drive.positions.forM Hook.dispatch
      pure drive.handled
  | none => pure (recorder.handles node)

def hooks (recorder : Recorder Context) :
    HookTable Context (Hook (Recording Context) HookFailure) :=
  match recorder.overrides with
  | .none => { visitKind := fun kind => recorder.record .visit (some kind) }
  | .generic own =>
    { visitKind := fun kind => recorder.record .visit (some kind)
      preNode? := some (recorder.pre none)
      postNode? := some (recorder.record .post none)
      preKind? := fun kind => if kind ∈ own then some (recorder.pre (some kind)) else none
      postKind? := fun kind =>
        if kind ∈ own then some (recorder.record .post (some kind)) else none }

def walk (recorder : Recorder Context) (root : Node Context) :
    Action (Recording Context) HookFailure Unit :=
  recorder.hooks.visitor.drive root

end Recorder

end CoolTree
