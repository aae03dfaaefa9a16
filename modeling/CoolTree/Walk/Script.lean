import CoolTree.Walk.Traversal

/-!
# Hooks that walk

A hook may send its visitor over children of the node it is called for, before
it answers or while it makes up its mind.  Such a hook is a script: it ends with
an answer or a failure, or it first has the child at some position walked by the
very same visitor and goes on with what that walk came to.  The hooks of a
visitor of scripts see the state but not the log, so what a walk notes between
the records of its own is the notes of the walks nested in it.

Nested walks start at children, so a tree of finite height nests them to a
finite depth only, and the visitor of scripts becomes a visitor of actions.
-/

namespace CoolTree

/-- What one call of a hook does. -/
inductive Script (State Failure Answer : Type) where
  /-- The call is over. -/
  | finish (answer : Except Failure Answer) (state : State)
  /-- The child at a position is walked, and the call goes on with the outcome. -/
  | dispatch (position : Nat) (state : State)
      (resume : Except Failure Unit → State → Script State Failure Answer)

/-- A hook with the state it starts from. -/
def Hook (State Failure Answer : Type) :=
  State → Script State Failure Answer

namespace Script

variable {Context State Failure Answer Result : Type}

/-- Goes on with another hook once a call is over, unless it failed. -/
def andThen (next : Answer → Hook State Failure Result) :
    Script State Failure Answer → Script State Failure Result
  | finish (.ok answer) state => next answer state
  | finish (.error failure) state => finish (.error failure) state
  | dispatch position state resume =>
      dispatch position state fun outcome state => (resume outcome state).andThen next

/-- A call that goes on with nothing is the call itself. -/
theorem andThen_finish (script : Script State Failure Answer) :
    script.andThen (fun answer => finish (.ok answer)) = script := by
  induction script with
  | finish answer state => cases answer <;> rfl
  | dispatch position state resume ih =>
    exact congrArg (dispatch position state) (funext fun outcome => funext (ih outcome))

/-- It does not matter how hooks that go on with one another are grouped. -/
theorem andThen_assoc {Final : Type} (script : Script State Failure Answer)
    (next : Answer → Hook State Failure Result) (last : Result → Hook State Failure Final) :
    (script.andThen next).andThen last =
      script.andThen fun answer state => (next answer state).andThen last := by
  induction script with
  | finish answer state => cases answer <;> rfl
  | dispatch position state resume ih =>
    exact congrArg (dispatch position state) (funext fun outcome => funext (ih outcome))

/-- Performs a script for a node with the given children, each of which is
walked as given.  A position without a child comes to nothing, and a walk that a
malformed node stops cannot be resumed. -/
def perform (children : List (Node Context)) (walk : Node Context → Action State Failure Unit) :
    Script State Failure Answer → Log → EStateM.Result (Stop Failure) (Journal State) Answer
  | finish (.ok answer) state, log => .ok answer ⟨state, log⟩
  | finish (.error failure) state, log => .error (.failed failure) ⟨state, log⟩
  | dispatch position state resume, log =>
      match children[position]? with
      | none => (resume (.ok ()) state).perform children walk log
      | some child =>
          match walk child ⟨state, log⟩ with
          | .ok () ⟨state, log⟩ => (resume (.ok ()) state).perform children walk log
          | .error (.failed failure) ⟨state, log⟩ =>
              (resume (.error failure) state).perform children walk log
          | .error (.malformed defect) journal => .error (.malformed defect) journal

end Script

namespace Hook

variable {Context State Failure Answer : Type}

instance : Monad (Hook State Failure) where
  pure answer := fun state => .finish (.ok answer) state
  bind hook next := fun state => (hook state).andThen next

instance : LawfulMonad (Hook State Failure) :=
  LawfulMonad.mk' (Hook State Failure)
    (fun hook => funext fun state => (hook state).andThen_finish)
    (fun _ _ => rfl)
    (fun hook next last => funext fun state => (hook state).andThen_assoc next last)

def modify (change : State → State) : Hook State Failure Unit := fun state =>
  .finish (.ok ()) (change state)

def fail (failure : Failure) : Hook State Failure Answer := fun state =>
  .finish (.error failure) state

/-- Has the child at a position walked; a failure of that walk is the hook's own failure. -/
def dispatch (position : Nat) : Hook State Failure Unit := fun state =>
  .dispatch position state .finish

def perform (hook : Hook State Failure Answer) (node : Node Context)
    (walk : Node Context → Action State Failure Unit) : Action State Failure Answer :=
  fun journal =>
    match journal with
    | ⟨state, log⟩ => (hook state).perform node.children walk log

end Hook

namespace Visitor

variable {Context State Failure : Type}

/-- The visitor of actions that performs a visitor of scripts, given how the
children are walked that its hooks ask for. -/
def performedBy (visitor : Visitor Context (Hook State Failure))
    (walk : Node Context → Action State Failure Unit) :
    Visitor Context (Action State Failure) where
  pre node := (visitor.pre node).perform node walk
  visit node := (visitor.visit node).perform node walk
  post node := (visitor.post node).perform node walk

/-- The visitor of actions that performs a visitor of scripts, its nested walks
at most `depth` deep.  A walk beyond that depth comes to nothing; there is none
when the depth is as large as the tree. -/
def performing (visitor : Visitor Context (Hook State Failure)) :
    (depth : Nat) → Visitor Context (Action State Failure)
  | 0 => visitor.performedBy fun _ => pure ()
  | depth + 1 => visitor.performedBy (performing visitor depth).walk

/-- Walks a tree with a visitor whose hooks may walk children themselves.  The
number of nodes of the tree bounds the depth of the nesting. -/
def drive (visitor : Visitor Context (Hook State Failure)) (root : Node Context) :
    Action State Failure Unit :=
  (visitor.performing root.count).walk root

end Visitor

end CoolTree
