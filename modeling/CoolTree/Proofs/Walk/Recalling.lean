import CoolTree.Proofs.Walk.Observation
import CoolTree.Proofs.Walk.Relation

/-!
# Calls across nested walks

A hook that walks children itself starts walks inside a walk.  To see the calls
of all of them, a visitor can write down each call in its state when the call
begins.  The state goes with the nested walks, so they add to the same list, and
nothing else is changed by it.
-/

namespace CoolTree

variable {Context State Failure Answer Memory : Type}

/-! ## Scripts seen through a projection -/

/-- A script does to its memory what another one does to the state that is seen of it. -/
inductive Script.SeenAs (project : Memory → State) :
    Script Memory Failure Answer → Script State Failure Answer → Prop
  | finish (answer : Except Failure Answer) (memory : Memory) :
      SeenAs project (.finish answer memory) (.finish answer (project memory))
  | dispatch (position : Nat) (memory : Memory)
      {resume : Except Failure Unit → Memory → Script Memory Failure Answer}
      {view : Except Failure Unit → State → Script State Failure Answer}
      (later : ∀ outcome memory, SeenAs project (resume outcome memory)
        (view outcome (project memory))) :
      SeenAs project (.dispatch position memory resume) (.dispatch position (project memory) view)

def Journal.seen (project : Memory → State) (journal : Journal Memory) : Journal State :=
  ⟨project journal.state, journal.log⟩

/-- What is seen of a script is performed alike, when the walks that it asks for are. -/
theorem Script.SeenAs.mapState_perform {project : Memory → State} {children : List (Node Context)}
    {walk : Node Context → Action Memory Failure Unit}
    {viewWalk : Node Context → Action State Failure Unit}
    (hwalk : ∀ child, Follows (Journal.seen project) (walk child) (viewWalk child))
    {script : Script Memory Failure Answer} {view : Script State Failure Answer}
    (hscript : script.SeenAs project view) (log : Log) :
    mapState (Journal.seen project) (script.perform children walk log) =
      view.perform children viewWalk log := by
  induction hscript generalizing log with
  | finish answer memory => cases answer <;> rfl
  | dispatch position memory later ih =>
      rw [perform, perform]
      cases children[position]? with
      | none => exact ih (.ok ()) memory log
      | some child =>
          have hchild := hwalk child ⟨memory, log⟩
          rw [Journal.seen] at hchild
          dsimp only
          rw [← hchild]
          cases walk child ⟨memory, log⟩ with
          | ok answer next => exact ih (.ok ()) next.state next.log
          | error stop next =>
              cases stop with
              | failed failure => exact ih (.error failure) next.state next.log
              | malformed defect => rfl

structure Visitor.SeenAs (project : Memory → State)
    (visitor : Visitor Context (Hook Memory Failure))
    (view : Visitor Context (Hook State Failure)) : Prop where
  pre : ∀ node memory, (visitor.pre node memory).SeenAs project (view.pre node (project memory))
  visit : ∀ node memory,
    (visitor.visit node memory).SeenAs project (view.visit node (project memory))
  post : ∀ node memory, (visitor.post node memory).SeenAs project (view.post node (project memory))

namespace Visitor.SeenAs

variable {project : Memory → State} {visitor : Visitor Context (Hook Memory Failure)}
  {view : Visitor Context (Hook State Failure)}

theorem performedBy (seen : visitor.SeenAs project view)
    {walk : Node Context → Action Memory Failure Unit}
    {viewWalk : Node Context → Action State Failure Unit}
    (hwalk : ∀ child, CoolTree.Follows (Journal.seen project) (walk child) (viewWalk child)) :
    Visitor.Corresponds
      (fun Answer (left : Action Memory Failure Answer) right =>
        CoolTree.Follows (Journal.seen project) left right)
      (fun node => node) (visitor.performedBy walk) (view.performedBy viewWalk) where
  pre node journal := (seen.pre node journal.state).mapState_perform hwalk journal.log
  visit node journal := (seen.visit node journal.state).mapState_perform hwalk journal.log
  post node journal := (seen.post node journal.state).mapState_perform hwalk journal.log

theorem performing (seen : visitor.SeenAs project view) (depth : Nat) :
    Visitor.Corresponds
      (fun Answer (left : Action Memory Failure Answer) right =>
        CoolTree.Follows (Journal.seen project) left right)
      (fun node => node) (visitor.performing depth) (view.performing depth) := by
  induction depth with
  | zero => exact seen.performedBy fun _ => .pure ()
  | succ depth ih =>
      exact seen.performedBy fun child => ih.walk (Follows.sequential fun _ _ => rfl) .refl child

/-- A walk with all walks nested in it is seen as the walk of what is seen of the hooks. -/
theorem drive (seen : visitor.SeenAs project view) (root : Node Context) :
    CoolTree.Follows (Journal.seen project) (visitor.drive root) (view.drive root) :=
  (seen.performing root.count).walk (Follows.sequential fun _ _ => rfl) .refl root

end Visitor.SeenAs

/-! ## Calls that are written down -/

/-- The state of a visitor with the calls made so far, oldest first, in whichever walk. -/
structure Recalled (Context State : Type) where
  state : State
  calls : List (HookCall Context)

def Journal.unrecalled (journal : Journal (Recalled Context State)) : Journal State :=
  ⟨journal.state.state, journal.log⟩

/-- The script that carries some calls along; the walks that it asks for may add to them. -/
def Script.recalling : Script State Failure Answer → List (HookCall Context) →
    Script (Recalled Context State) Failure Answer
  | finish answer state, calls => finish answer ⟨state, calls⟩
  | dispatch position state resume, calls =>
      dispatch position ⟨state, calls⟩ fun outcome recalled =>
        (resume outcome recalled.state).recalling recalled.calls

/-- The hook that writes down its call before it does anything else. -/
def Hook.recalling (call : HookCall Context) (hook : Hook State Failure Answer) :
    Hook (Recalled Context State) Failure Answer := fun recalled =>
  (hook recalled.state).recalling (recalled.calls ++ [call])

/-- Carrying calls along does not change what a script does. -/
theorem Script.recalling_seenAs (script : Script State Failure Answer)
    (calls : List (HookCall Context)) :
    (script.recalling calls).SeenAs Recalled.state script := by
  induction script generalizing calls with
  | finish answer state => exact .finish answer (Recalled.mk state calls)
  | dispatch position state resume ih =>
      exact .dispatch position (Recalled.mk state calls) fun outcome next =>
        ih outcome next.state next.calls

namespace Visitor

def recalling (visitor : Visitor Context (Hook State Failure)) :
    Visitor Context (Hook (Recalled Context State) Failure) where
  pre node := (visitor.pre node).recalling ⟨.pre, node⟩
  visit node := (visitor.visit node).recalling ⟨.visit, node⟩
  post node := (visitor.post node).recalling ⟨.post, node⟩

/-- Apart from the calls that are written down, the walk is the same. -/
theorem drive_recalling_follows (visitor : Visitor Context (Hook State Failure))
    (root : Node Context) :
    CoolTree.Follows Journal.unrecalled (visitor.recalling.drive root) (visitor.drive root) := by
  have seen : visitor.recalling.SeenAs Recalled.state visitor := {
    pre := fun _ _ => Script.recalling_seenAs _ _
    visit := fun _ _ => Script.recalling_seenAs _ _
    post := fun _ _ => Script.recalling_seenAs _ _ }
  exact seen.drive root

/-- The calls of hooks in the walk of a visitor and in all walks nested in it. -/
def recalledCalls (visitor : Visitor Context (Hook State Failure)) (root : Node Context)
    (state : State) (log : Log) : List (HookCall Context) :=
  (memoryAfter (visitor.recalling.drive root ⟨⟨state, []⟩, log⟩)).state.calls

end Visitor

end CoolTree
