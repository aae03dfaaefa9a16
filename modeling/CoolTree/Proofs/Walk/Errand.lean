import CoolTree.Proofs.Walk.History
import CoolTree.Proofs.Walk.Observation

/-!
# Errands

The hooks of a visitor may start walks: over any tree, with any visitor, and
inside these walks the hooks may start walks again.  What such a hook does is an
errand.  It ends with an answer or a stop, it notes something in the log that is
not about walks, or it has a tree walked and goes on with what the walk came to,
even when the walk stopped.  Every run of an errand nests walks to some finite
depth, but no depth bounds all its runs.

A hook that walks with its own visitor is an errand as far as its runs go.
Scripts do so over children, and a tree bounds how deep they nest walks.
-/

namespace CoolTree

inductive Errand : (State Failure Answer : Type) → Type 1 where
  /-- The call is over. -/
  | finish {State Failure Answer : Type} (answer : Except (Stop Failure) Answer) (state : State) :
      Errand State Failure Answer
  /-- Something is noted that is not about walks. -/
  | note {State Failure Answer : Type} (record : LogRecord) (other : record.isOfWalk = false)
      (later : Errand State Failure Answer) : Errand State Failure Answer
  /-- A tree is walked by a visitor with hooks and a state of its own, and the
  call goes on with the outcome and the last state of that visitor. -/
  | walk {State Failure Answer Context Inner InnerFailure : Type}
      (pre : Node Context → Inner → Errand Inner InnerFailure Bool)
      (visit : Node Context → Inner → Errand Inner InnerFailure Unit)
      (post : Node Context → Inner → Errand Inner InnerFailure Unit)
      (root : Node Context) (state : Inner)
      (resume : Except (Stop InnerFailure) Unit → Inner → Errand State Failure Answer) :
      Errand State Failure Answer

structure Errands (Context State Failure : Type) where
  pre : Node Context → State → Errand State Failure Bool
  visit : Node Context → State → Errand State Failure Unit
  post : Node Context → State → Errand State Failure Unit

variable {Context State Failure Answer : Type}

structure Errands.Always (errands : Errands Context State Failure)
    (property : {Answer : Type} → Errand State Failure Answer → Prop) : Prop where
  pre : ∀ node state, property (errands.pre node state)
  visit : ∀ node state, property (errands.visit node state)
  post : ∀ node state, property (errands.post node state)

theorem Errands.always {property : {Answer : Type} → Errand State Failure Answer → Prop}
    (holds : ∀ {Answer : Type} (errand : Errand State Failure Answer), property errand)
    (errands : Errands Context State Failure) : errands.Always property where
  pre _ _ := holds _
  visit _ _ := holds _
  post _ _ := holds _

namespace Errand

/-- Performs an errand, which starts from the log alone: the state is its own. -/
def perform {State Failure Answer : Type} :
    Errand State Failure Answer → Log → EStateM.Result (Stop Failure) (Journal State) Answer
  | finish (.ok answer) state, log => .ok answer ⟨state, log⟩
  | finish (.error stop) state, log => .error stop ⟨state, log⟩
  | note record _ later, log => later.perform (log.push record)
  | walk pre visit post root state resume, log =>
      let visitor : Visitor _ (Action _ _) := {
        pre := fun node journal => (pre node journal.state).perform journal.log
        visit := fun node journal => (visit node journal.state).perform journal.log
        post := fun node journal => (post node journal.state).perform journal.log }
      let result := visitor.walk root ⟨state, log⟩
      (resume (outcome result) (memoryAfter result).state).perform (memoryAfter result).log

end Errand

def Errands.visitor (errands : Errands Context State Failure) :
    Visitor Context (Action State Failure) where
  pre node journal := (errands.pre node journal.state).perform journal.log
  visit node journal := (errands.visit node journal.state).perform journal.log
  post node journal := (errands.post node journal.state).perform journal.log

/-- A nested walk is a walk of the visitor that its hooks make. -/
theorem Errand.perform_walk {Inner InnerFailure : Type}
    (errands : Errands Context Inner InnerFailure) (root : Node Context) (state : Inner)
    (resume : Except (Stop InnerFailure) Unit → Inner → Errand State Failure Answer) (log : Log) :
    (walk errands.pre errands.visit errands.post root state resume).perform log =
      let result := errands.visitor.walk root ⟨state, log⟩
      (resume (outcome result) (memoryAfter result).state).perform (memoryAfter result).log := by
  rw [perform]
  rfl

/-! ## Scripts as errands -/

/-- The errand of a script for a node with the given children.  The children it
asks for are walked by a visitor, or come to nothing without one. -/
def Script.errand (children : List (Node Context))
    (walker? : Option (Errands Context State Failure)) :
    Script State Failure Answer → Errand State Failure Answer
  | finish (.ok answer) state => .finish (.ok answer) state
  | finish (.error failure) state => .finish (.error (.failed failure)) state
  | dispatch position state resume =>
      match children[position]? with
      | none => (resume (.ok ()) state).errand children walker?
      | some child =>
          match walker? with
          | none => (resume (.ok ()) state).errand children walker?
          | some walker =>
              .walk walker.pre walker.visit walker.post child state fun outcome state =>
                match outcome with
                | .ok () => (resume (.ok ()) state).errand children walker?
                | .error (.failed failure) =>
                    (resume (.error failure) state).errand children walker?
                | .error (.malformed defect) => .finish (.error (.malformed defect)) state

namespace Visitor

def runningBy (visitor : Visitor Context (Hook State Failure))
    (walker? : Option (Errands Context State Failure)) : Errands Context State Failure where
  pre node state := (visitor.pre node state).errand node.children walker?
  visit node state := (visitor.visit node state).errand node.children walker?
  post node state := (visitor.post node state).errand node.children walker?

/-- The visitor of errands that runs the scripts of a visitor, its nested walks at
most `depth` deep. -/
def running (visitor : Visitor Context (Hook State Failure)) :
    (depth : Nat) → Errands Context State Failure
  | 0 => visitor.runningBy none
  | depth + 1 => visitor.runningBy (some (visitor.running depth))

end Visitor

def Errands.walkBy (walker? : Option (Errands Context State Failure)) :
    Node Context → Action State Failure Unit :=
  match walker? with
  | none => fun _ => pure ()
  | some walker => walker.visitor.walk

theorem Script.perform_errand (children : List (Node Context))
    (walker? : Option (Errands Context State Failure)) (script : Script State Failure Answer)
    (log : Log) :
    (script.errand children walker?).perform log =
      script.perform children (Errands.walkBy walker?) log := by
  induction script generalizing log with
  | finish answer state => cases answer <;> rfl
  | dispatch position state resume ih =>
      rw [errand, perform]
      cases children[position]? with
      | none => exact ih (.ok ()) state log
      | some child =>
          cases walker? with
          | none => exact ih (.ok ()) state log
          | some walker =>
              dsimp only [Errands.walkBy]
              rw [Errand.perform_walk]
              cases walker.visitor.walk child ⟨state, log⟩ with
              | ok answer journal => exact ih (.ok ()) journal.state journal.log
              | error stop journal =>
                  cases stop with
                  | failed failure => exact ih (.error failure) journal.state journal.log
                  | malformed defect => rfl

theorem Visitor.visitor_runningBy (visitor : Visitor Context (Hook State Failure))
    (walker? : Option (Errands Context State Failure)) :
    (visitor.runningBy walker?).visitor = visitor.performedBy (Errands.walkBy walker?) := by
  simp only [Errands.visitor, runningBy, Script.perform_errand]
  rfl

theorem Visitor.visitor_running (visitor : Visitor Context (Hook State Failure)) (depth : Nat) :
    (visitor.running depth).visitor = visitor.performing depth := by
  induction depth with
  | zero => exact visitor.visitor_runningBy none
  | succ depth ih =>
      rw [running, visitor_runningBy, performing, ← ih]
      rfl

/-- A walk that a visitor of scripts drives is the walk of its errands. -/
theorem Visitor.drive_eq_walk (visitor : Visitor Context (Hook State Failure))
    (root : Node Context) :
    visitor.drive root = (visitor.running root.count).visitor.walk root := by
  rw [drive, visitor_running]

end CoolTree
