import CoolTree.Proofs.Walk.Errand
import CoolTree.Proofs.Walk.Observation
import CoolTree.Proofs.Walk.Relation

/-!
# Keeping the history of a run

A visitor of errands can keep the history of its walk beside its state.  Every
call of a hook is written into the history of the walk that makes it, together
with the history of the call, and every walk that a call makes is written into
the history of the call.  The history is kept from what is called and from what
it answers, and not from the log; and keeping it changes nothing in the run.
-/

namespace CoolTree

variable {Context State Failure Answer Memory : Type} {subject : Subject}

structure Account (subject : Subject) (State : Type) where
  state : State
  history : History subject

namespace Journal

def unaccounted (journal : Journal (Account subject State)) : Journal State :=
  ⟨journal.state.state, journal.log⟩

/-- A journal to whose history a walk is added that was made before. -/
def after (made : WalkMade) (journal : Journal (Account .call State)) :
    Journal (Account .call State) :=
  ⟨⟨journal.state.state, .walked made.root made.ended made.calls journal.state.history⟩,
    journal.log⟩

def afterNote (record : LogRecord) (other : record.isOfWalk = false)
    (journal : Journal (Account .call State)) : Journal (Account .call State) :=
  ⟨⟨journal.state.state, .noted record other journal.state.history⟩, journal.log⟩

/-- A journal of a walk to whose history a call is added, given what the call left. -/
def afterCall (phase : Phase) (kind : Kind) (handled : Bool)
    (journal : Journal (Account .walk State)) (inside : Journal (Account .call State)) :
    Journal (Account .walk State) :=
  ⟨⟨inside.state.state,
    journal.state.history.append (.called phase kind handled inside.state.history .nil)⟩,
    inside.log⟩

end Journal

/-- Calls a hook for a node of some kind and writes the call into the history of
the walk.  A call that fails has not handled its node. -/
def Action.called (phase : Phase) (kind : Kind) (told : Answer → Bool)
    (hook : State → Log → EStateM.Result (Stop Failure) (Journal (Account .call State)) Answer) :
    Action (Account .walk State) Failure Answer := fun journal =>
  match hook journal.state.state journal.log with
  | .ok answer inside => .ok answer (journal.afterCall phase kind (told answer) inside)
  | .error stop inside => .error stop (journal.afterCall phase kind false inside)

def WalkMade.ofResult (root : Node Context)
    (result : EStateM.Result (Stop Failure) (Journal (Account .walk State)) Unit) : WalkMade :=
  ⟨root.kind, (outcome result).isOk, (memoryAfter result).state.history⟩

def Errand.accounted {State Failure Answer : Type} :
    Errand State Failure Answer → Log →
      EStateM.Result (Stop Failure) (Journal (Account .call State)) Answer
  | finish (.ok answer) state, log => .ok answer ⟨⟨state, .nil⟩, log⟩
  | finish (.error stop) state, log => .error stop ⟨⟨state, .nil⟩, log⟩
  | note record other later, log =>
      mapState (Journal.afterNote record other) (later.accounted (log.push record))
  | walk pre visit post root state resume, log =>
      let visitor : Visitor _ (Action (Account .walk _) _) := {
        pre := fun node => .called .pre node.kind id fun state log => (pre node state).accounted log
        visit := fun node => .called .visit node.kind (fun _ => false) fun state log =>
          (visit node state).accounted log
        post := fun node => .called .post node.kind (fun _ => false) fun state log =>
          (post node state).accounted log }
      let result := visitor.walk root ⟨⟨state, .nil⟩, log⟩
      mapState (Journal.after (.ofResult root result))
        ((resume (outcome result) (memoryAfter result).state.state).accounted
          (memoryAfter result).log)

/-- The visitor that performs errands and keeps the history of its walk. -/
def Errands.accounted (errands : Errands Context State Failure) :
    Visitor Context (Action (Account .walk State) Failure) where
  pre node := .called .pre node.kind id fun state log => (errands.pre node state).accounted log
  visit node := .called .visit node.kind (fun _ => false) fun state log =>
    (errands.visit node state).accounted log
  post node := .called .post node.kind (fun _ => false) fun state log =>
    (errands.post node state).accounted log

theorem Errand.accounted_walk {Inner InnerFailure : Type}
    (errands : Errands Context Inner InnerFailure) (root : Node Context) (state : Inner)
    (resume : Except (Stop InnerFailure) Unit → Inner → Errand State Failure Answer) (log : Log) :
    (walk errands.pre errands.visit errands.post root state resume).accounted log =
      let result := errands.accounted.walk root ⟨⟨state, .nil⟩, log⟩
      mapState (Journal.after (.ofResult root result))
        ((resume (outcome result) (memoryAfter result).state.state).accounted
          (memoryAfter result).log) := by
  rw [accounted]
  rfl

/-! ## The history is kept beside the run -/

theorem mapState_mapState {Image Final : Type} (first : Memory → Image) (second : Image → Final)
    (result : EStateM.Result (Stop Failure) Memory Answer) :
    mapState second (mapState first result) = mapState (second ∘ first) result := by
  cases result <;> rfl

theorem Follows.sequential_unaccounted :
    Sequential fun Answer (left : Action (Account subject State) Failure Answer) right =>
      Follows Journal.unaccounted left right :=
  Follows.sequential fun _ _ => rfl

theorem Action.called_follows (phase : Phase) (kind : Kind) (told : Answer → Bool)
    {hook : State → Log → EStateM.Result (Stop Failure) (Journal (Account .call State)) Answer}
    {plain : State → Log → EStateM.Result (Stop Failure) (Journal State) Answer}
    (hplain : ∀ state log, mapState Journal.unaccounted (hook state log) = plain state log) :
    Follows Journal.unaccounted (Action.called phase kind told hook)
      fun journal => plain journal.state journal.log := by
  intro journal
  rw [Action.called]
  dsimp only [Journal.unaccounted]
  rw [← hplain]
  cases hook journal.state.state journal.log <;> rfl

/-- Keeping the history changes nothing in what the errand does. -/
def Errand.IsUndisturbed (errand : Errand State Failure Answer) : Prop :=
  ∀ log, mapState Journal.unaccounted (errand.accounted log) = errand.perform log

theorem Errands.walk_follows (errands : Errands Context State Failure)
    (hooks : errands.Always Errand.IsUndisturbed) (root : Node Context) :
    Follows Journal.unaccounted (errands.accounted.walk root) (errands.visitor.walk root) := by
  apply Visitor.Corresponds.walk Follows.sequential_unaccounted Node.KeepsShape.refl
  exact {
    pre := fun node => Action.called_follows .pre node.kind id (hooks.pre node)
    visit := fun node => Action.called_follows .visit node.kind _ (hooks.visit node)
    post := fun node => Action.called_follows .post node.kind _ (hooks.post node) }

theorem Errand.isUndisturbed (errand : Errand State Failure Answer) : errand.IsUndisturbed := by
  induction errand with
  | finish answer state =>
      intro log
      cases answer <;> rfl
  | note record other later ih =>
      intro log
      rw [accounted, perform, mapState_mapState]
      exact ih (log.push record)
  | walk pre visit post root state resume ihPre ihVisit ihPost ih =>
      intro log
      have hwalk := Errands.walk_follows ⟨pre, visit, post⟩ ⟨ihPre, ihVisit, ihPost⟩ root
        ⟨⟨state, .nil⟩, log⟩
      rw [accounted_walk ⟨pre, visit, post⟩, perform_walk ⟨pre, visit, post⟩]
      dsimp only [Journal.unaccounted] at hwalk ⊢
      rw [← hwalk, outcome_mapState, memoryAfter_mapState, mapState_mapState]
      exact ih _ _ _

def Errands.walkMade (errands : Errands Context State Failure) (root : Node Context)
    (state : State) (log : Log) : WalkMade :=
  .ofResult root (errands.accounted.walk root ⟨⟨state, .nil⟩, log⟩)

/-- Keeping the history changes nothing in what a walk does. -/
theorem Errands.mapState_accounted_walk (errands : Errands Context State Failure)
    (root : Node Context) (state : State) (log : Log) :
    mapState Journal.unaccounted (errands.accounted.walk root ⟨⟨state, .nil⟩, log⟩) =
      errands.visitor.walk root ⟨state, log⟩ :=
  errands.walk_follows (errands.always Errand.isUndisturbed) root ⟨⟨state, .nil⟩, log⟩

end CoolTree
