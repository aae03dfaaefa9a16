import CoolTree.Proofs.Walk.Calls
import CoolTree.Proofs.Walk.Invariant

/-!
# What is observed of a walk

A run of a walk shows the calls that it makes, in their order, each with what
the walk learns from its answer, and how the walk ends.  Traces only grow, so
what is observed of the beginning of a walk stays as it is.
-/

namespace CoolTree

variable {Context State Failure Memory Answer Result : Type}

def Stop.cause : Stop Failure → Stop Unit
  | failed _ => failed ()
  | malformed defect => malformed defect

/-- How an action ends, without the value of a failure and without the memory. -/
def ending : EStateM.Result (Stop Failure) Memory Answer → Except (Stop Unit) Answer
  | .ok answer _ => .ok answer
  | .error stop _ => .error stop.cause

def memoryAfter : EStateM.Result (Stop Failure) Memory Answer → Memory
  | .ok _ memory => memory
  | .error _ memory => memory

def outcome : EStateM.Result (Stop Failure) Memory Answer → Except (Stop Failure) Answer
  | .ok answer _ => .ok answer
  | .error stop _ => .error stop

theorem outcome_mapState {Image : Type} (project : Memory → Image)
    (result : EStateM.Result (Stop Failure) Memory Answer) :
    outcome (mapState project result) = outcome result := by
  cases result <;> rfl

theorem memoryAfter_mapState {Image : Type} (project : Memory → Image)
    (result : EStateM.Result (Stop Failure) Memory Answer) :
    memoryAfter (mapState project result) = project (memoryAfter result) := by
  cases result <;> rfl

/-- An assertion holds in the memory that an action leaves when it holds however
the action ends. -/
theorem leads_iff_memoryAfter {before assertion : Memory → Prop}
    {action : EStateM (Stop Failure) Memory Answer} :
    Leads before action (fun _ => assertion) assertion ↔
      ∀ memory, before memory → assertion (memoryAfter (action memory)) := by
  apply forall_congr'
  intro memory
  cases action memory <;> exact Iff.rfl

namespace Call

/-- The call as far as a walk takes notice of it: without the value of a failure. -/
def plain (call : Call Context Failure) : Call Context Unit where
  phase := call.phase
  node := call.node
  answer := call.answer.mapError Stop.cause

def made (call : Call Context Failure) : HookCall Context :=
  ⟨call.phase, call.node⟩

@[simp]
theorem made_plain (call : Call Context Failure) : call.plain.made = call.made := rfl

end Call

namespace Action

variable (phase : Phase) (node : Node Context) (told : Answer → Bool)
  (action : Action State Failure Answer) (journal : Journal (Traced Context State Failure))

/-- Tracing a call leaves the state that the call leaves. -/
theorem state_traced :
    (memoryAfter (Action.traced phase node told action journal)).state.state =
      (memoryAfter (action journal.untraced)).state := by
  rw [Action.traced]
  cases action journal.untraced <;> rfl

/-- Tracing a call adds it to the trace, however it ends. -/
theorem map_made_traced :
    (memoryAfter (Action.traced phase node told action journal)).state.calls.map Call.made =
      journal.state.calls.map Call.made ++ [⟨phase, node⟩] := by
  rw [Action.traced]
  cases action journal.untraced <;> exact List.map_append

end Action

/-! ## Traces grow -/

/-- An action only adds calls to the trace. -/
def Grows (action : Action (Traced Context State Failure) Failure Answer) : Prop :=
  ∀ journal, journal.state.calls <+: (memoryAfter (action journal)).state.calls

namespace Grows

theorem of_silent {action : Action (Traced Context State Failure) Failure Answer}
    (hsilent : ∀ journal, (memoryAfter (action journal)).state.calls = journal.state.calls) :
    Grows action := by
  intro journal
  rewrite [hsilent journal]
  exact List.prefix_rfl

theorem traced (phase : Phase) (node : Node Context) (told : Answer → Bool)
    (action : Action State Failure Answer) : Grows (Action.traced phase node told action) := by
  intro journal
  rw [Action.traced]
  cases action journal.untraced <;> exact List.prefix_append _ _

/-- An action that goes on with another one has all the calls of its beginning. -/
theorem prefix_bind (action : Action (Traced Context State Failure) Failure Answer)
    {next : Answer → Action (Traced Context State Failure) Failure Result}
    (hnext : ∀ answer, Grows (next answer)) (journal : Journal (Traced Context State Failure)) :
    (memoryAfter (action journal)).state.calls <+:
      (memoryAfter ((action >>= next) journal)).state.calls := by
  simp only [bind, EStateM.bind]
  cases action journal with
  | ok answer middle => exact hnext answer middle
  | error stop middle => exact List.prefix_rfl

theorem bind {action : Action (Traced Context State Failure) Failure Answer}
    {next : Answer → Action (Traced Context State Failure) Failure Result}
    (haction : Grows action) (hnext : ∀ answer, Grows (next answer)) :
    Grows (action >>= next) := by
  intro journal
  exact (haction journal).trans (prefix_bind action hnext journal)

end Grows

namespace Visitor

def callsOf (visitor : Visitor Context (Action State Failure)) (root : Node Context)
    (state : State) (log : Log) : List (Call Context Failure) :=
  (memoryAfter (visitor.traced.walk root ⟨⟨state, []⟩, log⟩)).state.calls

/-- The walk of the traced visitor ends like the walk itself. -/
theorem ending_walk_traced (visitor : Visitor Context (Action State Failure))
    (root : Node Context) (state : State) (log : Log) :
    ending (visitor.traced.walk root ⟨⟨state, []⟩, log⟩) =
      ending (visitor.walk root ⟨state, log⟩) := by
  have hfollows := visitor.walk_traced_follows root ⟨⟨state, []⟩, log⟩
  rw [Journal.untraced] at hfollows
  rw [← hfollows]
  cases visitor.traced.walk root ⟨⟨state, []⟩, log⟩ <;> rfl

end Visitor

end CoolTree
