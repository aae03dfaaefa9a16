import CoolTree.Proofs.Walk.Invariant
import CoolTree.Proofs.Walk.Observation
import Mathlib.Data.List.Basic

/-!
# What a recorder writes down

A recorder that drives no walks of its own writes down what the walk calls, and
nothing else.  The events come in the order of the calls, each for the node that
the walk enters or leaves there; which hooks are overridden decides whether a
call is written down at all, and whether as a call of a kind's own hook.  This
holds of every walk, also of one that fails or meets a malformed node.
-/

namespace CoolTree

variable {Context Answer : Type}

/-- How a call is written down, given the hooks that are overridden.  A call of a
hook that is not overridden is not written down. -/
def Overrides.event? (overrides : Overrides) (call : HookCall Context) : Option (Event Context) :=
  match overrides with
  | .generic own => some (call.event own)
  | .none => if call.phase = .visit then some (call.event []) else Option.none

/-- The action writes down the call at most once, and nothing else, whether it
answers or fails. -/
def Records (overrides : Overrides) (call : HookCall Context)
    (action : Action (Recording Context) HookFailure Answer) : Prop :=
  ∀ journal, (memoryAfter (action journal)).state.events.toList =
    journal.state.events.toList ++ (overrides.event? call).toList

/-- The events are those written down earlier and those of the calls in the trace. -/
def Recorded (overrides : Overrides) (earlier : List (Event Context))
    (traced : Traced Context (Recording Context) HookFailure) : Prop :=
  traced.state.events.toList =
    earlier ++ (traced.calls.map Call.made).filterMap overrides.event?

/-- At every depth some walks are made for the scripts of a visitor. -/
theorem Visitor.exists_performing {State Failure : Type}
    (visitor : Visitor Context (Hook State Failure)) (depth : Nat) :
    ∃ walk, visitor.performing depth = visitor.performedBy walk := by
  cases depth <;> exact ⟨_, rfl⟩

namespace Records

variable {overrides : Overrides} {call : HookCall Context}

theorem of_silent {action : Action (Recording Context) HookFailure Answer}
    (hcall : overrides.event? call = none)
    (hsilent : ∀ journal, (memoryAfter (action journal)).state = journal.state) :
    Records overrides call action := by
  intro journal
  rw [hsilent, hcall, Option.toList_none, List.append_nil]

theorem map {Result : Type} {action : Action (Recording Context) HookFailure Answer}
    (haction : Records overrides call action) (answer : Result) :
    Records overrides call (do let _ ← action; return answer) := by
  intro journal
  rw [← haction journal]
  simp only [bind, EStateM.bind]
  cases action journal <;> rfl

/-- A traced call writes down what it adds to the trace. -/
theorem traced {action : Action (Recording Context) HookFailure Answer}
    (haction : Records overrides call action) (told : Answer → Bool)
    (earlier : List (Event Context)) :
    Leads (fun journal => Recorded overrides earlier journal.state)
      (Action.traced call.phase call.node told action)
      (fun _ journal => Recorded overrides earlier journal.state)
      fun journal => Recorded overrides earlier journal.state := by
  rw [leads_iff_memoryAfter]
  intro journal holds
  have hbefore : journal.untraced.state.events.toList =
      earlier ++ (journal.state.calls.map Call.made).filterMap overrides.event? := holds
  have hnew : [call].filterMap overrides.event? = (overrides.event? call).toList := by
    rw [List.filterMap_eq_flatMap_toList, List.flatMap_singleton]
  rw [Recorded, Action.state_traced, Action.map_made_traced, haction, hbefore,
    List.filterMap_append, hnew, List.append_assoc]

end Records

namespace Recorder

variable {recorder : Recorder Context}

/-- A recorder writes down a call even when it fails there. -/
theorem records_record (recorder : Recorder Context) {overrides : Overrides}
    (call : HookCall Context) {hook? : Option Kind}
    (hcall : overrides.event? call = some ⟨call.phase, hook?, call.node⟩)
    (walk : Node Context → Action (Recording Context) HookFailure Unit) :
    Records overrides call
      ((recorder.record call.phase hook? call.node).perform call.node walk) := by
  rintro ⟨⟨events, counted⟩, log⟩
  rw [hcall]
  simp only [Hook.perform, record]
  cases recorder.failure? with
  | none => simp [Script.perform, memoryAfter]
  | some point =>
      dsimp only
      split
      · split <;> simp [Script.perform, memoryAfter]
      · simp [Script.perform, memoryAfter]

/-- The pre hook of a recorder that drives no walks. -/
theorem perform_pre_of_undriven (hdrive : ∀ node, recorder.drive? node = none)
    (hook? : Option Kind) (node : Node Context)
    (walk : Node Context → Action (Recording Context) HookFailure Unit) :
    (recorder.pre hook? node).perform node walk = (do
      (recorder.record .pre hook? node).perform node walk
      return recorder.handles node) := by
  rw [perform_pre, driven, answers, hdrive]
  rfl

section Plain

variable (hplain : recorder.overrides = .none) (node : Node Context)
include hplain

theorem visitor_pre_of_plain : recorder.hooks.visitor.pre node = pure false := by
  rw [hooks, hplain]
  rfl

theorem visitor_visit_of_plain :
    recorder.hooks.visitor.visit node = recorder.record .visit (some node.kind) node := by
  rw [hooks, hplain]
  rfl

theorem visitor_post_of_plain : recorder.hooks.visitor.post node = pure () := by
  rw [hooks, hplain]
  rfl

end Plain

/-- Every hook of a recorder that drives no walks writes down its call, if the
hook is overridden. -/
theorem records_hooks (hdrive : ∀ node, recorder.drive? node = none) (depth : Nat)
    (node : Node Context) :
    Records recorder.overrides ⟨.pre, node⟩ ((recorder.hooks.visitor.performing depth).pre node) ∧
      Records recorder.overrides ⟨.visit, node⟩
        ((recorder.hooks.visitor.performing depth).visit node) ∧
      Records recorder.overrides ⟨.post, node⟩
        ((recorder.hooks.visitor.performing depth).post node) := by
  obtain ⟨walk, hwalk⟩ := recorder.hooks.visitor.exists_performing depth
  rw [hwalk]
  dsimp only [Visitor.performedBy]
  cases hoverrides : recorder.overrides with
  | none =>
      rw [visitor_pre_of_plain hoverrides, visitor_visit_of_plain hoverrides,
        visitor_post_of_plain hoverrides]
      refine ⟨.of_silent rfl fun _ => rfl, ?_, .of_silent rfl fun _ => rfl⟩
      exact recorder.records_record ⟨.visit, node⟩ rfl walk
  | generic own =>
      rw [visitor_pre hoverrides, visitor_visit hoverrides, visitor_post hoverrides,
        perform_pre_of_undriven hdrive]
      refine ⟨?_, ?_, ?_⟩
      · exact (recorder.records_record ⟨.pre, node⟩ rfl walk).map (recorder.handles node)
      · exact recorder.records_record ⟨.visit, node⟩ rfl walk
      · exact recorder.records_record ⟨.post, node⟩ rfl walk

def walkCalls (recorder : Recorder Context) (root : Node Context) (recording : Recording Context)
    (log : Log) : List (HookCall Context) :=
  ((recorder.hooks.visitor.performing root.count).callsOf root recording log).map Call.made

/-- A walk of a recorder that drives no walks itself writes down its calls, as far
as their hooks are overridden, behind what was written down earlier. -/
theorem toList_events_walk (hdrive : ∀ node, recorder.drive? node = none) (root : Node Context)
    (recording : Recording Context) (log : Log) :
    (memoryAfter (recorder.walk root ⟨recording, log⟩)).state.events.toList =
      recording.events.toList ++
        (recorder.walkCalls root recording log).filterMap recorder.overrides.event? := by
  have hkeeps : (recorder.hooks.visitor.performing root.count).traced.Keeps
      (fun _ _ journal => Recorded recorder.overrides recording.events.toList journal.state)
      fun journal => Recorded recorder.overrides recording.events.toList journal.state := {
    stop := fun _ _ _ holds => holds
    pre := fun node _ _ => (records_hooks hdrive root.count node).1.traced id _
    leave := by
      intro node _ _
      obtain ⟨-, hvisit, hpost⟩ := records_hooks hdrive root.count node
      exact (hvisit.traced (fun _ => false) _).bind fun _ => hpost.traced (fun _ => false) _ }
  have hstart : Recorded recorder.overrides recording.events.toList
      (⟨recording, []⟩ : Traced Context (Recording Context) HookFailure) :=
    (List.append_nil _).symm
  have hwalk := Visitor.Keeps.walk (fun _ => Recorded recorder.overrides recording.events.toList)
    (Recorded recorder.overrides recording.events.toList) hkeeps root
  have hafter := leads_iff_memoryAfter.mp hwalk ⟨⟨recording, []⟩, log⟩ hstart
  have hfollows := Visitor.walk_traced_follows (recorder.hooks.visitor.performing root.count) root
    ⟨⟨recording, []⟩, log⟩
  rw [Recorder.walk, Visitor.drive, walkCalls, Visitor.callsOf]
  dsimp only [Journal.untraced] at hfollows
  rw [← hfollows, memoryAfter_mapState]
  exact hafter

end Recorder

end CoolTree
