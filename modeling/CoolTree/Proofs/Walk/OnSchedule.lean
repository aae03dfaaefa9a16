import CoolTree.Proofs.Walk.Answers
import CoolTree.Proofs.Walk.Pruning
import CoolTree.Proofs.Walk.Recording

/-!
# Walks on schedule

No walk makes calls other than those of the schedule, or in another order, but
handled nodes, failures and malformed nodes make it leave out some of them.  A
visitor that never fails and never handles a node does not hold up its walk.  On
a well-shaped tree the walk then makes all the calls of the schedule, whatever
the hooks do besides, and at its end it notes the size of the tree.
-/

namespace CoolTree

variable {Context State Failure First Second FirstFailure SecondFailure : Type}

/-- The schedule has one moment of each phase for every place of the tree. -/
theorem Node.perm_occurrences_schedule (root : Node Context) (phase : Phase) :
    ((root.schedule.filter fun moment => moment.phase = phase).map Moment.occurrence).Perm
      root.occurrences := by
  have hnodup : ((root.schedule.filter fun moment => moment.phase = phase).map
      Moment.occurrence).Nodup := by
    apply List.Nodup.map_on _ (root.nodup_schedule.filter _)
    rintro ⟨first, place⟩ hfirst ⟨second, other⟩ hsecond hplace
    obtain rfl := of_decide_eq_true (List.mem_filter.mp hfirst).2
    obtain rfl := of_decide_eq_true (List.mem_filter.mp hsecond).2
    exact congrArg _ hplace
  apply (List.perm_ext_iff_of_nodup hnodup (List.Nodup.of_map _ root.nodup_paths)).mpr
  intro occurrence
  rw [List.mem_map]
  constructor
  · rintro ⟨moment, member, rfl⟩
    exact (root.mem_schedule moment).mp (List.mem_filter.mp member).1
  · intro member
    refine ⟨⟨phase, occurrence⟩, List.mem_filter.mpr ⟨?_, decide_eq_true rfl⟩, rfl⟩
    exact (root.mem_schedule _).mpr member

theorem Node.map_call_scheduleFrom (children : List (Node Context)) (start : Nat) :
    (scheduleFrom start children).map Moment.call =
      children.flatMap fun child => child.schedule.map Moment.call := by
  induction children generalizing start with
  | nil => simp [scheduleFrom]
  | cons child rest ih =>
      rw [scheduleFrom, List.map_append, List.map_map, ih, List.flatMap_cons]
      rfl

/-! ## Walks within the schedule -/

/-- However the action ends, the calls that it adds to the trace are some of the
given ones, in their order. -/
def Selects {Answer : Type} (calls : List (HookCall Context))
    (action : Action (Traced Context State Failure) Failure Answer) : Prop :=
  ∀ journal, ∃ added, (memoryAfter (action journal)).state.calls.map Call.made =
      journal.state.calls.map Call.made ++ added ∧ added.Sublist calls

namespace Selects

variable {Answer Result : Type} {calls later : List (HookCall Context)}

theorem of_silent {action : Action (Traced Context State Failure) Failure Answer}
    (hsilent : ∀ journal, (memoryAfter (action journal)).state.calls = journal.state.calls) :
    Selects calls action := by
  intro journal
  refine ⟨[], ?_, calls.nil_sublist⟩
  rw [hsilent, List.append_nil]

theorem traced (phase : Phase) (node : Node Context) (told : Answer → Bool)
    (action : Action State Failure Answer) :
    Selects [⟨phase, node⟩] (Action.traced phase node told action) := fun journal =>
  ⟨_, Action.map_made_traced phase node told action journal, .refl _⟩

theorem bind {action : Action (Traced Context State Failure) Failure Answer}
    {next : Answer → Action (Traced Context State Failure) Failure Result}
    (haction : Selects calls action) (hnext : ∀ answer, Selects later (next answer)) :
    Selects (calls ++ later) (action >>= next) := by
  intro journal
  obtain ⟨first, hfirst, hcalls⟩ := haction journal
  simp only [Bind.bind, EStateM.bind]
  cases hresult : action journal with
  | ok answer middle =>
      obtain ⟨second, hsecond, hlater⟩ := hnext answer middle
      rw [hresult] at hfirst
      refine ⟨first ++ second, ?_, hcalls.append hlater⟩
      dsimp only
      rw [hsecond, ← List.append_assoc, ← hfirst]
      rfl
  | error stop middle =>
      rw [hresult] at hfirst
      exact ⟨first, hfirst, hcalls.trans (List.sublist_append_left calls later)⟩

theorem cumulative : Cumulative fun Answer calls
    (action : Action (Traced Context State Failure) Failure Answer) => Selects calls action where
  pure _ := .of_silent fun _ => rfl
  bind := .bind

/-- Noting what is handled makes no calls. -/
theorem noting_pre (visitor : Visitor Context (Action State Failure)) (node : Node Context) :
    Selects [⟨.pre, node⟩] (visitor.traced.noting.pre node) := by
  rw [← List.append_nil [_]]
  apply Selects.bind (.traced .pre node id (visitor.pre node))
  intro handled
  cases handled <;> exact .of_silent fun _ => rfl

theorem descend (visitor : Visitor Context (Action State Failure)) (node : Node Context)
    (entered : Nat) :
    Selects (node.schedule.map Moment.call) (visitor.traced.noting.descend node entered) := by
  induction node using Node.induction generalizing entered with
  | step node ih =>
      rw [Node.schedule, List.map_cons, List.map_append, Node.map_call_scheduleFrom,
        Visitor.descend]
      cases node.defect? with
      | some defect => exact .of_silent fun _ => rfl
      | none =>
          apply Selects.bind (.noting_pre visitor node)
          intro handled
          cases handled with
          | true => exact .of_silent fun _ => rfl
          | false =>
              apply Selects.bind (cumulative.descendAll ih (entered + 1))
              intro entered
              apply Selects.bind (.traced .visit node (fun _ => false) (visitor.visit node))
              intro _
              rw [← List.append_nil (List.map _ _)]
              apply Selects.bind (.traced .post node (fun _ => false) (visitor.post node))
              intro _
              exact .of_silent fun _ => rfl

end Selects

/-- The calls of a walk are some of the calls of the schedule, in their order. -/
theorem Visitor.callsOf_sublist_schedule (visitor : Visitor Context (Action State Failure))
    (root : Node Context) (state : State) (log : Log) :
    ((visitor.callsOf root state log).map Call.made).Sublist (root.schedule.map Moment.call) := by
  have hwalk : Selects ([] ++ (root.schedule.map Moment.call ++ []))
      (visitor.traced.walk root) := by
    rw [walk_eq_walkRecursively, walkRecursively]
    apply Selects.bind (.of_silent fun _ => rfl)
    intro _
    apply Selects.bind (.descend visitor root 0)
    intro entered
    exact .of_silent fun _ => rfl
  obtain ⟨added, hadded, hsublist⟩ := hwalk ⟨⟨state, []⟩, log⟩
  rw [List.nil_append, List.append_nil] at hsublist
  rwa [callsOf, hadded]

/-! ## Walks that are not held up -/

namespace HookCall

/-- A call is read back from what is written down of it. -/
theorem event_injective (own : List Kind) :
    Function.Injective (event own : HookCall Context → Event Context) := by
  rintro ⟨phase, node⟩ ⟨other, another⟩ heq
  obtain ⟨rfl, -, rfl⟩ := Event.mk.inj heq
  rfl

end HookCall

def Answers {Answer : Type} (answer : Answer) (action : Action State Failure Answer) : Prop :=
  ∀ journal, ∃ next, action journal = .ok answer next

theorem Answers.map {Answer : Type} {action : Action State Failure Unit}
    (haction : Answers () action) (answer : Answer) :
    Answers answer (do action; return answer) := by
  intro journal
  obtain ⟨next, hnext⟩ := haction journal
  refine ⟨next, ?_⟩
  simp only [bind, EStateM.bind, hnext]
  rfl

/-- Hooks that always answer, and never that they handle the node, make a passive visitor. -/
theorem Visitor.Passive.of_answers {visitor : Visitor Context (Action State Failure)}
    (hooks : ∀ node, Answers false (visitor.pre node) ∧ Answers () (visitor.visit node) ∧
      Answers () (visitor.post node)) :
    visitor.Passive fun _ _ => True where
  pre node _ journal _ := by simpa using (hooks node).1 journal
  visit node _ journal _ := by simpa using (hooks node).2.1 journal
  post node _ journal _ := by simpa using (hooks node).2.2 journal

namespace Recorder

variable {recorder : Recorder Context}

theorem answers_record (hnever : recorder.failure? = none) (phase : Phase) (hook? : Option Kind)
    (node : Node Context) (walk : Node Context → Action (Recording Context) HookFailure Unit) :
    Answers () ((recorder.record phase hook? node).perform node walk) := by
  intro journal
  rw [Hook.perform, record, hnever]
  exact ⟨_, rfl⟩

/-- A recorder that is not to fail, and that handles no node or has no pre hook to
say so, is passive. -/
theorem passive_performing (hdrive : ∀ node, recorder.drive? node = none)
    (hnever : recorder.failure? = none)
    (hhandles : recorder.overrides = .none ∨ ∀ node, recorder.handles node = false)
    (depth : Nat) :
    (recorder.hooks.visitor.performing depth).Passive fun _ _ => True := by
  obtain ⟨walk, hwalk⟩ := recorder.hooks.visitor.exists_performing depth
  rw [hwalk]
  apply Visitor.Passive.of_answers
  intro node
  dsimp only [Visitor.performedBy]
  cases hoverrides : recorder.overrides with
  | none =>
      rw [visitor_pre_of_plain hoverrides, visitor_visit_of_plain hoverrides,
        visitor_post_of_plain hoverrides]
      exact ⟨fun journal => ⟨journal, rfl⟩, answers_record hnever _ _ node walk,
        fun journal => ⟨journal, rfl⟩⟩
  | generic own =>
      rw [visitor_pre hoverrides, visitor_visit hoverrides, visitor_post hoverrides,
        perform_pre_of_undriven hdrive, hhandles.resolve_left (by simp [hoverrides])]
      exact ⟨(answers_record hnever _ _ node walk).map false,
        answers_record hnever _ _ node walk, answers_record hnever _ _ node walk⟩

theorem walkCalls_handling_never {root : Node Context} (shaped : root.WellShaped) (log : Log) :
    (handling [] fun _ => false).walkCalls root .empty log = root.schedule.map Moment.call := by
  obtain ⟨journal, hwalk, hevents⟩ := walk_of_wellShaped [] (fun _ => false) shaped log
  have hrecorded := (handling [] fun _ => false).toList_events_walk (fun _ => rfl) root
    .empty log
  rw [hwalk] at hrecorded
  apply List.map_injective_iff.mpr (HookCall.event_injective [])
  calc
    ((handling [] fun _ => false).walkCalls root .empty log).map (HookCall.event []) =
        journal.state.events.toList := by
      rw [← List.filterMap_eq_map]
      exact hrecorded.symm
    _ = (root.schedule.map Moment.call).map (HookCall.event []) := by
      rw [hevents, Moment.filter_isMade_of_never, List.map_map]
      rfl

end Recorder

def Traced.HasEntered (traced : Traced Context State Failure) (entered : Nat) : Prop :=
  (traced.calls.countP fun call => call.phase = .pre) = entered

namespace Visitor

variable {visitor : Visitor Context (Action State Failure)}

theorem leads_traced_of_hasEntered {Answer : Type} (phase : Phase) (node : Node Context)
    (told : Answer → Bool) (action : Action State Failure Answer) (entered : Nat) :
    Leads (fun journal => journal.state.HasEntered entered)
      (Action.traced phase node told action)
      (fun _ journal => journal.state.HasEntered (entered + if phase = .pre then 1 else 0))
      fun _ => True := by
  intro journal holds
  rw [Action.traced]
  cases action journal.untraced with
  | ok answer after =>
      dsimp only [Traced.HasEntered] at holds ⊢
      rw [List.countP_append, holds]
      cases phase <;> rfl
  | error stop after => trivial

/-- A walk keeps count of the calls of pre hooks. -/
theorem keeps_hasEntered (visitor : Visitor Context (Action State Failure)) :
    visitor.traced.noting.Keeps (fun _ entered journal => journal.state.HasEntered entered)
      fun _ => True where
  stop _ _ _ _ := trivial
  pre node opened entered := by
    apply Leads.bind (leads_traced_of_hasEntered .pre node id (visitor.pre node) entered)
    intro handled
    cases handled with
    | true =>
        apply Leads.bind (.note (Traced.HasEntered · (entered + 1)) _)
        exact fun _ => .pure true fun _ holds => holds
    | false => exact .pure false fun _ holds => holds
  leave node opened entered := by
    apply Leads.bind
      (leads_traced_of_hasEntered .visit node (fun _ => false) (visitor.visit node) entered)
    intro _
    exact leads_traced_of_hasEntered .post node (fun _ => false) (visitor.post node) entered

/-- A walk that comes to its end notes there how many pre hooks it has called. -/
theorem back?_log_walk {root : Node Context} {state : State} {log : Log}
    {journal : Journal State} (hwalk : visitor.walk root ⟨state, log⟩ = .ok () journal) :
    journal.log.back? = some (.walked root.kind
      ((visitor.callsOf root state log).countP fun call => call.phase = .pre)) := by
  have hleads : Leads (fun journal => journal.state.HasEntered 0) (visitor.traced.walk root)
      (fun _ journal => ∃ entered, journal.state.HasEntered entered ∧
        journal.log.back? = some (.walked root.kind entered))
      fun _ => True := by
    rw [walk_eq_walkRecursively, walkRecursively]
    apply Leads.bind (.note (Traced.HasEntered · 0) _)
    intro _
    apply Leads.bind (visitor.keeps_hasEntered.descend root [] 0)
    intro entered _ holds
    exact ⟨entered, holds, Array.back?_push⟩
  have hfollows := visitor.walk_traced_follows root ⟨⟨state, []⟩, log⟩
  have hafter := hleads ⟨⟨state, []⟩, log⟩ rfl
  rw [Journal.untraced, hwalk] at hfollows
  rw [callsOf]
  cases htraced : visitor.traced.walk root ⟨⟨state, []⟩, log⟩ with
  | ok answer after =>
      rw [htraced] at hfollows hafter
      cases hfollows
      obtain ⟨_, rfl, hlog⟩ := hafter
      exact hlog
  | error stop after =>
      rw [htraced] at hfollows
      cases hfollows

/-- What no hook handled and where no hook failed is heard of as that. -/
theorem answer_plain_of_unhandled {calls : List (Call Context Failure)}
    (hanswers : ∀ call ∈ calls, call.answer = .ok false) :
    ∀ call ∈ calls.map Call.plain, call.answer = .ok false := by
  rintro _ member
  obtain ⟨call, hcall, rfl⟩ := List.mem_map.mp member
  rw [Call.plain, hanswers call hcall]
  rfl

/-- Walks in which no hook handles a node or fails make the same calls and end alike. -/
theorem agree_of_unhandled (first : Visitor Context (Action First FirstFailure))
    (second : Visitor Context (Action Second SecondFailure)) {root : Node Context}
    {firstState : First} {secondState : Second} {firstLog secondLog : Log}
    (hfirst : ∀ call ∈ first.callsOf root firstState firstLog, call.answer = .ok false)
    (hsecond : ∀ call ∈ second.callsOf root secondState secondLog, call.answer = .ok false) :
    (first.callsOf root firstState firstLog).map Call.made =
        (second.callsOf root secondState secondLog).map Call.made ∧
      ending (first.walk root ⟨firstState, firstLog⟩) =
        ending (second.walk root ⟨secondState, secondLog⟩) := by
  have hagree := (InStep.walk first second root).agree ⟨⟨firstState, []⟩, firstLog⟩
    ⟨⟨secondState, []⟩, secondLog⟩ rfl
  rw [ending_walk_traced, ending_walk_traced] at hagree
  rcases hagree with apart | ⟨hheard, hending⟩
  · refine absurd apart (not_partWays_of_answers ?_ ?_)
    · exact answer_plain_of_unhandled hfirst
    · exact answer_plain_of_unhandled hsecond
  · have hmade := congrArg (List.map Call.made) hheard
    simp only [Journal.heard, List.map_map, Function.comp_def, Call.made_plain] at hmade
    exact ⟨hmade, hending⟩

/-- In the schedule every node has one call of each phase. -/
theorem countP_callsOf_phase {root : Node Context} {calls : List (Call Context Failure)}
    (hcalls : calls.map Call.made = root.schedule.map Moment.call) (phase : Phase) :
    (calls.countP fun call => call.phase = phase) = root.size := by
  calc
    (calls.countP fun call => call.phase = phase) =
        (calls.map Call.made).countP fun call => call.phase = phase := by
      rw [List.countP_map]
      rfl
    _ = ((root.schedule.filter fun moment => moment.phase = phase).map
          Moment.occurrence).length := by
      rw [hcalls, List.countP_map, List.length_map, List.countP_eq_length_filter]
      rfl
    _ = root.size := by
      rw [(root.perm_occurrences_schedule phase).length_eq, Node.length_occurrences]

/-- A walk over a well-shaped tree in which no hook handles a node or fails makes
the calls of the schedule.  It comes to its end, where it notes the number of
nodes of the tree. -/
theorem walk_of_unhandled {root : Node Context} (shaped : root.WellShaped) {state : State}
    {log : Log} (hanswers : ∀ call ∈ visitor.callsOf root state log, call.answer = .ok false) :
    (visitor.callsOf root state log).map Call.made = root.schedule.map Moment.call ∧
      ∃ journal, visitor.walk root ⟨state, log⟩ = .ok () journal ∧
        journal.log.back? = some (.walked root.kind root.size) := by
  -- The calls of a recorder that handles nothing are known, and a walk that gets
  -- the same answers makes the same calls.
  set quiet : Recorder Context := Recorder.handling [] fun _ => false
  have passive := quiet.passive_performing (fun _ => rfl) rfl (Or.inr fun _ => rfl) root.count
  have hothers : ∀ call ∈ (quiet.hooks.visitor.performing root.count).callsOf root .empty log,
      call.answer = .ok false := fun _ member => passive.answer_of_mem_callsOf member
  obtain ⟨hcalls, hending⟩ := agree_of_unhandled visitor _ hanswers hothers
  have hschedule := hcalls.trans (Recorder.walkCalls_handling_never shaped log)
  refine ⟨hschedule, ?_⟩
  obtain ⟨last, hquiet, -⟩ := Recorder.walk_of_wellShaped [] (fun _ => false) shaped log
  have hok : ending (visitor.walk root ⟨state, log⟩) = .ok () :=
    hending.trans (congrArg ending hquiet)
  cases hwalk : visitor.walk root ⟨state, log⟩ with
  | error stop journal =>
      rw [hwalk] at hok
      cases hok
  | ok answer journal =>
      refine ⟨journal, rfl, ?_⟩
      rw [back?_log_walk hwalk, countP_callsOf_phase hschedule .pre]

end Visitor

end CoolTree
