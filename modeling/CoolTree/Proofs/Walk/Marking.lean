import CoolTree.Proofs.Walk.OnSchedule

/-!
# Hooks of single kinds

A hook that is given for one kind takes the place of the generic hook at the
nodes of that kind, and nowhere else.  A recorder marks the calls of such hooks,
so its events show which hook was called.  Without the marks they are the events
of a recorder that has generic hooks only.
-/

namespace CoolTree

variable {Context : Type}

/-- The event without the mark of a kind's own pre or post hook. -/
def Event.unmarked (event : Event Context) : Event Context :=
  { event with hook? := if event.phase = .visit then event.hook? else none }

def Recording.unmarked (recording : Recording Context) : Recording Context :=
  { recording with events := recording.events.map Event.unmarked }

def Journal.unmarked (journal : Journal (Recording Context)) : Journal (Recording Context) :=
  ⟨journal.state.unmarked, journal.log⟩

theorem HookCall.unmarked_event (own : List Kind) (call : HookCall Context) :
    (call.event own).unmarked = call.event [] := by
  obtain ⟨phase, node⟩ := call
  cases phase <;> simp [event, Event.unmarked]

namespace Recorder

/-- The same call is written down by recorders with and without a mark. -/
theorem record_follows {left right : Recorder Context}
    (hfailure : left.failure? = right.failure?) (own : List Kind) (call : HookCall Context)
    (leftWalk rightWalk : Node Context → Action (Recording Context) HookFailure Unit) :
    Follows Journal.unmarked
      ((left.record call.phase (call.event own).hook? call.node).perform call.node leftWalk)
      ((right.record call.phase (call.event []).hook? call.node).perform call.node rightWalk) := by
  have hevent : (⟨call.phase, (call.event own).hook?, call.node⟩ : Event Context).unmarked =
      ⟨call.phase, (call.event []).hook?, call.node⟩ := call.unmarked_event own
  rintro ⟨⟨events, counted⟩, log⟩
  simp only [Hook.perform, record, hfailure, Journal.unmarked, Recording.unmarked]
  cases right.failure? with
  | none => simp [Script.perform, mapState, Journal.unmarked, Recording.unmarked, hevent]
  | some point =>
      by_cases hcounts : point.counts call.phase call.node.kind = true <;>
        by_cases hearlier : counted = point.earlier <;>
          simp [hcounts, hearlier, Script.perform, mapState, Journal.unmarked,
            Recording.unmarked, hevent]

/-- Erasing the marks of own hooks gives the walk of a recorder that has generic
hooks only. -/
theorem walk_unmarked (own : List Kind) (handles : Node Context → Bool)
    (failure? : Option FailurePoint) (root : Node Context) :
    Follows Journal.unmarked
      ({ overrides := .generic own, handles, failure? : Recorder Context }.walk root)
      ({ overrides := .generic [], handles, failure? : Recorder Context }.walk root) := by
  set mixed : Recorder Context := { overrides := .generic own, handles, failure? }
  set generic : Recorder Context := { overrides := .generic [], handles, failure? }
  have hmixedOwn : mixed.overrides = .generic own := rfl
  have hgenericOwn : generic.overrides = .generic [] := rfl
  have hfailure : mixed.failure? = generic.failure? := rfl
  -- Neither recorder has children walked, so it does not matter how that is done.
  have hrecord := fun call => record_follows hfailure own call mixed.hooks.visitor.drive
    generic.hooks.visitor.drive
  rw [walk, walk, Visitor.drive_eq, Visitor.drive_eq]
  apply Visitor.Corresponds.walk (Follows.sequential fun _ _ => rfl) Node.KeepsShape.refl
  exact {
    pre := by
      intro node
      dsimp only [Visitor.performedBy]
      rw [visitor_pre hmixedOwn, visitor_pre hgenericOwn,
        perform_pre_of_undriven fun _ => rfl, perform_pre_of_undriven fun _ => rfl]
      apply Follows.bind (hrecord ⟨.pre, node⟩)
      intro _
      exact .pure _
    visit := by
      intro node
      dsimp only [Visitor.performedBy]
      rw [visitor_visit hmixedOwn, visitor_visit hgenericOwn]
      exact hrecord ⟨.visit, node⟩
    post := by
      intro node
      dsimp only [Visitor.performedBy]
      rw [visitor_post hmixedOwn, visitor_post hgenericOwn]
      exact hrecord ⟨.post, node⟩ }

/-- Where only visit hooks are overridden, only their calls are written down. -/
theorem filterMap_event?_none (calls : List (HookCall Context)) :
    calls.filterMap Overrides.none.event? =
      (calls.filter fun call => call.phase = .visit).map (HookCall.event []) := by
  induction calls with
  | nil => rfl
  | cons call later ih =>
      by_cases hvisit : call.phase = .visit <;>
        simp [Overrides.event?, hvisit, ih]

/-- A recorder without pre and post hooks, and that is not to fail, writes down
one visit for every place of a well-shaped tree. -/
theorem walk_of_plain {recorder : Recorder Context} (hplain : recorder.overrides = .none)
    (hdrive : ∀ node, recorder.drive? node = none) (hnever : recorder.failure? = none)
    {root : Node Context} (shaped : root.WellShaped) (recording : Recording Context) (log : Log) :
    ∃ (journal : Journal (Recording Context)) (visited : List (Occurrence Context)),
      recorder.walk root ⟨recording, log⟩ = .ok () journal ∧
      visited.Perm root.occurrences ∧
      journal.state.events.toList =
        recording.events.toList ++
          visited.map fun place => ⟨.visit, some place.node.kind, place.node⟩ := by
  have passive := passive_performing hdrive hnever (Or.inl hplain) root.count
  have hanswers : ∀ call ∈
      (recorder.hooks.visitor.performing root.count).callsOf root recording log,
      call.answer = .ok false := fun _ member => passive.answer_of_mem_callsOf member
  obtain ⟨hcalls, journal, hwalk, -⟩ := Visitor.walk_of_unhandled shaped hanswers
  have hevents := toList_events_walk hdrive root recording log
  rw [Recorder.walk, Visitor.drive, hwalk, walkCalls, hcalls, hplain, filterMap_event?_none,
    List.filter_map, List.map_map] at hevents
  refine ⟨journal, _, hwalk, root.perm_occurrences_schedule .visit, hevents.trans ?_⟩
  rw [List.map_map]
  congr 1
  apply List.map_congr_left
  intro moment member
  have hvisit : moment.phase = .visit := of_decide_eq_true (List.mem_filter.mp member).2
  simp [HookCall.event, Moment.call, hvisit]

/-- Own hooks of kinds take the place of generic ones, kind by kind.  Take a
recorder with own pre and post hooks for some kinds beside generic ones.  Its walk
has the outcome, the log and, but for the marks, the events of the recorder
without own hooks.  It makes calls of the schedule only, in their order, and each is
written down for the node it is made for: a visit as one of the node's kind, and a
pre or post call with a mark exactly when the kind has own hooks.  A recorder
without any pre and post hooks writes down its visits only, which on a well-shaped
tree are one for every place unless it is to fail. -/
theorem walk_ownHooks (own : List Kind) (handles : Node Context → Bool)
    (failure? : Option FailurePoint) (root : Node Context) (recording : Recording Context)
    (log : Log) :
    let mixed : Recorder Context := { overrides := .generic own, handles, failure? }
    let generic : Recorder Context := { overrides := .generic [], handles, failure? }
    let plain : Recorder Context := { overrides := .none, handles, failure? }
    mapState Journal.unmarked (mixed.walk root ⟨recording, log⟩) =
        generic.walk root ⟨recording.unmarked, log⟩ ∧
      (mixed.walkCalls root recording log).Sublist (root.schedule.map Moment.call) ∧
      (memoryAfter (mixed.walk root ⟨recording, log⟩)).state.events.toList =
        recording.events.toList ++ (mixed.walkCalls root recording log).map (fun call =>
          { phase := call.phase
            hook? :=
              if call.phase = .visit ∨ call.node.kind ∈ own then some call.node.kind else none
            node := call.node }) ∧
      (memoryAfter (plain.walk root ⟨recording, log⟩)).state.events.toList =
        recording.events.toList ++
          ((plain.walkCalls root recording log).filter fun call => call.phase = .visit).map
            (fun call => ⟨.visit, some call.node.kind, call.node⟩) ∧
      (failure? = none → root.WellShaped →
        ∃ (journal : Journal (Recording Context)) (visited : List (Occurrence Context)),
          plain.walk root ⟨recording, log⟩ = .ok () journal ∧
          visited.Perm root.occurrences ∧
          journal.state.events.toList =
            recording.events.toList ++
              visited.map fun place => ⟨.visit, some place.node.kind, place.node⟩) := by
  intro mixed generic plain
  refine ⟨walk_unmarked own handles failure? root ⟨recording, log⟩,
    Visitor.callsOf_sublist_schedule _ root recording log, ?_, ?_, ?_⟩
  · rw [mixed.toList_events_walk (fun _ => rfl), ← List.filterMap_eq_map]
    rfl
  · rw [plain.toList_events_walk (fun _ => rfl)]
    dsimp only [plain]
    rw [filterMap_event?_none]
    congr 1
    apply List.map_congr_left
    intro call member
    have hvisit : call.phase = .visit := of_decide_eq_true (List.mem_filter.mp member).2
    simp [HookCall.event, hvisit]
  · intro hnever shaped
    exact walk_of_plain rfl (fun _ => rfl) hnever shaped recording log

end Recorder

end CoolTree
