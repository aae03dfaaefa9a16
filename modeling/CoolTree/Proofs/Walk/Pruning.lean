import CoolTree.Proofs.Walk.Masking

/-!
# Pruned walks

On a well-shaped tree nothing stops a recorder that never fails, whatever nodes
it handles.  With no node handled it makes every call of the schedule.  Handling
nodes prunes this run and does nothing else to it: the calls at places below a
handled node disappear, and so do the last two calls of the handled nodes
themselves.  Calls are deleted at places, not at nodes, since an equal node may
stand at another place that is kept.
-/

namespace CoolTree

variable {Context : Type}

namespace Moment

variable {root : Node Context}

/-- Without handled nodes every call is made. -/
theorem isMade_of_never (moment : Moment Context) : moment.IsMade (fun _ => false) root :=
  ⟨fun _ _ _ => rfl, Or.inr rfl⟩

theorem filter_isMade_of_never (moments : List (Moment Context)) :
    (moments.filter fun moment => moment.IsMade (fun _ => false) root) = moments :=
  List.filter_eq_self.mpr fun moment _ => decide_eq_true moment.isMade_of_never

end Moment

theorem HookCall.beforeDefect_of_none {calls : List (HookCall Context)}
    (hnone : firstDefect? calls = none) : beforeDefect calls = calls := by
  rw [firstDefect?, List.findSome?_eq_none_iff] at hnone
  apply List.takeWhile_eq_self_iff.mpr
  intro call member
  exact Option.isNone_iff_eq_none.mpr (hnone call member)

namespace Recorder

variable {handles : Node Context → Bool} {root : Node Context}

theorem not_violates_of_wellShaped (shaped : root.WellShaped) :
    ∀ occurrence ∈ root.occurrences, ¬ root.Violates handles occurrence := by
  intro occurrence member hviolates
  have hsound := Node.wellShaped_iff_isSound.mp shaped occurrence member
  exact hviolates.1 (Occurrence.isSound_iff.mp hsound)

/-- A recorder that handles nodes of a well-shaped tree writes down what the
schedule keeps of them, and ends well. -/
theorem walk_of_wellShaped (own : List Kind) (handles : Node Context → Bool)
    (shaped : root.WellShaped) (log : Log) :
    ∃ journal, (handling own handles).walk root ⟨.empty, log⟩ = .ok () journal ∧
      journal.state.events.toList =
        (root.schedule.filter fun moment => moment.IsMade handles root).map
          fun moment => moment.call.event own := by
  obtain ⟨journal, hwalk, hstate⟩ := (handling own handles).walk_outcome rfl rfl root .empty log
  have hnone : HookCall.firstDefect? ((handling own handles).calls root) = none :=
    firstDefect?_calls_of_sound own (not_violates_of_wellShaped shaped)
  rw [hnone] at hwalk
  refine ⟨journal, hwalk, ?_⟩
  rw [hstate, HookCall.beforeDefect_of_none hnone, Recording.toList_events_append_empty,
    calls_handling, List.map_map]
  rfl

/-- Handling nodes of a well-shaped tree only deletes calls.  The run without
handled nodes has three calls at every place of the tree, each of them once.
The run that handles some nodes has the same calls in the same order, except
those at places below a handled node and the last two calls of handled nodes. -/
theorem walk_handling_deletes (own : List Kind) (handles : Node Context → Bool)
    (shaped : root.WellShaped) (log : Log) :
    root.schedule.Nodup ∧
      (∀ moment, moment ∈ root.schedule ↔
        root.descendant? moment.occurrence.path = some moment.occurrence.node) ∧
      ∃ plain handled : Journal (Recording Context),
        (handling own fun _ => false).walk root ⟨.empty, log⟩ = .ok () plain ∧
        plain.state.events.toList =
          root.schedule.map (fun moment => moment.call.event own) ∧
        (handling own handles).walk root ⟨.empty, log⟩ = .ok () handled ∧
        handled.state.events.toList =
          (root.schedule.filter fun moment =>
            (∀ ancestor ∈ root.occurrences, ancestor.IsAbove moment.occurrence →
              handles ancestor.node = false) ∧
            (moment.phase = .pre ∨ handles moment.occurrence.node = false)).map
          fun moment => moment.call.event own := by
  obtain ⟨plain, hplain, hall⟩ := walk_of_wellShaped own (fun _ => false) shaped log
  obtain ⟨handled, hhandled, hkept⟩ := walk_of_wellShaped own handles shaped log
  rw [Moment.filter_isMade_of_never] at hall
  refine ⟨root.nodup_schedule, ?_, plain, handled, hplain, hall, hhandled, hkept⟩
  intro moment
  rw [Node.mem_schedule, Node.mem_occurrences]

/-- The outer of two nested blocks is handled, and so is the inner one, which is
never reached, and a leaf beside them. -/
theorem walk_handling_deletes_blocks :
    let root : Node Nat := .expression (.block 0
      [.block 1 [.block 2 [.noExpr 3], .noExpr 4], .noExpr 5])
    let handles : Node Nat → Bool := fun node => node.context ∈ [1, 2, 5]
    root.WellShaped ∧
      ∃ plain handled : Journal (Recording Nat),
        (handling [] fun _ => false).walk root ⟨.empty, #[]⟩ = .ok () plain ∧
        (handling [] handles).walk root ⟨.empty, #[]⟩ = .ok () handled ∧
        plain.state.events.size = 18 ∧
        handled.state.events.toList.map (fun event => (event.phase, event.node.context)) =
          [(.pre, 0), (.pre, 1), (.pre, 5), (.visit, 0), (.post, 0)] := by
  intro root handles
  have hshaped : root.WellShaped := by
    unfold root
    decide +kernel
  obtain ⟨-, -, plain, handled, hplain, hall, hhandled, hkept⟩ :=
    walk_handling_deletes [] handles hshaped #[]
  refine ⟨hshaped, plain, handled, hplain, hhandled, ?_, ?_⟩
  · rw [← Array.length_toList, hall, List.length_map]
    unfold root
    decide +kernel
  · have hcalls : handled.state.events.toList =
        ((handling [] handles).calls root).map (HookCall.event []) := by
      rw [hkept, calls_handling, List.map_map]
      rfl
    rw [hcalls]
    simp [root, handles, calls_handling_eq, Node.children, Node.slots, Expression.slots, inSlots,
      Node.context, Expression.context, HookCall.event]

end Recorder

end CoolTree
