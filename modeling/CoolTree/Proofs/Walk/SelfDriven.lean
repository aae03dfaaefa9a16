import CoolTree.Proofs.Walk.Calls
import Mathlib.Data.List.Basic

/-!
# Walks that hooks drive

A pre hook may have all the children of its node walked itself, in their order,
and then answer that it handled the node.  The many walks that come out of this,
each started inside a hook of another, make the same calls as a single walk
does, except for the last two calls at the nodes whose hooks drive.  A malformed
node ends them all where it would end the single walk.
-/

namespace CoolTree

variable {Context : Type}

/-- Rules that drive walks over all children of the nodes of some kinds and
handle these nodes. -/
def DriveRule.whole (kinds : List Kind) : List DriveRule :=
  kinds.map fun kind => ⟨kind, .forward, true⟩

theorem DriveRule.drive?_whole (kinds : List Kind) (node : Node Context) :
    drive? (whole kinds) node =
      if node.kind ∈ kinds then some ⟨List.range node.children.length, true⟩ else none := by
  induction kinds with
  | nil => rfl
  | cons kind rest ih =>
      by_cases hkind : kind = node.kind
      · simp [whole, drive?, hkind, Selection.positions]
      · simpa [whole, drive?, hkind, eq_comm] using ih

namespace HookCall

/-- Whether the call is made even if the hooks of some kinds drive their walks. -/
def isKept (kinds : List Kind) (call : HookCall Context) : Bool :=
  call.phase = .pre ∨ call.node.kind ∉ kinds

theorem isKept_of_defect (kinds : List Kind) {call : HookCall Context} {defect : Defect}
    (hdefect : call.defect? = some defect) : call.isKept kinds = true := by
  obtain ⟨phase, node⟩ := call
  cases phase with
  | pre => simp [isKept]
  | visit => cases hdefect
  | post => cases hdefect

section Filter

variable {keep : HookCall Context → Bool}
  (hkeep : ∀ {call : HookCall Context} {defect : Defect},
    call.defect? = some defect → keep call = true)
include hkeep

/-- When only calls without defects are left out, the first defect stays. -/
theorem firstDefect?_filter (calls : List (HookCall Context)) :
    firstDefect? (calls.filter keep) = firstDefect? calls := by
  induction calls with
  | nil => rfl
  | cons call later ih =>
      rw [firstDefect?, firstDefect?] at ih ⊢
      rw [List.filter_cons, List.findSome?_cons]
      cases hdefect : call.defect? with
      | some defect => rw [if_pos (hkeep hdefect), List.findSome?_cons, hdefect]
      | none =>
          split
          · rw [List.findSome?_cons, hdefect]
            exact ih
          · exact ih

/-- When only calls without defects are left out, this may happen before or
after the calls are cut off. -/
theorem beforeDefect_filter (calls : List (HookCall Context)) :
    beforeDefect (calls.filter keep) = (beforeDefect calls).filter keep := by
  induction calls with
  | nil => rfl
  | cons call later ih =>
      rw [beforeDefect, beforeDefect] at ih ⊢
      rw [List.filter_cons, List.takeWhile_cons, isSound]
      cases hdefect : call.defect? with
      | some defect =>
          rw [if_pos (hkeep hdefect), List.takeWhile_cons, isSound, hdefect]
          rfl
      | none =>
          simp only [Option.isNone_none, if_true, List.filter_cons]
          split
          · rw [List.takeWhile_cons, isSound, hdefect, ih]
            rfl
          · exact ih

end Filter

end HookCall

namespace Recorder

def passive (own : List Kind) : Recorder Context where
  overrides := .generic own

def selfDriven (own kinds : List Kind) : Recorder Context where
  overrides := .generic own
  drive? := DriveRule.drive? (DriveRule.whole kinds)

theorem calls_passive (own : List Kind) (node : Node Context) :
    (passive own).calls node =
      ⟨.pre, node⟩ :: (node.children.flatMap (passive own).calls ++
        [⟨.visit, node⟩, ⟨.post, node⟩]) := by
  rw [calls_eq]
  rfl

/-- All positions of a list, in their order, lead through the list. -/
theorem filterMap_getElem?_range (nodes : List (Node Context)) :
    ((List.range nodes.length).filterMap fun position => nodes[position]?) = nodes := by
  induction nodes with
  | nil => rfl
  | cons node rest ih =>
      rw [List.length_cons, List.range_succ_eq_map, List.filterMap_cons,
        List.filterMap_map]
      exact congrArg (List.cons node) ih

/-- Driving the walks over children only leaves out calls. -/
theorem calls_selfDriven (own kinds : List Kind) (node : Node Context) :
    (selfDriven own kinds).calls node =
      ((passive own).calls node).filter (HookCall.isKept kinds) := by
  induction node using Node.induction with
  | step node ih =>
      have hbelow : node.children.flatMap (selfDriven own kinds).calls =
          (node.children.flatMap (passive own).calls).filter (HookCall.isKept kinds) := by
        rw [List.filter_flatMap]
        exact List.flatMap_congr ih
      rw [calls_eq, calls_passive, List.filter_cons, List.filter_append, ← hbelow]
      by_cases hkind : node.kind ∈ kinds
      · simp [driven, answers, selfDriven, DriveRule.drive?_whole, hkind, HookCall.isKept,
          filterMap_getElem?_range]
      · simp [driven, answers, selfDriven, DriveRule.drive?_whole, hkind, HookCall.isKept]

/-- A single walk enters the nodes of the tree in preorder. -/
theorem filterMap_entered?_calls_passive (own : List Kind) (node : Node Context) :
    ((passive own).calls node).filterMap HookCall.entered? = node.preorder := by
  induction node using Node.induction with
  | step node ih =>
      rw [calls_passive, Node.preorder_eq, List.filterMap_cons, List.filterMap_append,
        List.filterMap_flatMap, List.flatMap_congr ih]
      simp [HookCall.entered?]

/-- Driving the walks over the children of some kinds from inside the hooks
changes neither how the walk ends nor its events, but for the visit and post
events of these kinds, which are left out.  This also holds of a walk that a
malformed node ends early. -/
theorem walk_selfDriven (own kinds : List Kind) (root : Node Context) (log : Log) :
    ∃ plain driven,
      (passive own).walk root ⟨.empty, log⟩ =
          Visitor.passiveOutcome (Node.firstDefect? root.preorder) () plain ∧
        (selfDriven own kinds).walk root ⟨.empty, log⟩ =
          Visitor.passiveOutcome (Node.firstDefect? root.preorder) () driven ∧
        driven.state.events = plain.state.events.filter fun event =>
          event.phase = .pre ∨ event.node.kind ∉ kinds := by
  obtain ⟨plain, hplain, hplainState⟩ := (passive own).walk_outcome rfl rfl root .empty log
  obtain ⟨driven, hdriven, hdrivenState⟩ :=
    (selfDriven own kinds).walk_outcome rfl rfl root .empty log
  have hdefect : HookCall.firstDefect? ((passive own).calls root) =
      Node.firstDefect? root.preorder := by
    rw [HookCall.firstDefect?_eq, filterMap_entered?_calls_passive]
  refine ⟨plain, driven, ?_, ?_, ?_⟩
  · rw [hplain, hdefect]
  · rw [hdriven, calls_selfDriven,
      HookCall.firstDefect?_filter (HookCall.isKept_of_defect kinds), hdefect]
  · apply Array.toList_inj.mp
    rw [Array.toList_filter, hdrivenState, hplainState, Recording.toList_events_append_empty,
      Recording.toList_events_append_empty]
    calc
      (HookCall.beforeDefect ((selfDriven own kinds).calls root)).map (HookCall.event own) =
          (HookCall.beforeDefect (((passive own).calls root).filter (HookCall.isKept kinds))).map
            (HookCall.event own) := by rw [calls_selfDriven]
      _ = ((HookCall.beforeDefect ((passive own).calls root)).filter (HookCall.isKept kinds)).map
            (HookCall.event own) := by
        rw [HookCall.beforeDefect_filter (HookCall.isKept_of_defect kinds)]
      _ = ((HookCall.beforeDefect ((passive own).calls root)).map (HookCall.event own)).filter
            fun event => event.phase = .pre ∨ event.node.kind ∉ kinds := by
        rw [List.filter_map]
        rfl

end Recorder

end CoolTree
