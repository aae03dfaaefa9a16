import CoolTree.Proofs.Walk.Driven

/-!
# How often nodes are entered

A pre hook that has children walked itself makes their nodes be entered more
than once: once for every time that the hook takes the child, and once more by
the walk unless the node is handled.  Further down these numbers multiply, since
every walk that enters the parent of a node brings them about again.
-/

namespace CoolTree

variable {Context State Failure : Type}

def Moment.isAt (phase : Phase) (path : List Nat) (moment : Moment Context) : Bool :=
  moment.phase = phase ∧ moment.occurrence.path = path

@[simp]
theorem Moment.isAt_under (phase : Phase) (position other : Nat) (path : List Nat)
    (moment : Moment Context) :
    (moment.under other).isAt phase (position :: path) =
      (decide (other = position) && moment.isAt phase path) := by
  simp [isAt, ← Bool.decide_and, and_left_comm]

@[simp]
theorem Moment.isAt_under_nil (phase : Phase) (position : Nat) (moment : Moment Context) :
    (moment.under position).isAt phase [] = false := by
  simp [isAt]

namespace Node

/-- The proper ancestors along a path, each with the position that leads on. -/
def ancestorsOn : List Nat → Node Context → List (Node Context × Nat)
  | [], _ => []
  | position :: path, node =>
      (node, position) :: (node.children[position]?).elim [] (ancestorsOn path)

variable (drive : Node Context → Drive)

/-- How often the node at the end of a path is entered: the product over its
proper ancestors of how often the pre hook there takes the next child, and once
more if it does not handle its node. -/
def multiplicity (root : Node Context) (path : List Nat) : Nat :=
  (root.ancestorsOn path).foldr
    (fun (ancestor, position) product =>
      ((drive ancestor).positions.count position + if (drive ancestor).handled then 0 else 1) *
        product)
    1

theorem multiplicity_cons {root child : Node Context} {position : Nat}
    (hchild : root.children[position]? = some child) (path : List Nat) :
    root.multiplicity drive (position :: path) =
      ((drive root).positions.count position + if (drive root).handled then 0 else 1) *
        child.multiplicity drive path := by
  rw [multiplicity, ancestorsOn, hchild]
  rfl

theorem count_walkedPositions {node child : Node Context} {position : Nat}
    (hchild : node.children[position]? = some child) :
    (node.walkedPositions drive).count position =
      (drive node).positions.count position + if (drive node).handled then 0 else 1 := by
  obtain ⟨hless, -⟩ := List.getElem?_eq_some_iff.mp hchild
  rw [walkedPositions, List.count_append]
  cases (drive node).handled with
  | true => rfl
  | false =>
      simp only [Bool.false_eq_true, if_false]
      rw [List.count_eq_one_of_mem List.nodup_range (List.mem_range.mpr hless)]

/-- Below a child are the moments of the child's own tree. -/
theorem countP_drivenMomentsAt (node : Node Context) (phase : Phase) (path : List Nat)
    (other position : Nat) :
    (node.drivenMomentsAt drive other).countP (Moment.isAt phase (position :: path)) =
      if other = position then
        (node.children[position]?).elim 0 fun child =>
          (child.drivenMoments drive).countP (Moment.isAt phase path)
      else 0 := by
  rw [drivenMomentsAt]
  by_cases hposition : other = position
  · subst hposition
    cases node.children[other]? with
    | none => simp
    | some child => simp [List.countP_map, Function.comp_def]
  · cases node.children[other]? with
    | none => simp [hposition]
    | some child => simp [List.countP_map, Function.comp_def, hposition]

/-- Each time that a child is walked adds the moments of its tree. -/
theorem countP_flatMap_drivenMomentsAt (node : Node Context) (phase : Phase) (path : List Nat)
    (position : Nat) (positions : List Nat) :
    (positions.flatMap (node.drivenMomentsAt drive)).countP
        (Moment.isAt phase (position :: path)) =
      positions.count position * (node.children[position]?).elim 0 fun child =>
        (child.drivenMoments drive).countP (Moment.isAt phase path) := by
  induction positions with
  | nil => simp
  | cons other rest ih =>
      rw [List.flatMap_cons, List.countP_append, ih, countP_drivenMomentsAt, List.count_cons]
      by_cases hposition : other = position
      · simp [hposition, Nat.add_mul, Nat.add_comm]
      · simp [hposition]

theorem countP_flatMap_drivenMomentsAt_nil (node : Node Context) (phase : Phase)
    (positions : List Nat) :
    (positions.flatMap (node.drivenMomentsAt drive)).countP (Moment.isAt phase []) = 0 := by
  rw [List.countP_eq_zero]
  intro moment member
  obtain ⟨position, -, hmoment⟩ := List.mem_flatMap.mp member
  rw [drivenMomentsAt] at hmoment
  cases hchild : node.children[position]? with
  | none => simp [hchild] at hmoment
  | some child =>
      rw [hchild] at hmoment
      obtain ⟨inner, -, rfl⟩ := List.mem_map.mp hmoment
      simp

/-- The moments of a place multiply along the path that leads there. -/
theorem countP_drivenMoments {root target : Node Context} {path : List Nat}
    (hpath : root.descendant? path = some target) (phase : Phase) :
    (root.drivenMoments drive).countP (Moment.isAt phase path) =
      if phase = .pre ∨ (drive target).handled = false then root.multiplicity drive path
      else 0 := by
  induction path generalizing root with
  | nil =>
      obtain rfl := Option.some.inj hpath
      rw [drivenMoments_eq, List.countP_cons, List.countP_append,
        countP_flatMap_drivenMomentsAt_nil]
      cases phase <;> cases (drive root).handled <;>
        simp [Moment.isAt, multiplicity, ancestorsOn]
  | cons position path ih =>
      obtain ⟨child, hchild, hinner⟩ := Option.bind_eq_some_iff.mp hpath
      have henter : ¬ (⟨.pre, ⟨[], root⟩⟩ : Moment Context).isAt phase (position :: path) := by
        simp [Moment.isAt]
      have hleave : (if (drive root).handled then []
          else [⟨.visit, ⟨[], root⟩⟩, ⟨.post, ⟨[], root⟩⟩] : List (Moment Context)).countP
            (Moment.isAt phase (position :: path)) = 0 := by
        cases (drive root).handled <;> simp [Moment.isAt]
      rw [drivenMoments_eq, List.countP_cons_of_neg henter, List.countP_append, hleave,
        countP_flatMap_drivenMomentsAt, count_walkedPositions drive hchild, hchild,
        Option.elim_some, ih hinner, multiplicity_cons drive hchild, Nat.add_zero]
      -- Whether the last two hooks are called is up to the node at the end of the path.
      by_cases hleft : phase = .pre ∨ (drive target).handled = false
      · rw [if_pos hleft, if_pos hleft]
      · rw [if_neg hleft, if_neg hleft, Nat.mul_zero]

/-- The moments are at places of the tree. -/
theorem occurrence_mem_of_mem_drivenMoments {root : Node Context} {moment : Moment Context}
    (member : moment ∈ root.drivenMoments drive) : moment.occurrence ∈ root.occurrences := by
  induction root using Node.induction generalizing moment with
  | step root ih =>
      have hroot : (⟨[], root⟩ : Occurrence Context) ∈ root.occurrences := mem_occurrences.mpr rfl
      rw [drivenMoments_eq, List.mem_cons, List.mem_append] at member
      rcases member with rfl | hbelow | hleave
      · exact hroot
      · obtain ⟨position, -, hmoment⟩ := List.mem_flatMap.mp hbelow
        rw [drivenMomentsAt] at hmoment
        cases hchild : root.children[position]? with
        | none => simp [hchild] at hmoment
        | some child =>
            rw [hchild] at hmoment
            obtain ⟨inner, hinner, rfl⟩ := List.mem_map.mp hmoment
            have hplace := mem_occurrences.mp (ih child (List.mem_of_getElem? hchild) hinner)
            apply mem_occurrences.mpr
            rw [Moment.occurrence_under, Occurrence.path_under, descendant?, hchild]
            exact hplace
      · split at hleave
        · cases hleave
        · simp only [List.mem_cons, List.not_mem_nil, or_false] at hleave
          rcases hleave with rfl | rfl <;> exact hroot

end Node

namespace Visitor.DrivenBy

variable {drive : Node Context → Drive} {visitor : Visitor Context (Hook State Failure)}

/-- A visitor that never fails and whose pre hooks walk children themselves walks
every well-shaped tree to its end.  The calls of its walk and of the walks nested
in it are made at places of the tree.  At each place, the pre hook is called as
often as the product over the proper ancestors says, in which an ancestor counts
how often its hook takes the next child, and once more if it does not handle its
node.  The last two hooks are called as often if the node is not handled there,
and never otherwise.  Where something about a node tells its place, the calls
themselves show these numbers. -/
theorem walk_multiplicity (driven : visitor.DrivenBy drive) {root : Node Context}
    (shaped : root.WellShaped) (state : State) (log : Log) :
    (∃ journal, visitor.drive root ⟨state, log⟩ = .ok () journal) ∧
      (∃ moments : List (Moment Context),
        visitor.recalledCalls root state log = moments.map Moment.call ∧
        (∀ moment ∈ moments, moment.occurrence ∈ root.occurrences) ∧
        ∀ place ∈ root.occurrences, ∀ phase,
          (moments.countP fun moment =>
              moment.phase = phase ∧ moment.occurrence.path = place.path) =
            if phase = .pre ∨ (drive place.node).handled = false then
              root.multiplicity drive place.path
            else 0) ∧
      ∀ place ∈ root.occurrences, ∀ isThere : Node Context → Bool,
        (∀ other ∈ root.occurrences, isThere other.node = true ↔ other.path = place.path) →
        ∀ phase, ((visitor.recalledCalls root state log).countP fun call =>
              call.phase = phase ∧ isThere call.node) =
            if phase = .pre ∨ (drive place.node).handled = false then
              root.multiplicity drive place.path
            else 0 := by
  obtain ⟨⟨⟩, next, hrecalling, -, hmade⟩ := driven.makes_drive shaped ⟨⟨state, []⟩, log⟩
  have hcalls : visitor.recalledCalls root state log =
      (root.drivenMoments drive).map Moment.call := by
    rw [recalledCalls, hrecalling]
    exact hmade
  have hcount : ∀ place ∈ root.occurrences, ∀ phase,
      (root.drivenMoments drive).countP (Moment.isAt phase place.path) =
        if phase = .pre ∨ (drive place.node).handled = false then
          root.multiplicity drive place.path
        else 0 :=
    fun place member => Node.countP_drivenMoments drive (Node.mem_occurrences.mp member)
  refine ⟨?_, ?_, ?_⟩
  · have hfollows := visitor.drive_recalling_follows root ⟨⟨state, []⟩, log⟩
    rw [hrecalling] at hfollows
    exact ⟨next.unrecalled, hfollows.symm⟩
  · exact ⟨_, hcalls, fun _ member => Node.occurrence_mem_of_mem_drivenMoments drive member, hcount⟩
  · intro place member isThere hthere phase
    rw [← hcount place member, hcalls, List.countP_map]
    apply List.countP_congr
    intro moment hmoment
    have hplace := hthere _ (Node.occurrence_mem_of_mem_drivenMoments drive hmoment)
    simp only [Function.comp_apply, Moment.isAt, decide_eq_true_eq]
    exact and_congr_right fun _ => hplace

/-- Two nested blocks take their only child twice and do not handle themselves, so
the leaf inside is entered three times for each time that the inner block is. -/
theorem walk_multiplicity_blocks :
    let recorder : Recorder Nat := { drive? := DriveRule.drive? [⟨.block, .twice, false⟩] }
    let root : Node Nat := .expression (.block 0 [.block 1 [.noExpr 2]])
    recorder.hooks.visitor.DrivenBy recorder.driveAt ∧ root.WellShaped ∧
      (∃ journal, recorder.hooks.visitor.drive root ⟨.empty, #[]⟩ = .ok () journal) ∧
      ∀ phase, ((recorder.hooks.visitor.recalledCalls root .empty #[]).countP fun call =>
        call.phase = phase ∧ decide (call.node.context = 2)) = 9 := by
  intro recorder root
  have driven : recorder.hooks.visitor.DrivenBy recorder.driveAt := Recorder.drivenBy rfl rfl
  have hshaped : root.WellShaped := by
    unfold root
    decide +kernel
  have hleaf : (⟨[0, 0], .expression (.noExpr 2)⟩ : Occurrence Nat) ∈ root.occurrences :=
    Node.mem_occurrences.mpr rfl
  obtain ⟨hend, -, hcalls⟩ := walk_multiplicity driven hshaped .empty #[]
  refine ⟨driven, hshaped, hend, fun phase => ?_⟩
  rw [hcalls _ hleaf fun node => decide (node.context = 2)]
  · have hmultiplicity : root.multiplicity recorder.driveAt [0, 0] = 9 := rfl
    exact (if_pos (Or.inr rfl)).trans hmultiplicity
  · unfold root
    decide +kernel

end Visitor.DrivenBy

end CoolTree
