import CoolTree.Proofs.Syntax.Outline
import CoolTree.Proofs.Syntax.Skeleton

/-!
# Trees by their levels

When the heads of a tree are listed in preorder, each with the number of its
ancestors, the outline of the tree can be read back: what follows a node on
deeper levels is below it, and the first head on a level that is not deeper is
that of a sibling or of something above.
-/

namespace CoolTree

variable {Context Image : Type}

/-- The head of a node and its level, when the root is on a given level. -/
def Occurrence.level (depth : Nat) (occurrence : Occurrence Context) : Nat × Head :=
  (depth + occurrence.depth, occurrence.node.head)

theorem Occurrence.level_under (depth position : Nat) (occurrence : Occurrence Context) :
    (occurrence.under position).level depth = occurrence.level (depth + 1) := by
  rw [level, level, depth_under, node_under, Nat.add_assoc, Nat.add_comm 1]

namespace Node

def levels (depth : Nat) (node : Node Context) : List (Nat × Head) :=
  node.occurrences.map (Occurrence.level depth)

theorem map_level_occurrencesFrom (depth position : Nat) (children : List (Node Context)) :
    (occurrencesFrom position children).map (Occurrence.level depth) =
      children.flatMap (levels (depth + 1)) := by
  induction children generalizing position with
  | nil => simp [occurrencesFrom]
  | cons child rest ih =>
      rw [occurrencesFrom, List.map_append, List.map_map, ih, List.flatMap_cons, levels]
      apply congrArg (· ++ _)
      apply List.map_congr_left
      intro occurrence _
      exact Occurrence.level_under depth position occurrence

theorem levels_eq (depth : Nat) (node : Node Context) :
    node.levels depth = (depth, node.head) :: node.children.flatMap (levels (depth + 1)) := by
  rw [levels, occurrences, List.map_cons, map_level_occurrencesFrom]
  rfl

theorem length_levels (depth : Nat) (node : Node Context) :
    (node.levels depth).length = node.size := by
  rw [levels, List.length_map, length_occurrences]

/-- What is listed begins above a level, unless nothing is listed. -/
def BeginsAbove (depth : Nat) (rest : List (Nat × Head)) : Prop :=
  ∀ entry ∈ rest.head?, entry.1 < depth

theorem not_beginsAbove_levels (depth : Nat) (node : Node Context) (rest : List (Nat × Head)) :
    ¬ BeginsAbove depth (node.levels depth ++ rest) := by
  intro habove
  rw [levels_eq] at habove
  exact Nat.lt_irrefl depth (habove (depth, node.head) rfl)

/-- Behind a tree its siblings begin above the next level, and so does what
begins above the tree. -/
theorem beginsAbove_siblings {depth : Nat} (siblings : List (Node Context))
    {rest : List (Nat × Head)} (hrest : BeginsAbove depth rest) :
    BeginsAbove (depth + 1) (siblings.flatMap (levels depth) ++ rest) := by
  intro entry hentry
  cases siblings with
  | nil => exact Nat.lt_succ_of_lt (hrest entry hentry)
  | cons sibling others =>
      rw [List.flatMap_cons, levels_eq] at hentry
      obtain rfl := Option.some.inj hentry
      exact Nat.lt_succ_self depth

theorem sameOutlines_of_levels {depth : Nat} {lefts : List (Node Context)}
    (each : ∀ left ∈ lefts, ∀ (right : Node Image) leftRest rightRest,
      BeginsAbove (depth + 1) leftRest → BeginsAbove (depth + 1) rightRest →
      left.levels depth ++ leftRest = right.levels depth ++ rightRest →
      left.SameOutline right ∧ leftRest = rightRest)
    {rights : List (Node Image)} {leftRest rightRest : List (Nat × Head)}
    (hleft : BeginsAbove depth leftRest) (hright : BeginsAbove depth rightRest)
    (heq : lefts.flatMap (levels depth) ++ leftRest =
      rights.flatMap (levels depth) ++ rightRest) :
    List.Forall₂ SameOutline lefts rights ∧ leftRest = rightRest := by
  induction lefts generalizing rights with
  | nil =>
      cases rights with
      | nil => exact ⟨.nil, heq⟩
      | cons right others =>
          rw [List.flatMap_nil, List.nil_append, List.flatMap_cons, List.append_assoc] at heq
          exact absurd (heq ▸ hleft) (not_beginsAbove_levels depth right _)
  | cons left siblings ih =>
      cases rights with
      | nil =>
          rw [List.flatMap_nil, List.nil_append, List.flatMap_cons, List.append_assoc] at heq
          exact absurd (heq ▸ hright) (not_beginsAbove_levels depth left _)
      | cons right others =>
          rw [List.flatMap_cons, List.flatMap_cons, List.append_assoc, List.append_assoc] at heq
          obtain ⟨hfirst, hbehind⟩ := each left List.mem_cons_self right _ _
            (beginsAbove_siblings siblings hleft) (beginsAbove_siblings others hright) heq
          obtain ⟨hothers, hrest⟩ :=
            ih (fun other member => each other (List.mem_cons_of_mem left member)) hbehind
          exact ⟨.cons hfirst hothers, hrest⟩

/-- The levels of a tree, followed by something above it, tell its outline and
where it ends. -/
theorem sameOutline_of_levels_append (left : Node Context) (right : Node Image) (depth : Nat)
    (leftRest rightRest : List (Nat × Head)) (hleft : BeginsAbove (depth + 1) leftRest)
    (hright : BeginsAbove (depth + 1) rightRest)
    (heq : left.levels depth ++ leftRest = right.levels depth ++ rightRest) :
    left.SameOutline right ∧ leftRest = rightRest := by
  induction left using Node.induction generalizing right depth leftRest rightRest with
  | step left ih =>
      rw [left.levels_eq, right.levels_eq] at heq
      obtain ⟨hroot, hbelow⟩ := List.cons.inj heq
      obtain ⟨hchildren, hrest⟩ := sameOutlines_of_levels
        (fun child member right => ih child member right (depth + 1)) hleft hright hbelow
      exact ⟨.of_children (Prod.mk.inj hroot).2 hchildren, hrest⟩

/-- Trees with the same levels have the same outline. -/
theorem sameOutline_of_levels {left : Node Context} {right : Node Image} {depth : Nat}
    (heq : left.levels depth = right.levels depth) : left.SameOutline right := by
  have hlevels : left.levels depth ++ [] = right.levels depth ++ [] := by rw [heq]
  have hnothing : BeginsAbove (depth + 1) [] := fun entry hentry => by simp at hentry
  exact (left.sameOutline_of_levels_append right depth [] [] hnothing hnothing hlevels).1

/-! ## Skeletons by their levels -/

/-- Without contexts an outline is all there is to a tree. -/
theorem SameOutline.eq_of_unit {left right : Node Unit} (same : left.SameOutline right) :
    left = right := by
  have hcontexts : ∀ node : Node Unit, node.preorder.map context = List.replicate node.size () := by
    intro node
    apply List.eq_replicate_iff.mpr
    exact ⟨by rw [List.length_map, length_preorder], fun _ _ => rfl⟩
  apply same.eq_of_contexts
  rw [hcontexts, hcontexts, same.size_eq]

/-- A skeleton has the displayed heads of the tree on the same levels. -/
theorem levels_skeleton (depth : Nat) (node : Node Context) :
    node.skeleton.levels depth =
      (node.levels depth).map fun level => (level.1, level.2.displayed) := by
  rw [levels, levels, occurrences_skeleton, List.map_map, List.map_map]
  apply List.map_congr_left
  intro occurrence _
  exact Prod.ext rfl occurrence.node.head_skeleton

/-- Skeletons are equal when the same heads are displayed on the same levels. -/
theorem skeleton_eq_of_levels {left : Node Context} {right : Node Image} {depth : Nat}
    (heq : ((left.levels depth).map fun level => (level.1, level.2.displayed)) =
      (right.levels depth).map fun level => (level.1, level.2.displayed)) :
    left.skeleton = right.skeleton := by
  apply SameOutline.eq_of_unit
  apply sameOutline_of_levels
  rw [levels_skeleton, levels_skeleton, heq]

end Node

end CoolTree
