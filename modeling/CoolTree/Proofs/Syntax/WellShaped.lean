import CoolTree.Proofs.Syntax.Occurrence
import Mathlib.Data.List.TakeWhile

/-!
# Well-shaped trees

A tree is well-shaped when none of its nodes is malformed.  In a list of nodes
the first malformed one splits off those before it, and this split goes through
the concatenation of lists: as long as nothing in the left list is malformed,
the search goes on in the right one.
-/

namespace CoolTree

variable {Context : Type}

def Occurrence.isSound (occurrence : Occurrence Context) : Bool :=
  occurrence.node.defect?.isNone

theorem Occurrence.isSound_iff {occurrence : Occurrence Context} :
    occurrence.isSound = true ↔ occurrence.node.defect? = none :=
  Option.isNone_iff_eq_none

namespace Node

/-- The report of a malformed node names its kind. -/
theorem message_of_defect? {node : Node Context} {defect : Defect}
    (malformed : node.defect? = some defect) :
    defect.message = "malformed AST: `" ++ node.kind.label ++ "` node requires " ++
      defect.requirement := by
  rw [← kind_of_defect? malformed]
  rfl

def firstDefect? (nodes : List (Node Context)) : Option Defect :=
  nodes.findSome? defect?

def beforeDefect (nodes : List (Node Context)) : List (Node Context) :=
  nodes.takeWhile fun node => node.defect?.isNone

/-- No node of the tree is malformed. -/
def WellShaped (node : Node Context) : Prop :=
  firstDefect? node.preorder = none

instance (node : Node Context) : Decidable node.WellShaped :=
  inferInstanceAs (Decidable (firstDefect? node.preorder = none))

theorem firstDefect?_eq_none_iff {nodes : List (Node Context)} :
    firstDefect? nodes = none ↔ ∀ node ∈ nodes, node.defect? = none :=
  List.findSome?_eq_none_iff

theorem firstDefect?_append (left right : List (Node Context)) :
    firstDefect? (left ++ right) = (firstDefect? left).or (firstDefect? right) :=
  List.findSome?_append

theorem beforeDefect_append_of_none {left : List (Node Context)} (right : List (Node Context))
    (hnone : firstDefect? left = none) :
    beforeDefect (left ++ right) = left ++ beforeDefect right := by
  apply List.takeWhile_append_of_pos
  intro node member
  rw [firstDefect?_eq_none_iff.mp hnone node member]
  rfl

theorem beforeDefect_of_none {nodes : List (Node Context)} (hnone : firstDefect? nodes = none) :
    beforeDefect nodes = nodes := by
  simpa [beforeDefect] using beforeDefect_append_of_none [] hnone

theorem beforeDefect_append_of_some {left : List (Node Context)} (right : List (Node Context))
    {defect : Defect} (hsome : firstDefect? left = some defect) :
    beforeDefect (left ++ right) = beforeDefect left := by
  induction left with
  | nil => simp [firstDefect?] at hsome
  | cons node rest ih =>
      rw [List.cons_append, beforeDefect, beforeDefect, List.takeWhile_cons, List.takeWhile_cons]
      cases hdefect : node.defect? with
      | some defect => rfl
      | none =>
          rw [firstDefect?, List.findSome?_cons, hdefect] at hsome
          exact congrArg (List.cons node) (ih hsome)

/-- A tree is searched at its root first and then in its children. -/
theorem firstDefect?_preorder (node : Node Context) :
    firstDefect? node.preorder =
      node.defect?.or (firstDefect? (node.children.flatMap preorder)) := by
  rw [preorder_eq, firstDefect?, List.findSome?_cons]
  cases node.defect? <;> rfl

theorem wellShaped_iff {node : Node Context} :
    node.WellShaped ↔ node.defect? = none ∧ ∀ child ∈ node.children, child.WellShaped := by
  simp only [WellShaped, firstDefect?_eq_none_iff]
  rw [preorder_eq, List.forall_mem_cons, List.forall_mem_flatMap]

theorem WellShaped.of_mem_preorder {root node : Node Context} (shaped : root.WellShaped)
    (member : node ∈ root.preorder) : node.WellShaped := by
  induction root using induction with
  | step root ih =>
      rw [preorder_eq, List.mem_cons, List.mem_flatMap] at member
      rcases member with rfl | ⟨child, hchild, hbelow⟩
      · exact shaped
      · exact ih child hchild ((wellShaped_iff.mp shaped).2 child hchild) hbelow

theorem WellShaped.of_mem_occurrences {root : Node Context} {occurrence : Occurrence Context}
    (shaped : root.WellShaped) (member : occurrence ∈ root.occurrences) :
    occurrence.node.WellShaped := by
  apply shaped.of_mem_preorder
  rw [← map_node_occurrences]
  exact List.mem_map_of_mem member

theorem beforeDefect_preorder_of_none {node : Node Context} (hnone : node.defect? = none) :
    beforeDefect node.preorder = node :: beforeDefect (node.children.flatMap preorder) := by
  rw [preorder_eq, beforeDefect, List.takeWhile_cons, hnone]
  rfl

theorem beforeDefect_preorder_of_some {node : Node Context} {defect : Defect}
    (hsome : node.defect? = some defect) : beforeDefect node.preorder = [] := by
  rw [preorder_eq, beforeDefect, List.takeWhile_cons, hsome]
  rfl

/-! ## Occurrences before the first malformed one -/

def soundOccurrences (node : Node Context) : List (Occurrence Context) :=
  node.occurrences.takeWhile Occurrence.isSound

theorem defect?_of_mem_soundOccurrences {node : Node Context} {occurrence : Occurrence Context}
    (member : occurrence ∈ node.soundOccurrences) : occurrence.node.defect? = none :=
  Occurrence.isSound_iff.mp (List.mem_takeWhile_imp member)

theorem wellShaped_iff_isSound {node : Node Context} :
    node.WellShaped ↔ ∀ occurrence ∈ node.occurrences, occurrence.isSound = true := by
  rw [WellShaped, firstDefect?_eq_none_iff, ← map_node_occurrences]
  simp [Occurrence.isSound_iff]

theorem soundOccurrences_of_wellShaped {node : Node Context} (shaped : node.WellShaped) :
    node.soundOccurrences = node.occurrences :=
  List.takeWhile_eq_self_iff.mpr (wellShaped_iff_isSound.mp shaped)

/-- A tree that is not well-shaped has a first malformed occurrence. -/
theorem exists_first_malformed {node : Node Context} (malformed : ¬ node.WellShaped) :
    ∃ (first : Occurrence Context) (later : List (Occurrence Context)) (defect : Defect),
      node.occurrences = node.soundOccurrences ++ first :: later ∧
        first.node.defect? = some defect := by
  have hsplit : node.soundOccurrences ++ node.occurrences.dropWhile Occurrence.isSound =
      node.occurrences := List.takeWhile_append_dropWhile
  have hfirst := List.head?_dropWhile_not Occurrence.isSound node.occurrences
  cases hrest : node.occurrences.dropWhile Occurrence.isSound with
  | nil =>
      exact absurd (wellShaped_iff_isSound.mpr (List.dropWhile_eq_nil_iff.mp hrest)) malformed
  | cons first later =>
      rw [hrest] at hsplit hfirst
      cases hdefect : first.node.defect? with
      | none => simp [Occurrence.isSound, hdefect] at hfirst
      | some defect => exact ⟨first, later, defect, hsplit.symm, hdefect⟩

end Node

end CoolTree
