import CoolTree.Graph.Basic
import CoolTree.Proofs.Syntax.Occurrence
import Mathlib.Data.List.Forall2

/-!
# The edges of a tree

When the nodes of a tree are numbered in preorder, every node but the root has
one edge that leads to it.  The edges stand in the order of the nodes they lead
to, and each comes from the parent of its node and bears the slot that the
parent has for this child.
-/

namespace CoolTree

variable {Context : Type}

namespace Node

mutual

def edgesFrom (node : Node Context) (number : Nat) : List Edge :=
  edgesAmong number (number + 1) node.slots
termination_by 2 * node.size
decreasing_by
  have hsize := node.size_eq
  rw [children] at hsize
  omega

/-- The edges from a node to some of its children and inside their trees, given
the number of the first of these children. -/
def edgesAmong (source target : Nat) (slots : List (Slot × Node Context)) : List Edge :=
  match slots with
  | [] => []
  | (slot, child) :: rest =>
      ⟨source, target, slot⟩ :: child.edgesFrom target ++
        edgesAmong source (target + child.size) rest
termination_by 2 * totalSize (slots.map Prod.snd) + 1
decreasing_by
  · simp only [List.map_cons, totalSize_cons]
    omega
  · have hsize := child.size_eq
    simp only [List.map_cons, totalSize_cons]
    omega

end

end Node

/-- The edge leads to a numbered occurrence from its parent, through the slot
that the parent has for it. -/
def Edge.LeadsTo (numbered : List (Occurrence Context × Nat)) (entry : Occurrence Context × Nat)
    (edge : Edge) : Prop :=
  edge.target = entry.2 ∧ edge.source < edge.target ∧
    ∃ path position parent, entry.1.path = path ++ [position] ∧
      (⟨path, parent⟩, edge.source) ∈ numbered ∧
      parent.slots[position]? = some (edge.slot, entry.1.node)

/-- What leads to an occurrence still does when the tree is seen from one level
higher. -/
theorem Edge.LeadsTo.under {numbered outer : List (Occurrence Context × Nat)} {position : Nat}
    {entry : Occurrence Context × Nat} {edge : Edge} (leads : edge.LeadsTo numbered entry)
    (hplace : ∀ occurrence number, (occurrence, number) ∈ numbered →
      (occurrence.under position, number) ∈ outer) :
    edge.LeadsTo outer (entry.1.under position, entry.2) := by
  obtain ⟨htarget, hless, path, place, parent, hpath, hparent, hslot⟩ := leads
  refine ⟨htarget, hless, position :: path, place, parent, ?_, ?_, hslot⟩
  · rw [Occurrence.path_under, hpath, List.cons_append]
  · exact hplace ⟨path, parent⟩ edge.source hparent

namespace Node

theorem zipIdx_map_under (occurrences : List (Occurrence Context)) (position number : Nat) :
    (occurrences.map (.under position)).zipIdx number =
      (occurrences.zipIdx number).map fun entry => (entry.1.under position, entry.2) := by
  rw [List.zipIdx_map]
  rfl

theorem edgesAmong_leadTo {node : Node Context} {source : Nat}
    {numbered : List (Occurrence Context × Nat)} {slots : List (Slot × Node Context)}
    (each : ∀ child ∈ slots.map Prod.snd, ∀ number,
      List.Forall₂ (Edge.LeadsTo (child.occurrences.zipIdx number))
        (child.occurrences.zipIdx number).tail (child.edgesFrom number))
    (before : List (Slot × Node Context)) (hslots : node.slots = before ++ slots)
    (hparent : (⟨[], node⟩, source) ∈ numbered) (target : Nat) (hless : source < target)
    (hplace : ∀ entry ∈ (occurrencesFrom before.length (slots.map Prod.snd)).zipIdx target,
      entry ∈ numbered) :
    List.Forall₂ (Edge.LeadsTo numbered)
      ((occurrencesFrom before.length (slots.map Prod.snd)).zipIdx target)
      (edgesAmong source target slots) := by
  induction slots generalizing before target with
  | nil =>
      rw [edgesAmong, List.map_nil, occurrencesFrom]
      exact .nil
  | cons first rest ih =>
      obtain ⟨slot, child⟩ := first
      have hroot : child.occurrences.zipIdx target =
          (⟨[], child⟩, target) :: (child.occurrences.zipIdx target).tail := by
        rw [occurrences]
        rfl
      rw [List.map_cons, occurrencesFrom, List.zipIdx_append, zipIdx_map_under, List.length_map,
        length_occurrences] at hplace ⊢
      rw [edgesAmong]
      apply List.rel_append
      · rw [hroot, List.map_cons]
        apply List.Forall₂.cons
        · refine ⟨rfl, hless, [], before.length, node, rfl, hparent, ?_⟩
          rw [hslots]
          simp
        · apply List.forall₂_map_left_iff.mpr
          apply (each child List.mem_cons_self target).imp
          intro entry edge leads
          apply leads.under
          intro occurrence number member
          apply hplace
          exact List.mem_append_left _ (List.mem_map.mpr ⟨(occurrence, number), member, rfl⟩)
      · have hnext := ih (fun other member => each other (List.mem_cons_of_mem child member))
          (before ++ [(slot, child)]) (by rw [hslots, List.append_cons])
          (target + child.size) (by omega)
        rw [List.length_append, List.length_singleton] at hnext
        exact hnext fun entry member => hplace entry (List.mem_append_right _ member)

/-- The edges inside a tree lead to its nodes but the root, in preorder. -/
theorem edgesFrom_leadTo (node : Node Context) (number : Nat) :
    List.Forall₂ (Edge.LeadsTo (node.occurrences.zipIdx number))
      (node.occurrences.zipIdx number).tail (node.edgesFrom number) := by
  induction node using Node.induction generalizing number with
  | step node ih =>
      rw [edgesFrom, occurrences, List.zipIdx_cons, List.tail_cons, children]
      apply edgesAmong_leadTo ih [] rfl
      · exact List.mem_cons_self
      · exact Nat.lt_succ_self number
      · intro entry member
        exact List.mem_cons_of_mem _ member

theorem length_edgesFrom (node : Node Context) (number : Nat) :
    (node.edgesFrom number).length + 1 = node.size := by
  have hlength := (node.edgesFrom_leadTo number).length_eq
  rw [List.length_tail, List.length_zipIdx, length_occurrences] at hlength
  have hsize := node.size_eq
  omega

/-- The edge that leads to a node other than the root, when the root has number
zero. -/
theorem edge_to (root : Node Context) {j : Nat} (hj : j + 1 < root.occurrences.length) :
    ∃ edge path position parent child, (root.edgesFrom 0)[j]? = some edge ∧
      edge.target = j + 1 ∧ edge.source < edge.target ∧
      root.occurrences[j + 1]? = some ⟨path ++ [position], child⟩ ∧
      root.occurrences[edge.source]? = some ⟨path, parent⟩ ∧
      parent.slots[position]? = some (edge.slot, child) := by
  have hedges := List.forall₂_iff_get.mp (root.edgesFrom_leadTo 0)
  have hentry : j < (root.occurrences.zipIdx 0).tail.length := by
    rw [List.length_tail, List.length_zipIdx]
    omega
  have hedge : j < (root.edgesFrom 0).length := hedges.1 ▸ hentry
  obtain ⟨htarget, hless, path, position, parent, hpath, hparent, hslot⟩ :=
    hedges.2 j hentry hedge
  simp only [List.get_eq_getElem, List.getElem_tail, List.getElem_zipIdx, Nat.zero_add]
    at htarget hless hpath hparent hslot
  refine ⟨(root.edgesFrom 0)[j], path, position, parent, root.occurrences[j + 1].node,
    ?_, htarget, hless, ?_, ?_, hslot⟩
  · exact List.getElem?_eq_getElem hedge
  · rw [List.getElem?_eq_getElem hj, ← hpath]
  · exact List.mk_mem_zipIdx_iff_getElem?.mp hparent

end Node

end CoolTree
