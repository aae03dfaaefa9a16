import CoolTree.Proofs.Graph.Building
import CoolTree.Proofs.Syntax.Addressing

/-!
# Slots as labels of edges

In the graph of a tree an edge bears the text of the slot that its target has in its
source.  Two edges from one node lead to different children, so their texts differ.
Following these texts from the root is a way to address every node, and no two
nodes have the same address.
-/

namespace CoolTree

variable {Context : Type}

/-- No two edges from one node have the same text. -/
theorem Node.pairwise_edgesFrom (root : Node Context) :
    (root.edgesFrom 0).Pairwise fun edge other =>
      edge.source = other.source → edge.slot.text ≠ other.slot.text := by
  have hcount : (root.edgesFrom 0).length + 1 = root.occurrences.length := by
    rw [length_edgesFrom, length_occurrences]
  rw [List.pairwise_iff_getElem]
  intro i j hi hj hless hsource htext
  obtain ⟨edge, path, position, parent, child, hedge, -, -, hplace, hparent, hslot⟩ :=
    root.edge_to (j := i) (by omega)
  obtain ⟨other, otherPath, otherPosition, otherParent, otherChild, hother, -, -, hotherPlace,
    hotherParent, hotherSlot⟩ := root.edge_to (j := j) (by omega)
  rw [List.getElem?_eq_getElem hi] at hedge
  rw [List.getElem?_eq_getElem hj] at hother
  cases hedge
  cases hother
  -- Both edges come from one place, and its child has one position under this text.
  rw [hsource, hotherParent] at hparent
  cases hparent
  obtain rfl := position_eq_of_text_eq hslot hotherSlot htext
  have hpath : (root.occurrences.map Occurrence.path)[i + 1]? =
      (root.occurrences.map Occurrence.path)[j + 1]? := by
    rw [List.getElem?_map, List.getElem?_map, hplace, hotherPlace, Option.map_some, Option.map_some]
  have hlength : i + 1 < (root.occurrences.map Occurrence.path).length := by
    rw [List.length_map]
    omega
  have hindex := (List.getElem?_inj hlength root.nodup_paths).mp hpath
  omega

namespace Graph

/-- The texts of slots address the nodes of a tree.  Different descendants are led to
by different sequences of them.  At every node the slots of a repeated sequence belong
to its members in their order of declaration, and are numbered from zero without a gap.
So in the graph of a well-shaped tree no two edges from one node have the same text. -/
theorem slotTexts_address (root : Node Context) :
    (∀ left ∈ root.occurrences, ∀ right ∈ root.occurrences, left.path ≠ right.path →
      ∃ address other, root.address? left.path = some address ∧
        root.address? right.path = some other ∧ address ≠ other) ∧
      (∀ (node : Node Context) (family : Family),
        (node.slots.filter fun place => place.1.family? = some family) =
          (node.members family).mapIdx fun index child => (family.slot index, child)) ∧
      (root.WellShaped → ∀ log, ∃ graph, (ofTree root log).1 = .ok graph ∧
        graph.edges.toList.Pairwise fun edge other =>
          edge.source = other.source → edge.slot.text ≠ other.slot.text) := by
  refine ⟨?_, fun node family => node.filter_slots family, ?_⟩
  · intro left hleft right hright hpath
    obtain ⟨address, haddress⟩ := Node.exists_address (Node.mem_occurrences.mp hleft)
    obtain ⟨other, hother⟩ := Node.exists_address (Node.mem_occurrences.mp hright)
    refine ⟨address, other, haddress, hother, ?_⟩
    rintro rfl
    exact hpath (Node.path_eq_of_address haddress hother)
  · intro shaped log
    exact ⟨_, congrArg Prod.fst (ofTree_of_wellShaped shaped log), root.pairwise_edgesFrom⟩

end Graph

end CoolTree
