import CoolTree.Proofs.Context.Exchange
import CoolTree.Proofs.Graph.Building
import CoolTree.Proofs.Walk.OnSchedule

/-!
# Counting nodes

Several parts go over a tree, each in its own way: counting takes pending nodes
from a list, mapping contexts recurses over the grammar, walks work through
pending steps, and a graph is built by the hooks of one.  They all find the same
number of nodes.  Counting and mapping do so on every tree; walks and graphs
look at the shape of the nodes, so they do on well-shaped trees.
-/

namespace CoolTree.Node

variable {Context : Type}

/-- Counting goes over a tree as the recursion over its children does. -/
theorem count_eq_children (node : Node Context) :
    node.count = 1 + node.children.foldr (fun child total => child.count + total) 0 := by
  simp only [count_eq_size]
  exact node.size_eq

/-- Mapping contexts makes as many calls as the tree has nodes. -/
theorem length_calls_mapContext {Image Memory : Type} (mapping : Context → StateM Memory Image)
    (node : Node Context) (memory : Memory) :
    ∃ image next calls, node.mapContext mapping memory = (image, next) ∧
      node.mapContext (observed mapping) (memory, []) = (image, (next, calls)) ∧
      calls.length = node.count := by
  obtain ⟨image, next, calls, hrun, hobserved, relabels⟩ :=
    mapContext_observed mapping node memory []
  refine ⟨image, next, calls, hrun, hobserved, ?_⟩
  calc
    calls.length = (calls.map Exchange.received).length := by rw [List.length_map]
    _ = node.preorder.length := by
      rw [relabels.received, List.length_map, List.flatMap_singleton]
    _ = node.count := by rw [length_preorder, count_eq_size]

/-- All agree on the number of nodes.  On every tree the count is one more than
the counts of the children together, and the number of calls that mapping
contexts makes.  On a well-shaped tree it is also the number of calls of each
phase in a walk where no hook handles a node or fails, the number that this walk
notes at its end, the number of nodes of the graph, and one more than the number
of its edges. -/
theorem count_agrees (root : Node Context) :
    root.count = 1 + root.children.foldr (fun child total => child.count + total) 0 ∧
      (∀ {Image Memory : Type} (mapping : Context → StateM Memory Image) (memory : Memory),
        ∃ image next calls, root.mapContext mapping memory = (image, next) ∧
          root.mapContext (observed mapping) (memory, []) = (image, (next, calls)) ∧
          calls.length = root.count) ∧
      (root.WellShaped →
        (∀ {State Failure : Type} (visitor : Visitor Context (Action State Failure)) (state : State)
          (log : Log), (∀ call ∈ visitor.callsOf root state log, call.answer = .ok false) →
          (∀ phase, ((visitor.callsOf root state log).countP fun call => call.phase = phase) =
              root.count) ∧
            ∃ journal, visitor.walk root ⟨state, log⟩ = .ok () journal ∧
              journal.log.back? = some (.walked root.kind root.count)) ∧
        ∀ log, ∃ graph, (Graph.ofTree root log).1 = .ok graph ∧
          graph.nodeCount = root.count ∧ graph.edges.size + 1 = root.count) := by
  refine ⟨root.count_eq_children, fun mapping => root.length_calls_mapContext mapping, ?_⟩
  intro shaped
  rw [count_eq_size]
  constructor
  · intro State Failure visitor state log hanswers
    obtain ⟨hcalls, hwalk⟩ := Visitor.walk_of_unhandled shaped hanswers
    exact ⟨Visitor.countP_callsOf_phase hcalls, hwalk⟩
  · intro log
    refine ⟨_, congrArg Prod.fst (Graph.ofTree_of_wellShaped shaped log), ?_, ?_⟩
    · simp [Graph.nodeCount, length_preorder]
    · rw [List.size_toArray, length_edgesFrom]

end CoolTree.Node
