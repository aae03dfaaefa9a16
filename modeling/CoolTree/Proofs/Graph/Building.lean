import CoolTree.Graph.Builder
import CoolTree.Proofs.Graph.Edges
import CoolTree.Proofs.Syntax.WellShaped
import CoolTree.Proofs.Walk.Passive

/-!
# The graph that is built

Building a graph reconstructs numbers, parents and slots from the order of the
calls alone.  Walking a well-shaped tree with a builder that has already built
something adds the labels of the tree in preorder, the edge from the deepest
open node and the edges inside the tree, takes one slot of the deepest open node
and leaves the other open nodes as they are.
-/

namespace CoolTree

variable {Context : Type}

namespace GraphBuilder

/-- A builder after a whole tree has been walked with it. -/
def including (builder : GraphBuilder) (node : Node Context) : GraphBuilder :=
  ⟨builder.labels ++ (node.preorder.map Node.text).toArray,
    builder.edges ++ (takeSlot builder.labels.size builder.opened).1.toList.toArray ++
      (node.edgesFrom builder.labels.size).toArray,
    (takeSlot builder.labels.size builder.opened).2⟩

def entering (builder : GraphBuilder) (node : Node Context) : GraphBuilder :=
  ⟨builder.labels.push node.text,
    builder.edges ++ (takeSlot builder.labels.size builder.opened).1.toList.toArray,
    ⟨builder.labels.size, node.slots.map Prod.fst⟩ ::
      (takeSlot builder.labels.size builder.opened).2⟩

theorem visitor_pre (node : Node Context) (builder : GraphBuilder) (log : Log) :
    hooks.visitor.pre node ⟨builder, log⟩ = .ok false ⟨builder.entering node, log⟩ := by
  have hpre : hooks.visitor.pre node = Action.ofState (enter node) := rfl
  simp only [hpre, Action.ofState, enter, entering]
  rcases htake : takeSlot builder.labels.size builder.opened with ⟨edge?, opened⟩
  cases edge? with
  | none => simp
  | some edge => simp

theorem noting_pre (node : Node Context) (builder : GraphBuilder) (log : Log) :
    hooks.visitor.noting.pre node ⟨builder, log⟩ = .ok false ⟨builder.entering node, log⟩ := by
  simp only [Visitor.noting, bind, EStateM.bind, visitor_pre]
  rfl

theorem noting_visit (node : Node Context) (builder : GraphBuilder) (log : Log) :
    hooks.visitor.noting.visit node ⟨builder, log⟩ = .ok () ⟨builder, log⟩ := rfl

theorem noting_post (node : Node Context) (builder : GraphBuilder) (log : Log) :
    hooks.visitor.noting.post node ⟨builder, log⟩ =
      .ok () ⟨{ builder with opened := builder.opened.tail }, log⟩ := rfl

theorem descendAll_eq (slots : List (Slot × Node Context)) (log : Log)
    (each : ∀ child ∈ slots.map Prod.snd, ∀ entered builder,
      hooks.visitor.noting.descend child entered ⟨builder, log⟩ =
        .ok (entered + child.size) ⟨builder.including child, log⟩)
    (entered source : Nat) (labels : Array String) (edges : Array Edge)
    (outer : List OpenNode) :
    hooks.visitor.noting.descendAll (slots.map Prod.snd) entered
        ⟨⟨labels, edges, ⟨source, slots.map Prod.fst⟩ :: outer⟩, log⟩ =
      .ok (entered + Node.totalSize (slots.map Prod.snd))
        ⟨⟨labels ++ (((slots.map Prod.snd).flatMap Node.preorder).map Node.text).toArray,
          edges ++ (Node.edgesAmong source labels.size slots).toArray,
          ⟨source, []⟩ :: outer⟩, log⟩ := by
  induction slots generalizing entered labels edges with
  | nil =>
      rw [List.map_nil, Visitor.descendAll, Node.edgesAmong]
      simp [pure, EStateM.pure]
  | cons first rest ih =>
      obtain ⟨slot, child⟩ := first
      have hrest := ih (fun other member => each other (List.mem_cons_of_mem child member))
      rw [List.map_cons, Visitor.descendAll, Node.edgesAmong, Node.totalSize_cons]
      simp only [bind, EStateM.bind, each child List.mem_cons_self, including, takeSlot,
        List.map_cons, hrest]
      simp [Node.length_preorder, Nat.add_assoc]

/-- Walking a well-shaped tree includes it in what is built already. -/
theorem descend_eq {node : Node Context} (shaped : node.WellShaped) (entered : Nat)
    (builder : GraphBuilder) (log : Log) :
    hooks.visitor.noting.descend node entered ⟨builder, log⟩ =
      .ok (entered + node.size) ⟨builder.including node, log⟩ := by
  induction node using Node.induction generalizing entered builder with
  | step node ih =>
      obtain ⟨hdefect, hchildren⟩ := Node.wellShaped_iff.mp shaped
      have hinside := descendAll_eq node.slots log fun child member =>
        ih child member (hchildren child member)
      rw [Visitor.descend_of_entered hdefect (noting_pre node builder log), node.size_eq,
        Node.children, entering, ← Nat.add_assoc]
      simp only [bind, EStateM.bind, hinside, noting_visit, noting_post]
      simp [including, pure, EStateM.pure, Node.preorder_eq node, Node.edgesFrom, Node.children]

/-- A builder never fails, handles nothing and notes nothing by itself. -/
theorem passive (log : Log) :
    (@hooks Context).visitor.noting.Passive fun _ journal => journal.log = log where
  pre node seen journal holds := by
    obtain ⟨builder, log⟩ := journal
    exact ⟨_, noting_pre node builder log, holds⟩
  visit node seen journal holds := by
    obtain ⟨builder, log⟩ := journal
    exact ⟨_, noting_visit node builder log, holds⟩
  post node seen journal holds := by
    obtain ⟨builder, log⟩ := journal
    exact ⟨_, noting_post node builder log, holds⟩

end GraphBuilder

namespace Graph

theorem ofTree_of_wellShaped {root : Node Context} (shaped : root.WellShaped) (log : Log) :
    ofTree root log =
      (.ok ⟨(root.preorder.map Node.text).toArray, (root.edgesFrom 0).toArray⟩,
        ((log.push (.walking root.kind)).push (.walked root.kind root.size)).push
          (.graphBuilt root.size (root.edgesFrom 0).length)) := by
  rw [ofTree, Visitor.walk_eq_walkRecursively, Visitor.walkRecursively]
  simp only [bind, EStateM.bind, Action.note, GraphBuilder.descend_eq shaped]
  simp [GraphBuilder.including, GraphBuilder.empty, GraphBuilder.takeSlot, Node.length_preorder]

theorem ofTree_of_malformed {root : Node Context} {defect : Defect}
    (malformed : Node.firstDefect? root.preorder = some defect) (log : Log) :
    ofTree root log = (.error defect, log.push (.walking root.kind)) := by
  obtain ⟨⟨builder, final⟩, hstop, hlog⟩ :=
    (GraphBuilder.passive (log.push (.walking root.kind))).descend root 0 []
      ⟨GraphBuilder.empty, log.push (.walking root.kind)⟩ rfl
  rw [malformed] at hstop
  obtain rfl : final = log.push (.walking root.kind) := hlog
  rw [ofTree, Visitor.walk_eq_walkRecursively, Visitor.walkRecursively]
  simp only [bind, EStateM.bind, Action.note, hstop]
  rfl

/-- The graph of a well-shaped tree labels its nodes in preorder, each with its kind and,
after a blank, its payload if it has one.  It has one edge to every node but the root:
the edge at a position leads to the node of the next number, comes from the parent of
this node, which has a smaller number, and bears the slot that the parent has for this
child.  A tree with a malformed node has no graph, and the first such node is reported. -/
theorem ofTree_outcome (root : Node Context) (log : Log) :
    (root.WellShaped →
      ∃ graph, (ofTree root log).1 = .ok graph ∧
        graph.labels.toList = root.occurrences.map (fun occurrence =>
          match occurrence.node.payload? with
          | some payload => occurrence.node.kind.label ++ " " ++ payload
          | none => occurrence.node.kind.label) ∧
        graph.edges.size + 1 = root.occurrences.length ∧
        ∀ j, j + 1 < root.occurrences.length →
          ∃ edge path position parent child, graph.edges[j]? = some edge ∧
            edge.target = j + 1 ∧ edge.source < edge.target ∧
            root.occurrences[j + 1]? = some ⟨path ++ [position], child⟩ ∧
            root.occurrences[edge.source]? = some ⟨path, parent⟩ ∧
            parent.slots[position]? = some (edge.slot, child)) ∧
    (¬ root.WellShaped →
      ∃ defect, Node.firstDefect? root.preorder = some defect ∧
        (ofTree root log).1 = .error defect) := by
  constructor
  · intro shaped
    refine ⟨_, congrArg Prod.fst (ofTree_of_wellShaped shaped log), ?_, ?_, ?_⟩
    · rw [← Node.map_node_occurrences, List.map_map]
      rfl
    · rw [Node.length_occurrences, List.size_toArray, Node.length_edgesFrom]
    · intro j hj
      obtain ⟨edge, path, position, parent, child, hedge, hrest⟩ := root.edge_to hj
      exact ⟨edge, path, position, parent, child, by rw [List.getElem?_toArray, hedge], hrest⟩
  · intro malformed
    obtain ⟨defect, hdefect⟩ := Option.ne_none_iff_exists'.mp malformed
    exact ⟨defect, hdefect, congrArg Prod.fst (ofTree_of_malformed hdefect log)⟩

end Graph

end CoolTree
