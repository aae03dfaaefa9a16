import CoolTree.Proofs.Context.Parts
import CoolTree.Proofs.Syntax.Outline
import CoolTree.Proofs.Walk.Passive

/-!
# Contexts in preorder

A function that maps contexts may remember what it has met, so the order of its
calls matters.  Observing the calls shows that they receive the contexts in
preorder, one call for each node, and that what the calls return are the
contexts of the image in preorder.  The outline of the tree stays as it was.
-/

namespace CoolTree

variable {Context Image Memory : Type}

structure Exchange (Context Image : Type) where
  received : Context
  returned : Image

/-- The function that also writes down its calls, oldest first. -/
def observed (mapping : Context → StateM Memory Image) (context : Context) :
    StateM (Memory × List (Exchange Context Image)) Image := fun (memory, calls) =>
  match mapping context memory with
  | (image, next) => (image, (next, calls ++ [⟨context, image⟩]))

/-- The calls carry the contexts of some trees, in preorder, over to trees of
the same outlines. -/
structure Relabels (sources : List (Node Context)) (calls : List (Exchange Context Image))
    (images : List (Node Image)) : Prop where
  received : calls.map Exchange.received = (sources.flatMap Node.preorder).map Node.context
  returned : calls.map Exchange.returned = (images.flatMap Node.preorder).map Node.context
  outlines : List.Forall₂ Node.SameOutline images sources

namespace Relabels

theorem nil : Relabels ([] : List (Node Context)) [] ([] : List (Node Image)) :=
  ⟨rfl, rfl, .nil⟩

/-- Trees relabelled one after the other are relabelled together. -/
theorem append {sources others : List (Node Context)}
    {calls later : List (Exchange Context Image)} {images rest : List (Node Image)}
    (first : Relabels sources calls images) (second : Relabels others later rest) :
    Relabels (sources ++ others) (calls ++ later) (images ++ rest) where
  received := by
    rw [List.map_append, first.received, second.received, List.flatMap_append, List.map_append]
  returned := by
    rw [List.map_append, first.returned, second.returned, List.flatMap_append, List.map_append]
  outlines := List.rel_append first.outlines second.outlines

/-- A node whose head is kept, whose context is carried over and whose children
are relabelled is relabelled itself. -/
theorem node {source : Node Context} {calls : List (Exchange Context Image)}
    {image : Node Image} (hhead : image.head = source.head)
    (hchildren : Relabels source.children calls image.children) :
    Relabels [source] (⟨source.context, image.context⟩ :: calls) [image] where
  received := by
    rw [List.map_cons, hchildren.received, List.flatMap_singleton, Node.preorder_eq source,
      List.map_cons]
  returned := by
    rw [List.map_cons, hchildren.returned, List.flatMap_singleton, Node.preorder_eq image,
      List.map_cons]
  outlines := by
    apply List.Forall₂.cons _ .nil
    exact .of_children hhead hchildren.outlines

end Relabels

namespace Node

/-- A run over a node maps its context and then its children, and assembles what
comes out. -/
theorem mapContext_of_parts {mapping : Context → StateM Memory Image} {node : Node Context}
    {memory middle next : Memory} {context : Image} {children : List (Node Image)}
    (hcontext : mapping node.context memory = (context, middle))
    (hchildren : node.children.mapM (mapContext mapping) middle = (children, next)) :
    ∃ image, assemble? context node.head children = some image ∧
      node.mapContext mapping memory = (image, next) := by
  have hrun : (some (node.mapContext mapping memory).1, (node.mapContext mapping memory).2) =
      (assemble? (mapping node.context memory).1 node.head
          (node.children.mapM (mapContext mapping) (mapping node.context memory).2).1,
        (node.children.mapM (mapContext mapping) (mapping node.context memory).2).2) :=
    congrFun (mapContext_eq mapping node) memory
  rw [hcontext, hchildren] at hrun
  obtain ⟨himage, hnext⟩ := Prod.mk.inj hrun
  exact ⟨(node.mapContext mapping memory).1, himage.symm, Prod.ext rfl hnext⟩

theorem mapM_mapContext_observed {mapping : Context → StateM Memory Image}
    {children : List (Node Context)}
    (each : ∀ child ∈ children, ∀ memory calls, ∃ image next new,
      child.mapContext mapping memory = (image, next) ∧
        child.mapContext (observed mapping) (memory, calls) = (image, (next, calls ++ new)) ∧
        Relabels [child] new [image])
    (memory : Memory) (calls : List (Exchange Context Image)) :
    ∃ images next new,
      children.mapM (mapContext mapping) memory = (images, next) ∧
        children.mapM (mapContext (observed mapping)) (memory, calls) =
          (images, (next, calls ++ new)) ∧
        Relabels children new images := by
  induction children generalizing memory calls with
  | nil =>
      refine ⟨[], memory, [], rfl, ?_, .nil⟩
      rw [List.append_nil, List.mapM_nil]
      rfl
  | cons child rest ih =>
      obtain ⟨image, middle, first, hchild, hobserved, hfirst⟩ :=
        each child List.mem_cons_self memory calls
      obtain ⟨images, next, second, hrest, hothers, hsecond⟩ :=
        ih (fun other member => each other (List.mem_cons_of_mem child member)) middle
          (calls ++ first)
      refine ⟨image :: images, next, first ++ second, ?_, ?_, hfirst.append hsecond⟩
      · exact mapM_cons_of_runs hchild hrest
      · rw [← List.append_assoc]
        exact mapM_cons_of_runs hobserved hothers

/-- Observing the calls changes neither the image nor the memory, and the calls
relabel the tree. -/
theorem mapContext_observed (mapping : Context → StateM Memory Image) (node : Node Context)
    (memory : Memory) (calls : List (Exchange Context Image)) :
    ∃ image next new,
      node.mapContext mapping memory = (image, next) ∧
        node.mapContext (observed mapping) (memory, calls) = (image, (next, calls ++ new)) ∧
        Relabels [node] new [image] := by
  induction node using Node.induction generalizing memory calls with
  | step node ih =>
      rcases hcontext : mapping node.context memory with ⟨context, middle⟩
      have hobserved : observed mapping node.context (memory, calls) =
          (context, (middle, calls ++ [⟨node.context, context⟩])) := by
        rw [observed, hcontext]
      obtain ⟨children, next, new, hchildren, hothers, relabels⟩ :=
        mapM_mapContext_observed ih middle (calls ++ [⟨node.context, context⟩])
      obtain ⟨image, himage, hrun⟩ := mapContext_of_parts hcontext hchildren
      obtain ⟨same, hsame, hrunObserved⟩ := mapContext_of_parts hobserved hothers
      obtain rfl : image = same := Option.some.inj (himage.symm.trans hsame)
      obtain ⟨rfl, hhead, rfl⟩ := assemble?_eq_some_iff.mp himage
      refine ⟨image, next, ⟨node.context, image.context⟩ :: new, hrun, ?_, ?_⟩
      · rw [hrunObserved, List.append_assoc, List.singleton_append]
      · exact .node hhead relabels

/-- Mapping contexts calls the function once for each node and hands it the
contexts in preorder, which is the order in which walks enter nodes.  The image
has what the calls return as its contexts, in preorder as well, and otherwise
the heads of the tree at all places. -/
theorem mapContext_outcome (mapping : Context → StateM Memory Image) (node : Node Context)
    (memory : Memory) :
    ∃ image next calls,
      node.mapContext mapping memory = (image, next) ∧
        node.mapContext (observed mapping) (memory, []) = (image, (next, calls)) ∧
        calls.map Exchange.received = node.preorder.map context ∧
        calls.map Exchange.returned = image.preorder.map context ∧
        image.SameOutline node ∧
        ∀ {State Failure : Type} (visitor : Visitor Context (Action State Failure)),
          (visitor.Passive fun _ _ => True) → ∀ state log, ∃ journal,
            visitor.traced.walk node ⟨⟨state, []⟩, log⟩ =
                Visitor.passiveOutcome (firstDefect? node.preorder) () journal ∧
              journal.state.entered = beforeDefect node.preorder := by
  obtain ⟨image, next, calls, hrun, hobserved, relabels⟩ :=
    mapContext_observed mapping node memory []
  have hreceived := relabels.received
  have hreturned := relabels.returned
  rw [List.flatMap_singleton] at hreceived hreturned
  refine ⟨image, next, calls, hrun, hobserved, hreceived, hreturned, ?_, ?_⟩
  · exact (List.forall₂_cons.mp relabels.outlines).1
  · intro State Failure visitor passive state log
    exact passive.walk_traced node state log

end Node

end CoolTree
