import CoolTree.Graph.Builder
import CoolTree.Output.Printer
import CoolTree.Proofs.Context.Parts
import CoolTree.Proofs.Syntax.Skeleton
import CoolTree.Proofs.Syntax.WellShaped
import CoolTree.Proofs.Walk.Relation
import Mathlib.Data.List.Basic

/-!
# Walks over mapped trees

A function on contexts maps a tree node by node and leaves everything else as it
was.  A visitor of the mapped tree can be pulled back along the function: its
hooks then map each node they are given before they look at it.  Walking the
mapped tree is the same action as walking the tree with the visitor that was
pulled back.  A visitor whose hooks do not look at contexts pulls back to
itself, and so prints and builds the same from both trees.
-/

namespace CoolTree

variable {Context Image : Type}

namespace Node

theorem mapM_eq_pure_map {Effect : Type → Type} [Monad Effect] [LawfulMonad Effect]
    {mapping : Node Context → Effect (Node Image)} {image : Node Context → Node Image}
    {nodes : List (Node Context)} (each : ∀ node ∈ nodes, mapping node = pure (image node)) :
    nodes.mapM mapping = pure (nodes.map image) := by
  induction nodes with
  | nil => simp
  | cons node rest ih =>
      have hrest := ih fun other member => each other (List.mem_cons_of_mem node member)
      simp [each node List.mem_cons_self, hrest]

def map (change : Context → Image) (node : Node Context) : Node Image :=
  Id.run (node.mapContext fun context => pure (change context))

variable (change : Context → Image)

/-- A mapped node is assembled from the mapped context and the mapped children,
with the old head. -/
theorem assemble?_map (node : Node Context) :
    assemble? (change node.context) node.head (node.children.map (map change)) =
      some (node.map change) := by
  have hchildren : node.children.mapM
      (mapContext fun context => (pure (change context) : Id Image)) =
        pure (node.children.map (map change)) := mapM_eq_pure_map fun _ _ => rfl
  have hparts := congrArg Id.run
    (mapContext_eq (fun context => (pure (change context) : Id Image)) node)
  rw [hchildren] at hparts
  exact hparts.symm

/-- A mapping without effects maps the tree by a function, in whatever monad. -/
theorem mapContext_pure {Effect : Type → Type} [Monad Effect] [LawfulMonad Effect]
    (node : Node Context) :
    node.mapContext (fun context => (pure (change context) : Effect Image)) =
      pure (node.map change) := by
  induction node using Node.induction with
  | step node ih =>
      have hparts := mapContext_eq (fun context => (pure (change context) : Effect Image)) node
      rw [mapM_eq_pure_map ih, pure_bind, pure_bind, assemble?_map] at hparts
      -- Assembling succeeds, so what it gives can be taken out again.
      have hnode := congrArg (Functor.map fun image? => image?.getD (node.map change)) hparts
      simpa using hnode

@[simp]
theorem head_map (node : Node Context) : (node.map change).head = node.head :=
  (assemble?_eq_some_iff.mp (assemble?_map change node)).2.1

theorem children_map (node : Node Context) :
    (node.map change).children = node.children.map (map change) :=
  (assemble?_eq_some_iff.mp (assemble?_map change node)).2.2

@[simp]
theorem kind_map (node : Node Context) : (node.map change).kind = node.kind :=
  congrArg Head.kind (head_map change node)

@[simp]
theorem payload?_map (node : Node Context) : (node.map change).payload? = node.payload? :=
  congrArg Head.payload? (head_map change node)

@[simp]
theorem text_map (node : Node Context) : (node.map change).text = node.text :=
  congrArg Head.text (head_map change node)

/-- Skeletons have no contexts that a function could change. -/
theorem skeleton_map (node : Node Context) : (node.map change).skeleton = node.skeleton := by
  induction node using Node.induction with
  | step node ih =>
      apply eq_of_parts
      · rfl
      · rw [head_skeleton, head_skeleton, head_map]
      · rw [children_skeleton, children_skeleton, children_map, List.map_map]
        exact List.map_congr_left ih

@[simp]
theorem defect?_map (node : Node Context) : (node.map change).defect? = node.defect? := by
  rw [← defect?_skeleton, skeleton_map, defect?_skeleton]

theorem keepsShape_map : KeepsShape (map change) where
  kind := kind_map change
  defect? := defect?_map change
  children := children_map change

theorem names_slots_skeleton (node : Node Context) :
    node.skeleton.slots.map Prod.fst = node.slots.map Prod.fst := by
  rw [slots_skeleton, List.map_map]
  rfl

/-- Mapping leaves children in their slots. -/
theorem slots_map (node : Node Context) :
    (node.map change).slots = node.slots.map fun place => (place.1, place.2.map change) := by
  have hnames : (node.map change).slots.map Prod.fst = node.slots.map Prod.fst := by
    rw [← names_slots_skeleton, skeleton_map, names_slots_skeleton]
  have hchildren := children_map change node
  rw [children, children, List.map_map] at hchildren
  rw [List.zip_of_prod hnames hchildren]
  exact (List.zip_of_prod (by simp) (by simp)).symm

theorem preorder_map (node : Node Context) :
    (node.map change).preorder = node.preorder.map (map change) := by
  induction node using Node.induction with
  | step node ih =>
      rw [preorder_eq, preorder_eq, children_map, List.flatMap_map, List.map_cons, List.map_flatMap]
      exact congrArg _ (List.flatMap_congr ih)

/-- The first malformed node is at the same place and lacks the same child. -/
theorem firstDefect?_preorder_map (node : Node Context) :
    firstDefect? (node.map change).preorder = firstDefect? node.preorder := by
  rw [preorder_map, firstDefect?, List.findSome?_map]
  congr 1
  funext inner
  exact defect?_map change inner

theorem count_map (node : Node Context) : (node.map change).count = node.count := by
  rw [count_eq_size, count_eq_size, ← size_skeleton, skeleton_map, size_skeleton]

end Node

/-- The hooks that map every node and pass it on to the hook of the same phase
and kind. -/
def HookTable.pullback {Effect : Type → Type} (change : Context → Image)
    (table : HookTable Image Effect) : HookTable Context Effect where
  visitKind kind node := table.visitKind kind (node.map change)
  preNode? := table.preNode?.map fun hook node => hook (node.map change)
  postNode? := table.postNode?.map fun hook node => hook (node.map change)
  preKind? kind := (table.preKind? kind).map fun hook node => hook (node.map change)
  postKind? kind := (table.postKind? kind).map fun hook node => hook (node.map change)

/-- Equality respects all that a walk does. -/
theorem sequential_eq {State Failure : Type} :
    Sequential fun Answer (left right : Action State Failure Answer) => left = right where
  pure _ := rfl
  malformed _ := rfl
  note _ := rfl
  bind hfirst hnext := by
    rw [hfirst]
    exact bind_congr hnext

namespace HookTable

variable {Effect : Type → Type} [Monad Effect] {State Failure : Type}
  (change : Context → Image)

/-- The visitor of the hooks that were pulled back maps every node first. -/
theorem visitor_pullback (table : HookTable Image Effect) :
    (table.pullback change).visitor = {
      pre := fun node => table.visitor.pre (node.map change)
      visit := fun node => table.visitor.visit (node.map change)
      post := fun node => table.visitor.post (node.map change) } := by
  simp only [visitor, pullback, Node.kind_map]
  congr 1
  · funext node
    cases table.preKind? node.kind <;> cases table.preNode? <;> rfl
  · funext node
    cases table.postKind? node.kind <;> cases table.postNode? <;> rfl

theorem corresponds_pullback (table : HookTable Image (Action State Failure)) :
    Visitor.Corresponds (fun _ left right => left = right) (Node.map change)
      (table.pullback change).visitor table.visitor := by
  rw [visitor_pullback]
  exact ⟨fun _ => rfl, fun _ => rfl, fun _ => rfl⟩

theorem walk_pullback (table : HookTable Image (Action State Failure)) (root : Node Context) :
    (table.pullback change).visitor.walk root = table.visitor.walk (root.map change) :=
  (table.corresponds_pullback change).walk sequential_eq (Node.keepsShape_map change) root

end HookTable

/-! ## Hooks that do not look at contexts -/

theorem Printer.pullback_hooks (change : Context → Image) :
    Printer.hooks.pullback change = Printer.hooks := by
  have henter (node : Node Context) : enter (node.map change) = enter node := by
    funext printer
    simp only [enter, writeLine, pieces, Node.kind_map, Node.payload?_map]
  simp only [hooks, HookTable.pullback, Option.map_some, Option.map_none, henter]
  rfl

theorem GraphBuilder.pullback_hooks (change : Context → Image) :
    GraphBuilder.hooks.pullback change = GraphBuilder.hooks := by
  have henter (node : Node Context) : enter (node.map change) = enter node := by
    funext builder
    simp only [enter, Node.slots_map, Node.text_map, List.map_map]
    rfl
  simp only [hooks, HookTable.pullback, Option.map_some, Option.map_none, henter]
  rfl

theorem Printer.dispatch_map (change : Context → Image) (root : Node Context) :
    Printer.dispatch (root.map change) = Printer.dispatch root := by
  rw [dispatch, ← HookTable.walk_pullback, pullback_hooks, dispatch]

theorem Graph.ofTree_map (change : Context → Image) (root : Node Context) (log : Log) :
    Graph.ofTree (root.map change) log = Graph.ofTree root log := by
  rw [ofTree, ← HookTable.walk_pullback, GraphBuilder.pullback_hooks, ofTree]

/-- Walking commutes with mapping contexts.  For all hooks, walking a mapped
tree is the same action, with the same outcome and the same state, as walking
the tree with the hooks that map every node first.  So the dump, the graph, the
number of nodes and the first defect of a mapped tree are those of the tree. -/
theorem Node.walk_map (change : Context → Image) (root : Node Context) :
    (∀ (State Failure : Type) (table : HookTable Image (Action State Failure)),
      table.visitor.walk (root.map change) = (table.pullback change).visitor.walk root) ∧
    Printer.dispatch (root.map change) = Printer.dispatch root ∧
    Printer.dump (root.map change) = Printer.dump root ∧
    (∀ log, Graph.ofTree (root.map change) log = Graph.ofTree root log) ∧
    (root.map change).slots = root.slots.map (fun place => (place.1, place.2.map change)) ∧
    (root.map change).count = root.count ∧
    firstDefect? (root.map change).preorder = firstDefect? root.preorder := by
  refine ⟨?_, Printer.dispatch_map change root, ?_, Graph.ofTree_map change root,
    slots_map change root, count_map change root, firstDefect?_preorder_map change root⟩
  · intro State Failure table
    exact (table.walk_pullback change root).symm
  · rw [Printer.dump, Printer.print, Printer.dispatch_map, Printer.dump, Printer.print]

end CoolTree

