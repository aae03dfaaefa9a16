import CoolTree.Syntax.Node

/-!
# Sizes of trees

The size of a node is the number of nodes of its tree, itself included.  It is
defined by recursion over the children, which is also the way to prove facts of
all nodes.  Counting goes over a list of pending nodes instead, so that a deep
tree costs no deep recursion, and reaches the same number.
-/

namespace CoolTree.Node

variable {Context : Type}

/-- A child of an expression is structurally smaller than the expression. -/
theorem sizeOf_lt_of_mem_slots {term : Expression Context} {child : Node Context}
    (member : child ∈ term.slots.map Prod.snd) : sizeOf child < 1 + sizeOf term := by
  cases term with
  | stringLiteral | intLiteral | boolLiteral | new | object | noExpr =>
    simp [Expression.slots] at member
  | unary =>
    simp only [Expression.slots, List.map_cons, List.map_nil, List.mem_singleton] at member
    subst member
    simp only [expression.sizeOf_spec, Expression.unary.sizeOf_spec]
    omega
  | assign =>
    simp only [Expression.slots, List.map_cons, List.map_nil, List.mem_singleton] at member
    subst member
    simp only [expression.sizeOf_spec, Expression.assign.sizeOf_spec]
    omega
  | binary =>
    simp only [Expression.slots, List.map_cons, List.map_nil, List.mem_cons,
      List.not_mem_nil, or_false] at member
    rcases member with rfl | rfl <;>
      simp only [expression.sizeOf_spec, Expression.binary.sizeOf_spec] <;> omega
  | loop =>
    simp only [Expression.slots, List.map_cons, List.map_nil, List.mem_cons,
      List.not_mem_nil, or_false] at member
    rcases member with rfl | rfl <;>
      simp only [expression.sizeOf_spec, Expression.loop.sizeOf_spec] <;> omega
  | letIn =>
    simp only [Expression.slots, List.map_cons, List.map_nil, List.mem_cons,
      List.not_mem_nil, or_false] at member
    rcases member with rfl | rfl <;>
      simp only [expression.sizeOf_spec, Expression.letIn.sizeOf_spec] <;> omega
  | conditional =>
    simp only [Expression.slots, List.map_cons, List.map_nil, List.mem_cons,
      List.not_mem_nil, or_false] at member
    rcases member with rfl | rfl | rfl <;>
      simp only [expression.sizeOf_spec, Expression.conditional.sizeOf_spec] <;> omega
  | block =>
    simp only [Expression.slots, map_snd_inSlots, List.mem_map] at member
    obtain ⟨part, hpart, rfl⟩ := member
    have := List.sizeOf_lt_of_mem hpart
    simp only [expression.sizeOf_spec, Expression.block.sizeOf_spec]
    omega
  | typeCase =>
    simp only [Expression.slots, List.map_cons, map_snd_inSlots, List.mem_cons,
      List.mem_map] at member
    rcases member with rfl | ⟨part, hpart, rfl⟩
    · simp only [expression.sizeOf_spec, Expression.typeCase.sizeOf_spec]
      omega
    · have := List.sizeOf_lt_of_mem hpart
      simp only [branch.sizeOf_spec, Expression.typeCase.sizeOf_spec]
      omega
  | staticDispatch =>
    simp only [Expression.slots, List.map_cons, map_snd_inSlots, List.mem_cons,
      List.mem_map] at member
    rcases member with rfl | ⟨part, hpart, rfl⟩
    · simp only [expression.sizeOf_spec, Expression.staticDispatch.sizeOf_spec]
      omega
    · have := List.sizeOf_lt_of_mem hpart
      simp only [expression.sizeOf_spec, Expression.staticDispatch.sizeOf_spec]
      omega
  | dynamicDispatch =>
    simp only [Expression.slots, List.map_cons, map_snd_inSlots, List.mem_cons,
      List.mem_map] at member
    rcases member with rfl | ⟨part, hpart, rfl⟩
    · simp only [expression.sizeOf_spec, Expression.dynamicDispatch.sizeOf_spec]
      omega
    · have := List.sizeOf_lt_of_mem hpart
      simp only [expression.sizeOf_spec, Expression.dynamicDispatch.sizeOf_spec]
      omega

theorem sizeOf_lt_of_mem_children {node child : Node Context}
    (member : child ∈ node.children) : sizeOf child < sizeOf node := by
  cases node with
  | program whole =>
    obtain ⟨context, classes⟩ := whole
    simp only [children, slots, map_snd_inSlots, List.mem_map] at member
    obtain ⟨part, hpart, rfl⟩ := member
    have := List.sizeOf_lt_of_mem hpart
    simp only [program.sizeOf_spec, classDecl.sizeOf_spec, Program.mk.sizeOf_spec]
    omega
  | classDecl declaration =>
    obtain ⟨context, name, parent, features⟩ := declaration
    simp only [children, slots, map_snd_inSlots, List.mem_map] at member
    obtain ⟨part, hpart, rfl⟩ := member
    have := List.sizeOf_lt_of_mem hpart
    simp only [classDecl.sizeOf_spec, feature.sizeOf_spec, Class.mk.sizeOf_spec]
    omega
  | feature declaration =>
    cases declaration with
    | attributeDecl declaration =>
      obtain ⟨context, name, typeName, initializer⟩ := declaration
      simp only [children, slots, List.map_cons, List.map_nil, List.mem_singleton] at member
      subst member
      simp only [feature.sizeOf_spec, expression.sizeOf_spec, Feature.attributeDecl.sizeOf_spec,
        Attribute.mk.sizeOf_spec]
      omega
    | methodDecl declaration =>
      obtain ⟨context, name, formals, returnType, body⟩ := declaration
      simp only [children, slots, List.map_append, map_snd_inSlots, List.map_cons, List.map_nil,
        List.mem_append, List.mem_map, List.mem_singleton] at member
      rcases member with ⟨part, hpart, rfl⟩ | rfl
      · have := List.sizeOf_lt_of_mem hpart
        simp only [feature.sizeOf_spec, formal.sizeOf_spec, Feature.methodDecl.sizeOf_spec,
          Method.mk.sizeOf_spec]
        omega
      · simp only [feature.sizeOf_spec, expression.sizeOf_spec, Feature.methodDecl.sizeOf_spec,
          Method.mk.sizeOf_spec]
        omega
  | formal parameter => simp [children, slots] at member
  | branch choice =>
    obtain ⟨context, name, typeName, body⟩ := choice
    simp only [children, slots, List.map_cons, List.map_nil, List.mem_singleton] at member
    subst member
    simp only [branch.sizeOf_spec, expression.sizeOf_spec, Branch.mk.sizeOf_spec]
    omega
  | expression term =>
    have := sizeOf_lt_of_mem_slots member
    simpa only [expression.sizeOf_spec] using this

/-- What a node inherits from its children holds of every node. -/
theorem induction {motive : Node Context → Prop}
    (step : ∀ node, (∀ child ∈ node.children, motive child) → motive node)
    (node : Node Context) : motive node :=
  step node fun child _ => induction step child
termination_by sizeOf node
decreasing_by exact sizeOf_lt_of_mem_children ‹_›

def size (node : Node Context) : Nat :=
  1 + node.children.attach.foldr (fun ⟨child, _⟩ total => size child + total) 0
termination_by sizeOf node
decreasing_by exact sizeOf_lt_of_mem_children ‹_›

def totalSize (nodes : List (Node Context)) : Nat :=
  nodes.foldr (fun node total => node.size + total) 0

/-- A tree has one node more than the trees of its children together. -/
theorem size_eq (node : Node Context) : node.size = 1 + totalSize node.children := by
  rw [size, totalSize, List.foldr_attach (f := fun child total => size child + total)]

@[simp]
theorem totalSize_nil : totalSize ([] : List (Node Context)) = 0 := rfl

@[simp]
theorem totalSize_cons (node : Node Context) (nodes : List (Node Context)) :
    totalSize (node :: nodes) = node.size + totalSize nodes := rfl

@[simp]
theorem totalSize_append (left right : List (Node Context)) :
    totalSize (left ++ right) = totalSize left + totalSize right := by
  induction left with
  | nil => simp
  | cons node nodes ih => simp only [List.cons_append, totalSize_cons, ih, Nat.add_assoc]

theorem totalSize_perm {nodes others : List (Node Context)} (perm : nodes.Perm others) :
    totalSize nodes = totalSize others := by
  induction perm with
  | nil => rfl
  | cons node _ ih => rw [totalSize_cons, totalSize_cons, ih]
  | swap first second rest =>
    simp only [totalSize_cons]
    omega
  | trans _ _ ihfirst ihsecond => exact ihfirst.trans ihsecond

/-- Putting the children of a node in its place, the last one first, leaves one node less
to count. -/
theorem totalSize_children_reverse (node : Node Context) (rest : List (Node Context)) :
    totalSize (node :: rest) = 1 + totalSize (node.children.reverse ++ rest) := by
  rw [totalSize_cons, size_eq, totalSize_append, totalSize_perm (List.reverse_perm node.children),
    Nat.add_assoc]

/-- Counts the nodes of the pending trees on top of those counted already.  The child
that comes last is counted first. -/
def countPending (nodes : List (Node Context)) (counted : Nat) : Nat :=
  match nodes with
  | [] => counted
  | node :: rest => countPending (node.children.reverse ++ rest) (counted + 1)
termination_by totalSize nodes
decreasing_by
  rw [totalSize_children_reverse]
  omega

/-- Counting adds the sizes of the pending trees, in whatever order they stand. -/
theorem countPending_eq (nodes : List (Node Context)) (counted : Nat) :
    countPending nodes counted = counted + totalSize nodes := by
  fun_induction countPending nodes counted with
  | case1 => simp
  | case2 counted node rest ih =>
    rw [ih, totalSize_children_reverse]
    omega

/-- The number of nodes of a tree, counted without deep recursion. -/
def count (node : Node Context) : Nat :=
  countPending [node] 0

theorem count_eq_size (node : Node Context) : node.count = node.size := by
  simp [count, countPending_eq]

theorem size_le_totalSize_of_mem {node : Node Context} {nodes : List (Node Context)}
    (member : node ∈ nodes) : node.size ≤ totalSize nodes := by
  induction nodes with
  | nil => simp at member
  | cons first rest ih =>
    rw [totalSize_cons]
    rcases List.mem_cons.mp member with rfl | later
    · omega
    · have := ih later
      omega

theorem size_lt_of_mem_children {node child : Node Context}
    (member : child ∈ node.children) : child.size < node.size := by
  have := size_le_totalSize_of_mem member
  rw [size_eq node]
  omega

end CoolTree.Node
