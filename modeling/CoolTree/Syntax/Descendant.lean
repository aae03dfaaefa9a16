import CoolTree.Syntax.Size

/-!
# Descendants

A descendant is addressed by the path of child positions that leads to it from
the root.  In preorder a node stands before its descendants and the trees of
its children follow one another; `enumerate` lists the same nodes without deep
recursion.
-/

namespace CoolTree.Node

variable {Context : Type}

/-- The descendant that a path of child positions leads to, if there is one. -/
def descendant? : List Nat → Node Context → Option (Node Context)
  | [], node => some node
  | position :: path, node => node.children[position]? >>= descendant? path

def preorder (node : Node Context) : List (Node Context) :=
  node :: (node.children.attach.map fun ⟨child, _⟩ => preorder child).flatten
termination_by sizeOf node
decreasing_by exact sizeOf_lt_of_mem_children ‹_›

/-- A node comes first, then the trees of its children in order. -/
theorem preorder_eq (node : Node Context) :
    node.preorder = node :: node.children.flatMap preorder := by
  rw [preorder, List.flatMap_def]
  simp

/-- The preorder of some trees lists all their nodes. -/
theorem length_flatMap_preorder {nodes : List (Node Context)}
    (each : ∀ node ∈ nodes, node.preorder.length = node.size) :
    (nodes.flatMap preorder).length = totalSize nodes := by
  induction nodes with
  | nil => rfl
  | cons node nodes ih =>
    rw [List.flatMap_cons, List.length_append, totalSize_cons, each node List.mem_cons_self,
      ih fun other member => each other (List.mem_cons_of_mem node member)]

theorem length_preorder (node : Node Context) : node.preorder.length = node.size := by
  induction node using induction with
  | step node ih =>
    rw [preorder_eq, size_eq, List.length_cons, length_flatMap_preorder ih, Nat.add_comm]

def enumeratePending (nodes : List (Node Context)) (listed : Array (Node Context)) :
    Array (Node Context) :=
  match nodes with
  | [] => listed
  | node :: rest => enumeratePending (node.children ++ rest) (listed.push node)
termination_by totalSize nodes
decreasing_by
  rw [totalSize_append, totalSize_cons, size_eq]
  omega

theorem toList_enumeratePending (nodes : List (Node Context)) (listed : Array (Node Context)) :
    (enumeratePending nodes listed).toList = listed.toList ++ nodes.flatMap preorder := by
  fun_induction enumeratePending nodes listed with
  | case1 => simp
  | case2 listed node rest ih =>
    rw [ih, List.flatMap_append, List.flatMap_cons, preorder_eq]
    simp

/-- The nodes of a tree in preorder, listed without deep recursion. -/
def enumerate (node : Node Context) : List (Node Context) :=
  (enumeratePending [node] #[]).toList

theorem enumerate_eq_preorder (node : Node Context) : node.enumerate = node.preorder := by
  simp [enumerate, toList_enumeratePending]

end CoolTree.Node
