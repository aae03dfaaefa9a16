import CoolTree.Syntax.Descendant
import CoolTree.Syntax.Equality
import CoolTree.Syntax.Shape

/-!
# Occurrences

Equal nodes can stand at many places of a tree.  An occurrence is a node
together with the path of child positions that leads to it from the root, so it
also tells the ancestors.  The occurrences of a tree in preorder are exactly
the paths that lead somewhere, each with the node it leads to, and no path
stands there twice.
-/

namespace CoolTree

variable {Context : Type}

/-- A node at its place in a tree. -/
structure Occurrence (Context : Type) where
  path : List Nat
  node : Node Context
deriving DecidableEq

namespace Occurrence

def depth (occurrence : Occurrence Context) : Nat :=
  occurrence.path.length

/-- The same node seen from one level higher. -/
def under (position : Nat) (occurrence : Occurrence Context) : Occurrence Context :=
  ⟨position :: occurrence.path, occurrence.node⟩

@[simp]
theorem node_under (position : Nat) (occurrence : Occurrence Context) :
    (occurrence.under position).node = occurrence.node := rfl

@[simp]
theorem path_under (position : Nat) (occurrence : Occurrence Context) :
    (occurrence.under position).path = position :: occurrence.path := rfl

@[simp]
theorem depth_under (position : Nat) (occurrence : Occurrence Context) :
    (occurrence.under position).depth = occurrence.depth + 1 := rfl

end Occurrence

namespace Node

mutual

def occurrences (node : Node Context) : List (Occurrence Context) :=
  ⟨[], node⟩ :: occurrencesFrom 0 node.children
termination_by 2 * node.size
decreasing_by
  have hsize := node.size_eq
  omega

/-- The nodes below one parent, whose children are taken from a position on. -/
def occurrencesFrom (position : Nat) (children : List (Node Context)) :
    List (Occurrence Context) :=
  match children with
  | [] => []
  | child :: rest =>
      child.occurrences.map (.under position) ++ occurrencesFrom (position + 1) rest
termination_by 2 * totalSize children + 1
decreasing_by
  · rw [totalSize_cons]
    omega
  · have hsize := child.size_eq
    rw [totalSize_cons]
    omega

end

theorem map_node_occurrencesFrom {children : List (Node Context)}
    (each : ∀ child ∈ children, child.occurrences.map Occurrence.node = child.preorder)
    (position : Nat) :
    (occurrencesFrom position children).map Occurrence.node = children.flatMap preorder := by
  induction children generalizing position with
  | nil => simp [occurrencesFrom]
  | cons child rest ih =>
      rw [occurrencesFrom, List.map_append, List.map_map, List.flatMap_cons,
        ih (fun other member => each other (List.mem_cons_of_mem child member)),
        ← each child List.mem_cons_self]
      rfl

theorem map_node_occurrences (node : Node Context) :
    node.occurrences.map Occurrence.node = node.preorder := by
  induction node using Node.induction with
  | step node ih =>
      rw [occurrences, List.map_cons, map_node_occurrencesFrom ih, preorder_eq]

theorem length_occurrences (node : Node Context) : node.occurrences.length = node.size := by
  calc
    node.occurrences.length = (node.occurrences.map Occurrence.node).length := by
      rw [List.length_map]
    _ = node.preorder.length := by rw [map_node_occurrences]
    _ = node.size := node.length_preorder

/-- The occurrences below a parent are those of its children, each under the
position of its child. -/
theorem mem_occurrencesFrom {children : List (Node Context)} {start : Nat}
    {occurrence : Occurrence Context} :
    occurrence ∈ occurrencesFrom start children ↔
      ∃ (position : Nat) (child : Node Context) (inner : Occurrence Context),
        children[position]? = some child ∧ inner ∈ child.occurrences ∧
          occurrence = inner.under (start + position) := by
  induction children generalizing start with
  | nil => simp [occurrencesFrom]
  | cons first rest ih =>
      rw [occurrencesFrom, List.mem_append, List.mem_map, ih]
      constructor
      · rintro (⟨inner, member, rfl⟩ | ⟨position, child, inner, hchild, member, rfl⟩)
        · exact ⟨0, first, inner, rfl, member, rfl⟩
        · refine ⟨position + 1, child, inner, hchild, member, ?_⟩
          rw [Nat.add_right_comm, Nat.add_assoc]
      · rintro ⟨position, child, inner, hchild, member, rfl⟩
        cases position with
        | zero =>
            obtain rfl : first = child := Option.some.inj hchild
            exact Or.inl ⟨inner, member, rfl⟩
        | succ position =>
            refine Or.inr ⟨position, child, inner, hchild, member, ?_⟩
            rw [Nat.add_right_comm, Nat.add_assoc]

/-- The occurrences of a tree are the paths that lead to a node, with that node. -/
theorem mem_occurrences {node : Node Context} {occurrence : Occurrence Context} :
    occurrence ∈ node.occurrences ↔
      node.descendant? occurrence.path = some occurrence.node := by
  obtain ⟨path, target⟩ := occurrence
  induction path generalizing node with
  | nil =>
      rw [occurrences, List.mem_cons, mem_occurrencesFrom]
      simp [descendant?, Occurrence.under, eq_comm]
  | cons position path ih =>
      rw [occurrences, List.mem_cons, mem_occurrencesFrom, descendant?]
      constructor
      · rintro (hroot | ⟨place, child, ⟨inner, found⟩, hchild, member, hinner⟩)
        · simp at hroot
        · simp only [Occurrence.under, Nat.zero_add, Occurrence.mk.injEq, List.cons.injEq] at hinner
          obtain ⟨⟨rfl, rfl⟩, rfl⟩ := hinner
          rw [hchild]
          exact ih.mp member
      · intro hpath
        obtain ⟨child, hchild, hinner⟩ := Option.bind_eq_some_iff.mp hpath
        refine Or.inr ⟨position, child, ⟨path, target⟩, hchild, ih.mpr hinner, ?_⟩
        simp [Occurrence.under]

theorem nodup_pathsFrom {children : List (Node Context)}
    (each : ∀ child ∈ children, (child.occurrences.map Occurrence.path).Nodup) (start : Nat) :
    ((occurrencesFrom start children).map Occurrence.path).Nodup := by
  induction children generalizing start with
  | nil => simp [occurrencesFrom]
  | cons child rest ih =>
      rw [occurrencesFrom, List.map_append, List.map_map, List.nodup_append]
      refine ⟨?_, ?_, ?_⟩
      · have hpaths : (child.occurrences.map (Occurrence.path ∘ Occurrence.under start)) =
            (child.occurrences.map Occurrence.path).map (List.cons start) := by
          rw [List.map_map]
          rfl
        rw [hpaths]
        exact List.Pairwise.map _ (fun _ _ hne heq => hne (List.cons.inj heq).2)
          (each child List.mem_cons_self)
      · exact ih (fun other member => each other (List.mem_cons_of_mem child member)) (start + 1)
      · intro left hleft right hright heq
        obtain ⟨first, _, rfl⟩ := List.mem_map.mp hleft
        obtain ⟨later, hlater, rfl⟩ := List.mem_map.mp hright
        obtain ⟨position, _, inner, _, _, rfl⟩ := mem_occurrencesFrom.mp hlater
        have hhead := (List.cons.inj heq).1
        omega

theorem nodup_paths (node : Node Context) : (node.occurrences.map Occurrence.path).Nodup := by
  induction node using Node.induction with
  | step node ih =>
      rw [occurrences, List.map_cons, List.nodup_cons]
      refine ⟨?_, nodup_pathsFrom ih 0⟩
      intro hroot
      obtain ⟨occurrence, member, hpath⟩ := List.mem_map.mp hroot
      obtain ⟨position, _, inner, _, _, rfl⟩ := mem_occurrencesFrom.mp member
      simp at hpath

/-- The children of a node are what its slots hold. -/
theorem getElem?_children_eq_some_iff {node child : Node Context} {position : Nat} :
    node.children[position]? = some child ↔ ∃ slot, node.slots[position]? = some (slot, child) := by
  rw [children, List.getElem?_map, Option.map_eq_some_iff]
  constructor
  · rintro ⟨⟨slot, _⟩, hslot, rfl⟩
    exact ⟨slot, hslot⟩
  · rintro ⟨slot, hslot⟩
    exact ⟨(slot, child), hslot, rfl⟩

/-- A path in two parts leads to what its second part leads to from where its first
part ends. -/
theorem descendant?_append (root : Node Context) (path rest : List Nat) :
    root.descendant? (path ++ rest) = root.descendant? path >>= descendant? rest := by
  induction path generalizing root with
  | nil => rfl
  | cons position path ih =>
      rw [List.cons_append, descendant?, descendant?, bind_assoc]
      exact bind_congr fun child => ih child

theorem descendant?_singleton (position : Nat) (node : Node Context) :
    node.descendant? [position] = node.children[position]? := by
  rw [descendant?]
  exact bind_pure _

/-- The children of a place are places. -/
theorem child_mem_occurrences {root child : Node Context} {place : Occurrence Context}
    {position : Nat} (member : place ∈ root.occurrences)
    (hchild : place.node.children[position]? = some child) :
    ⟨place.path ++ [position], child⟩ ∈ root.occurrences := by
  rw [mem_occurrences] at member ⊢
  rw [descendant?_append, member]
  exact (descendant?_singleton position place.node).trans hchild

/-- A place other than the root is a child of a place. -/
theorem exists_parent {root child : Node Context} {path : List Nat} {position : Nat}
    (member : ⟨path ++ [position], child⟩ ∈ root.occurrences) :
    ∃ parent, ⟨path, parent⟩ ∈ root.occurrences ∧ parent.children[position]? = some child := by
  have hchild := mem_occurrences.mp member
  rw [descendant?_append] at hchild
  obtain ⟨parent, hparent, hchild⟩ := Option.bind_eq_some_iff.mp hchild
  rw [descendant?_singleton] at hchild
  exact ⟨parent, mem_occurrences.mpr hparent, hchild⟩

/-- The next position on the way from a place to one below it is that of a child. -/
theorem lt_length_children {root : Node Context} {place reached : Occurrence Context}
    (hplace : place ∈ root.occurrences) (hreached : reached ∈ root.occurrences) {position : Nat}
    {rest : List Nat} (hbelow : reached.path = place.path ++ position :: rest) :
    position < place.node.children.length := by
  rw [mem_occurrences] at hplace hreached
  rw [hbelow, descendant?_append, hplace] at hreached
  have hinside : place.node.descendant? (position :: rest) = some reached.node := hreached
  obtain ⟨child, hchild, -⟩ := Option.bind_eq_some_iff.mp hinside
  exact (List.getElem?_eq_some_iff.mp hchild).1

end Node

end CoolTree
