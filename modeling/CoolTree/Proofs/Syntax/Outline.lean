import CoolTree.Syntax.Assembly
import CoolTree.Syntax.Descendant
import Mathlib.Data.List.Forall2

/-!
# Outlines

The outline of a tree is what remains of it without its contexts: its shape and
the head of every node.  Since the head of a node is all that the node says
besides its context and its children, trees with the same outline differ in
their contexts only.
-/

namespace CoolTree.Node

variable {Context Image : Type}

/-- Two trees have the same nodes at the same places, contexts aside. -/
def SameOutline (left : Node Context) (right : Node Image) : Prop :=
  ∀ path, (left.descendant? path).map head = (right.descendant? path).map head

/-- Equal heads over children of the same outline make trees of the same outline. -/
theorem SameOutline.of_children {left : Node Context} {right : Node Image}
    (hhead : left.head = right.head)
    (hchildren : List.Forall₂ SameOutline left.children right.children) :
    left.SameOutline right := by
  intro path
  cases path with
  | nil =>
      rw [descendant?, descendant?, Option.map_some, Option.map_some, hhead]
  | cons position path =>
      rw [descendant?, descendant?]
      obtain ⟨hlength, heach⟩ := List.forall₂_iff_get.mp hchildren
      by_cases hposition : position < left.children.length
      · have hother : position < right.children.length := hlength ▸ hposition
        rw [List.getElem?_eq_getElem hposition, List.getElem?_eq_getElem hother]
        exact heach position hposition hother path
      · have hother : ¬ position < right.children.length := hlength ▸ hposition
        rw [List.getElem?_eq_none (Nat.le_of_not_lt hposition),
          List.getElem?_eq_none (Nat.le_of_not_lt hother)]
        rfl

namespace SameOutline

variable {left : Node Context} {right : Node Image}

theorem head_eq (same : left.SameOutline right) : left.head = right.head :=
  Option.some.inj (same [])

theorem length_children (same : left.SameOutline right) :
    left.children.length = right.children.length := by
  have hheads : left.children.map head = right.children.map head := by
    apply List.ext_getElem?
    intro position
    have hhere := same [position]
    rw [List.getElem?_map, List.getElem?_map]
    simpa [descendant?] using hhere
  simpa using congrArg List.length hheads

theorem children (same : left.SameOutline right) :
    List.Forall₂ SameOutline left.children right.children := by
  apply List.forall₂_iff_get.mpr
  constructor
  · exact same.length_children
  · intro position hleft hright path
    have hbelow := same (position :: path)
    rw [descendant?, descendant?, List.getElem?_eq_getElem hleft,
      List.getElem?_eq_getElem hright] at hbelow
    exact hbelow

theorem totalSize_eq {lefts : List (Node Context)} {rights : List (Node Image)}
    (each : ∀ left ∈ lefts, ∀ right : Node Image, left.SameOutline right →
      left.size = right.size)
    (same : List.Forall₂ SameOutline lefts rights) : totalSize lefts = totalSize rights := by
  induction same with
  | nil => rfl
  | cons first _ ih =>
      rw [totalSize_cons, totalSize_cons, each _ List.mem_cons_self _ first,
        ih fun other member => each other (List.mem_cons_of_mem _ member)]

theorem size_eq (same : left.SameOutline right) : left.size = right.size := by
  induction left using Node.induction generalizing right with
  | step left ih =>
      rw [left.size_eq, right.size_eq, totalSize_eq (fun child member _ => ih child member)
        same.children]

theorem all_eq_of_contexts {lefts rights : List (Node Context)}
    (each : ∀ left ∈ lefts, ∀ right : Node Context, left.SameOutline right →
      left.preorder.map context = right.preorder.map context → left = right)
    (same : List.Forall₂ SameOutline lefts rights)
    (hcontexts : (lefts.flatMap preorder).map context = (rights.flatMap preorder).map context) :
    lefts = rights := by
  induction same with
  | nil => rfl
  | @cons left right _ _ first _ ih =>
      rw [List.flatMap_cons, List.flatMap_cons, List.map_append, List.map_append] at hcontexts
      have hlength : (left.preorder.map context).length = (right.preorder.map context).length := by
        rw [List.length_map, List.length_map, length_preorder, length_preorder, first.size_eq]
      obtain ⟨hfirst, hrest⟩ := List.append_inj hcontexts hlength
      rw [each _ List.mem_cons_self _ first hfirst,
        ih (fun other member => each other (List.mem_cons_of_mem _ member)) hrest]

/-- A tree is its outline together with its contexts in preorder. -/
theorem eq_of_contexts {left right : Node Context} (same : left.SameOutline right)
    (hcontexts : left.preorder.map context = right.preorder.map context) : left = right := by
  induction left using Node.induction generalizing right with
  | step left ih =>
      rw [left.preorder_eq, right.preorder_eq, List.map_cons, List.map_cons] at hcontexts
      obtain ⟨hcontext, hbelow⟩ := List.cons.inj hcontexts
      apply eq_of_parts hcontext same.head_eq
      exact all_eq_of_contexts (fun child member _ => ih child member) same.children hbelow

end SameOutline

end CoolTree.Node
