import CoolTree.Proofs.Context.Exchange
import CoolTree.Proofs.Context.Pullback
import CoolTree.Proofs.Syntax.Levels
import CoolTree.Syntax.Equality

/-!
# Stripping and refilling trees

Stripping a tree leaves nothing in its contexts, and the contexts that are met on
the way can be written down.  The tree is its stripped form together with this
list: how many contexts belong to which child need not be told, since the
stripped form tells it.  In the other direction the contexts can be handed out
again, one for each node, and this gives the only tree with that stripped form
and that list of contexts.
-/

namespace CoolTree

variable {Context Image : Type}

/-- Takes the information out of a context and writes it down. -/
def stripping (context : Context) : StateM (List Context) Unit := fun met =>
  ((), met ++ [context])

/-- Hands out one context after the other, whatever was there before, and fails
when none is left. -/
def handingOut (_ : Context) : StateT (List Image) Option Image
  | [] => none
  | image :: rest => some (image, rest)

namespace Node

def stripped (node : Node Context) : Node Unit :=
  node.map fun _ => ()

/-! ## Stripping -/

theorem sameOutline_stripped (node : Node Context) : node.stripped.SameOutline node := by
  induction node using Node.induction with
  | step node ih =>
      apply SameOutline.of_children (head_map _ node)
      rw [children_map, List.forall₂_map_left_iff]
      exact List.forall₂_same.mpr ih

/-- Trees have the same stripped form when they have the same nodes at the same
places, contexts aside. -/
theorem stripped_eq_iff {left : Node Context} {right : Node Image} :
    left.stripped = right.stripped ↔ left.SameOutline right := by
  have hleft := left.sameOutline_stripped
  have hright := right.sameOutline_stripped
  constructor
  · intro heq path
    rw [← hleft path, heq, hright path]
  · intro same
    apply SameOutline.eq_of_unit
    intro path
    rw [hleft path, same path, hright path]

theorem mapM_mapContext_stripping {children : List (Node Context)}
    (each : ∀ child ∈ children, ∀ met, child.mapContext stripping met =
      (child.stripped, met ++ child.preorder.map context))
    (met : List Context) :
    children.mapM (mapContext stripping) met =
      (children.map stripped, met ++ (children.flatMap preorder).map context) := by
  induction children generalizing met with
  | nil => simp; rfl
  | cons child rest ih =>
      have hrest := ih (fun other member => each other (List.mem_cons_of_mem child member))
        (met ++ child.preorder.map context)
      rw [List.append_assoc, ← List.map_append, ← List.flatMap_cons] at hrest
      exact mapM_cons_of_runs (each child List.mem_cons_self met) hrest

/-- Stripping meets the contexts in preorder. -/
theorem mapContext_stripping (node : Node Context) (met : List Context) :
    node.mapContext stripping met = (node.stripped, met ++ node.preorder.map context) := by
  induction node using Node.induction generalizing met with
  | step node ih =>
      have hcontext : stripping node.context met = ((), met ++ [node.context]) := rfl
      have hchildren := mapM_mapContext_stripping ih (met ++ [node.context])
      obtain ⟨image, himage, hrun⟩ := mapContext_of_parts hcontext hchildren
      obtain rfl : node.stripped = image :=
        Option.some.inj ((assemble?_map _ node).symm.trans himage)
      rw [hrun, preorder_eq, List.map_cons, List.append_assoc, List.singleton_append]

/-! ## Refilling -/

/-- A run that may fail maps the context of a node and then its children, and
assembles what comes out. -/
theorem mapContext_of_some {Memory : Type} {mapping : Context → StateT Memory Option Image}
    {node : Node Context} {memory middle next : Memory} {context : Image}
    {children : List (Node Image)}
    (hcontext : mapping node.context memory = some (context, middle))
    (hchildren : node.children.mapM (mapContext mapping) middle = some (children, next)) :
    ∃ image, assemble? context node.head children = some image ∧
      node.mapContext mapping memory = some (image, next) := by
  have hrun := congrFun (mapContext_eq mapping node) memory
  simp only [bind, StateT.bind, Functor.map, StateT.map, hcontext, hchildren,
    Option.bind_some] at hrun
  cases hnode : node.mapContext mapping memory with
  | none =>
      rw [hnode] at hrun
      cases hrun
  | some result =>
      rw [hnode] at hrun
      obtain ⟨himage, hnext⟩ := Prod.mk.inj (Option.some.inj hrun)
      exact ⟨result.1, himage.symm, by rw [← hnext]⟩

theorem mapM_mapContext_handingOut {children : List (Node Context)}
    (each : ∀ child ∈ children, ∀ images rest : List Image, images.length = child.size →
      ∃ image, child.mapContext handingOut (images ++ rest) = some (image, rest) ∧
        image.SameOutline child ∧ image.preorder.map context = images)
    (images rest : List Image) (hlength : images.length = totalSize children) :
    ∃ results, children.mapM (mapContext handingOut) (images ++ rest) = some (results, rest) ∧
      List.Forall₂ SameOutline results children ∧
      (results.flatMap preorder).map context = images := by
  induction children generalizing images with
  | nil =>
      obtain rfl := List.eq_nil_of_length_eq_zero hlength
      exact ⟨[], by simp; rfl, .nil, rfl⟩
  | cons child others ih =>
      rw [totalSize_cons] at hlength
      obtain ⟨first, later, rfl, hfirst⟩ : ∃ first later, images = first ++ later ∧
          first.length = child.size :=
        ⟨images.take child.size, images.drop child.size, (List.take_append_drop _ _).symm,
          List.length_take_of_le (by omega)⟩
      obtain ⟨image, hchild, same, hcontexts⟩ :=
        each child List.mem_cons_self first (later ++ rest) hfirst
      obtain ⟨results, hothers, hsame, hlater⟩ :=
        ih (fun other member => each other (List.mem_cons_of_mem child member)) later (by
          rw [List.length_append] at hlength
          omega)
      refine ⟨image :: results, ?_, .cons same hsame, ?_⟩
      · rw [List.append_assoc]
        exact mapM_cons_of_runs hchild hothers
      · rw [List.flatMap_cons, List.map_append, hcontexts, hlater]

/-- Contexts that are handed out, one for each node, become the contexts of the
image in preorder, and no more of them are taken. -/
theorem mapContext_handingOut (node : Node Context) (images rest : List Image)
    (hlength : images.length = node.size) :
    ∃ image, node.mapContext handingOut (images ++ rest) = some (image, rest) ∧
      image.SameOutline node ∧ image.preorder.map context = images := by
  induction node using Node.induction generalizing images rest with
  | step node ih =>
      cases images with
      | nil =>
          rw [size_eq, List.length_nil] at hlength
          omega
      | cons first later =>
          rw [size_eq, List.length_cons] at hlength
          have hcontext : handingOut node.context (first :: (later ++ rest)) =
              some (first, later ++ rest) := rfl
          obtain ⟨results, hchildren, hsame, hlater⟩ :=
            mapM_mapContext_handingOut ih later rest (by omega)
          obtain ⟨image, himage, hrun⟩ := mapContext_of_some hcontext hchildren
          obtain ⟨rfl, hhead, rfl⟩ := assemble?_eq_some_iff.mp himage
          refine ⟨image, hrun, .of_children hhead hsame, ?_⟩
          rw [preorder_eq, List.map_cons, hlater]

/-! ## A tree and its stripped form -/

/-- A tree is its stripped form with its contexts in the order in which they are
met, which is the same for all functions that map them.  Two trees are equal
exactly if both agree.  And contexts that are handed out, one for each node of a
tree, give the only tree that has its stripped form and just these contexts. -/
theorem equal_iff_stripping_agrees [DecidableEq Context] (left right : Node Context) :
    ((left == right) = true ↔
      ((left.mapContext stripping []).1 == (right.mapContext stripping []).1) = true ∧
        (left.mapContext stripping []).2 = (right.mapContext stripping []).2) ∧
    (∀ (Memory Image : Type) (mapping : Context → StateM Memory Image) (memory : Memory),
      ((left.mapContext (observed mapping) (memory, [])).2.2).map Exchange.received =
        (left.mapContext stripping []).2) ∧
    ∀ (Image : Type) (images : List Image), images.length = left.count →
      ∃ image, left.mapContext handingOut images = some (image, []) ∧
        ∀ other : Node Image,
          (other.mapContext stripping []).1 = (left.mapContext stripping []).1 ∧
            (other.mapContext stripping []).2 = images ↔ other = image := by
  simp only [mapContext_stripping, List.nil_append, beq_iff_eq, stripped_eq_iff]
  refine ⟨?_, ?_, ?_⟩
  · constructor
    · rintro rfl
      exact ⟨fun _ => rfl, rfl⟩
    · rintro ⟨same, hcontexts⟩
      exact same.eq_of_contexts hcontexts
  · intro Memory Image mapping memory
    obtain ⟨image, next, calls, -, hobserved, relabels⟩ :=
      mapContext_observed mapping left memory []
    rw [hobserved, List.nil_append, relabels.received, List.flatMap_singleton]
  · intro Image images hlength
    rw [count_eq_size] at hlength
    obtain ⟨image, hrun, same, hcontexts⟩ := mapContext_handingOut left images [] hlength
    rw [List.append_nil] at hrun
    refine ⟨image, hrun, fun other => ?_⟩
    constructor
    · rintro ⟨hother, hcontextsOther⟩
      apply SameOutline.eq_of_contexts
      · exact fun path => (hother path).trans (same path).symm
      · rw [hcontextsOther, hcontexts]
    · rintro rfl
      exact ⟨same, hcontexts⟩

/-- Three contexts of another type are handed out over a block of two expressions. -/
theorem equal_iff_stripping_agrees_block :
    let tree : Node Nat := .expression (.block 5 [.noExpr 6, .object 7 "x"])
    let refilled : Node String := .expression (.block "a" [.noExpr "b", .object "c" "x"])
    ["a", "b", "c"].length = tree.count ∧
      tree.mapContext handingOut ["a", "b", "c"] = some (refilled, []) := by
  intro tree refilled
  have hlength : ["a", "b", "c"].length = tree.count := by
    unfold tree
    decide +kernel
  obtain ⟨-, -, hrefilled⟩ := equal_iff_stripping_agrees tree tree
  obtain ⟨image, hrun, honly⟩ := hrefilled String ["a", "b", "c"] hlength
  obtain rfl : refilled = image := (honly refilled).mp ⟨rfl, rfl⟩
  exact ⟨hlength, hrun⟩

end Node

end CoolTree
