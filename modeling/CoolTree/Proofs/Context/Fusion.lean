import CoolTree.Proofs.Context.Exchange

/-!
# Mapping contexts in one pass

A tree can be mapped by one function and the result by another one, each with a
memory of its own.  In two passes all calls of the first function come before
those of the second one; when every context is carried through both functions
at once, the calls alternate.  Both ways come to the same tree and to the same
memories, since both passes meet the nodes in the same order.  A function that
gives every context back maps a tree to itself.
-/

namespace CoolTree

variable {Context Middle Image First Second Memory : Type}

/-- The function that carries a context through two functions, one after the
other, each with its own memory. -/
def fused (first : Context → StateM First Middle) (second : Middle → StateM Second Image)
    (context : Context) : StateM (First × Second) Image := fun (left, right) =>
  let (middle, left) := first context left
  let (image, right) := second middle right
  (image, (left, right))

/-- The function that gives every context back and only remembers something of it. -/
def keeping (remember : Context → Memory → Memory) (context : Context) : StateM Memory Context :=
  fun memory => (context, remember context memory)

namespace Node

variable {first : Context → StateM First Middle} {second : Middle → StateM Second Image}

theorem mapM_mapContext_fused {children : List (Node Context)}
    (each : ∀ child ∈ children, ∀ left right, ∃ middle image leftNext rightNext,
      child.mapContext first left = (middle, leftNext) ∧
        middle.mapContext second right = (image, rightNext) ∧
        child.mapContext (fused first second) (left, right) = (image, (leftNext, rightNext)))
    (left : First) (right : Second) :
    ∃ middles images leftNext rightNext,
      children.mapM (mapContext first) left = (middles, leftNext) ∧
        middles.mapM (mapContext second) right = (images, rightNext) ∧
        children.mapM (mapContext (fused first second)) (left, right) =
          (images, (leftNext, rightNext)) := by
  induction children generalizing left right with
  | nil => exact ⟨[], [], left, right, by simp; rfl, by simp; rfl, by simp; rfl⟩
  | cons child rest ih =>
      obtain ⟨middle, image, leftBetween, rightBetween, hfirst, hsecond, hfused⟩ :=
        each child List.mem_cons_self left right
      obtain ⟨middles, images, leftNext, rightNext, hfirsts, hseconds, hfuseds⟩ :=
        ih (fun other member => each other (List.mem_cons_of_mem child member)) leftBetween
          rightBetween
      exact ⟨middle :: middles, image :: images, leftNext, rightNext,
        mapM_cons_of_runs hfirst hfirsts, mapM_cons_of_runs hsecond hseconds,
        mapM_cons_of_runs hfused hfuseds⟩

theorem mapM_mapContext_keeping {remember : Context → Memory → Memory}
    {children : List (Node Context)}
    (each : ∀ child ∈ children, ∀ memory, ∃ next,
      child.mapContext (keeping remember) memory = (child, next))
    (memory : Memory) :
    ∃ next, children.mapM (mapContext (keeping remember)) memory = (children, next) := by
  induction children generalizing memory with
  | nil => exact ⟨memory, by simp; rfl⟩
  | cons child rest ih =>
      obtain ⟨between, hchild⟩ := each child List.mem_cons_self memory
      obtain ⟨next, hrest⟩ :=
        ih (fun other member => each other (List.mem_cons_of_mem child member)) between
      exact ⟨next, mapM_cons_of_runs hchild hrest⟩

/-- A node that gets its own context and its own children back is the node itself. -/
theorem mapContext_keeping (remember : Context → Memory → Memory) (node : Node Context)
    (memory : Memory) :
    ∃ next, node.mapContext (keeping remember) memory = (node, next) := by
  induction node using Node.induction generalizing memory with
  | step node ih =>
      have hcontext : keeping remember node.context memory =
          (node.context, remember node.context memory) := rfl
      obtain ⟨next, hchildren⟩ := mapM_mapContext_keeping ih (remember node.context memory)
      obtain ⟨image, himage, hrun⟩ := mapContext_of_parts hcontext hchildren
      obtain rfl : node = image := Option.some.inj (node.assemble?_children.symm.trans himage)
      exact ⟨next, hrun⟩

/-- Both passes map the same context when they come to a node, and then the same
children, so they agree on the node when they agree on each of these. -/
theorem mapContext_fused (first : Context → StateM First Middle)
    (second : Middle → StateM Second Image) (node : Node Context) (left : First) (right : Second) :
    ∃ middle image leftNext rightNext,
      node.mapContext first left = (middle, leftNext) ∧
        middle.mapContext second right = (image, rightNext) ∧
        node.mapContext (fused first second) (left, right) =
          (image, (leftNext, rightNext)) := by
  induction node using Node.induction generalizing left right with
  | step node ih =>
      rcases hfirst : first node.context left with ⟨between, leftOpened⟩
      rcases hsecond : second between right with ⟨context, rightOpened⟩
      have hfused : fused first second node.context (left, right) =
          (context, (leftOpened, rightOpened)) := by
        simp only [fused, hfirst, hsecond]
      obtain ⟨middles, images, leftNext, rightNext, hfirsts, hseconds, hfuseds⟩ :=
        mapM_mapContext_fused ih leftOpened rightOpened
      obtain ⟨middle, hmiddle, hfirstRun⟩ := mapContext_of_parts hfirst hfirsts
      obtain ⟨rfl, hhead, rfl⟩ := assemble?_eq_some_iff.mp hmiddle
      obtain ⟨image, himage, hsecondRun⟩ := mapContext_of_parts hsecond hseconds
      obtain ⟨same, hsame, hfusedRun⟩ := mapContext_of_parts hfused hfuseds
      obtain rfl : image = same := by
        rw [hhead] at himage
        exact Option.some.inj (himage.symm.trans hsame)
      exact ⟨middle, image, leftNext, rightNext, hfirstRun, hsecondRun, hfusedRun⟩

/-- Mapping a tree by one function and the result by another one comes to the
same tree as one pass with both functions, and leaves each of them the same
memory.  Mapping by a function that gives every context back, whatever it
remembers, comes to the tree itself. -/
theorem mapContext_fusion (first : Context → StateM First Middle)
    (second : Middle → StateM Second Image) (node : Node Context) (left : First)
    (right : Second) :
    (node.mapContext (fused first second) (left, right) =
      let (middle, leftNext) := node.mapContext first left
      let (image, rightNext) := middle.mapContext second right
      (image, (leftNext, rightNext))) ∧
    ∀ (Memory : Type) (remember : Context → Memory → Memory) (memory : Memory),
      (node.mapContext (keeping remember) memory).1 = node := by
  constructor
  · obtain ⟨middle, image, leftNext, rightNext, hfirst, hsecond, hfused⟩ :=
      mapContext_fused first second node left right
    rw [hfused, hfirst]
    dsimp only
    rw [hsecond]
  · intro Memory remember memory
    obtain ⟨next, hnode⟩ := mapContext_keeping remember node memory
    rw [hnode]

end Node

end CoolTree
