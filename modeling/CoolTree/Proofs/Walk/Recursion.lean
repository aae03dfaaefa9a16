import CoolTree.Walk.Traversal

/-!
# Walks as recursion

The protocol of a walk is a recursion over the tree: a malformed node stops it;
the pre hook runs; a handled node is done; otherwise the children are walked in
the order of the grammar, and then the visit and post hooks run.  The list of
pending steps computes the same.  Whatever steps are pending, working through
them performs one step after the other, and performing the step that enters a
tree is the recursion on that tree.
-/

namespace CoolTree.Visitor

variable {Context State Failure Memory : Type}

mutual

/-- Walks a tree by recursion.  The answer is the number of nodes entered,
counted on from those entered before. -/
def descend (visitor : Visitor Context (EStateM (Stop Failure) Memory))
    (node : Node Context) (entered : Nat) : EStateM (Stop Failure) Memory Nat :=
  match node.defect? with
  | some defect => throw (.malformed defect)
  | none => do
      if ← visitor.pre node then
        return entered + 1
      else
        let entered ← visitor.descendAll node.children (entered + 1)
        visitor.visit node
        visitor.post node
        return entered
termination_by 2 * node.size
decreasing_by
  have hsize := node.size_eq
  omega

def descendAll (visitor : Visitor Context (EStateM (Stop Failure) Memory))
    (nodes : List (Node Context)) (entered : Nat) : EStateM (Stop Failure) Memory Nat :=
  match nodes with
  | [] => return entered
  | node :: rest => do
      let entered ← visitor.descend node entered
      visitor.descendAll rest entered
termination_by 2 * Node.totalSize nodes + 1
decreasing_by
  · rw [Node.totalSize_cons]
    omega
  · have hsize := node.size_eq
    rw [Node.totalSize_cons]
    omega

end

/-- Performs one pending step: entering walks the whole tree, leaving calls the
last two hooks. -/
def perform (visitor : Visitor Context (EStateM (Stop Failure) Memory)) (entered : Nat) :
    Step Context → EStateM (Stop Failure) Memory Nat
  | .enter node => visitor.descend node entered
  | .leave node => do
      visitor.visit node
      visitor.post node
      return entered

/-- The visitor whose pre hook also notes in the log that it handled a node. -/
def noting (visitor : Visitor Context (Action State Failure)) :
    Visitor Context (Action State Failure) :=
  { visitor with
    pre := fun node => do
      let handled ← visitor.pre node
      if handled then
        Action.note (.handled node.kind)
      return handled }

def walkRecursively (visitor : Visitor Context (Action State Failure)) (root : Node Context) :
    Action State Failure Unit := do
  Action.note (.walking root.kind)
  let entered ← visitor.noting.descend root 0
  Action.note (.walked root.kind entered)

/-! ## How a node is walked -/

section Cases

variable {visitor : Visitor Context (EStateM (Stop Failure) Memory)} {node : Node Context}
  {entered : Nat} {memory next : Memory}

theorem descend_of_malformed {defect : Defect} (hdefect : node.defect? = some defect) :
    visitor.descend node entered memory = .error (.malformed defect) memory := by
  rw [descend, hdefect]
  rfl

theorem descend_of_stopped {stop : Stop Failure} (hdefect : node.defect? = none)
    (hpre : visitor.pre node memory = .error stop next) :
    visitor.descend node entered memory = .error stop next := by
  rw [descend, hdefect]
  simp only [bind, EStateM.bind, hpre]

theorem descend_of_entered (hdefect : node.defect? = none)
    (hpre : visitor.pre node memory = .ok false next) :
    visitor.descend node entered memory =
      (do
        let entered ← visitor.descendAll node.children (entered + 1)
        visitor.visit node
        visitor.post node
        return entered : EStateM (Stop Failure) Memory Nat) next := by
  rw [descend, hdefect]
  simp only [bind, EStateM.bind, hpre]
  rfl

end Cases

end CoolTree.Visitor

namespace CoolTree

variable {Context State Failure Memory : Type}

/-! ## Actions that add to a list -/

/-- Actions are told by the list of what they add.  To answer adds nothing, and
actions one after the other add their lists one after the other. -/
structure Cumulative {Entry : Type}
    (Adds : (Answer : Type) → List Entry → EStateM (Stop Failure) Memory Answer → Prop) : Prop where
  pure : ∀ {Answer : Type} (answer : Answer), Adds Answer [] (Pure.pure answer)
  bind : ∀ {Answer Result : Type} {action : EStateM (Stop Failure) Memory Answer}
    {next : Answer → EStateM (Stop Failure) Memory Result} {first later : List Entry},
    Adds Answer first action → (∀ answer, Adds Result later (next answer)) →
      Adds Result (first ++ later) (action >>= next)

/-- Walking trees one after the other adds the lists of all. -/
theorem Cumulative.descendAll {Entry : Type}
    {Adds : (Answer : Type) → List Entry → EStateM (Stop Failure) Memory Answer → Prop}
    (cumulative : Cumulative Adds) {visitor : Visitor Context (EStateM (Stop Failure) Memory)}
    {listOf : Node Context → List Entry} {nodes : List (Node Context)}
    (each : ∀ node ∈ nodes, ∀ entered, Adds Nat (listOf node) (visitor.descend node entered))
    (entered : Nat) :
    Adds Nat (nodes.flatMap listOf) (visitor.descendAll nodes entered) := by
  induction nodes generalizing entered with
  | nil =>
      rw [Visitor.descendAll]
      exact cumulative.pure entered
  | cons node rest ih =>
      rw [Visitor.descendAll, List.flatMap_cons]
      apply cumulative.bind (each node List.mem_cons_self entered)
      exact ih fun other member => each other (List.mem_cons_of_mem node member)

end CoolTree

namespace CoolTree.Visitor

variable {Context State Failure Memory : Type}

/-! ## Pending steps -/

theorem foldlM_perform_enter (visitor : Visitor Context (EStateM (Stop Failure) Memory))
    (nodes : List (Node Context)) (entered : Nat) :
    (nodes.map Step.enter).foldlM visitor.perform entered = visitor.descendAll nodes entered := by
  induction nodes generalizing entered with
  | nil =>
      rw [descendAll]
      rfl
  | cons node rest ih =>
      rw [List.map_cons, List.foldlM_cons, descendAll]
      exact bind_congr fun entered => ih entered

theorem foldlM_perform_stepsInside
    (visitor : Visitor Context (EStateM (Stop Failure) Memory))
    (node : Node Context) (rest : List (Step Context)) (entered : Nat) :
    (node.stepsInside ++ rest).foldlM visitor.perform entered =
      (do
        let entered ← visitor.descendAll node.children entered
        visitor.visit node
        visitor.post node
        rest.foldlM visitor.perform entered) := by
  rw [Node.stepsInside, List.foldlM_append, List.foldlM_append, foldlM_perform_enter]
  simp [perform]

/-- Working through pending steps performs them one after the other. -/
theorem run_eq_foldlM (visitor : Visitor Context (Action State Failure))
    (steps : List (Step Context)) (entered : Nat) :
    visitor.run steps entered = steps.foldlM visitor.noting.perform entered := by
  fun_induction run visitor steps entered with
  | case1 entered => rfl
  | case2 entered node rest defect hdefect =>
      rw [List.foldlM_cons, perform, descend, hdefect]
      rfl
  | case3 entered node rest hdefect hhandled hinside =>
      rw [List.foldlM_cons, perform, descend, hdefect, hhandled, hinside,
        foldlM_perform_stepsInside]
      simp only [noting, bind_assoc]
      apply bind_congr
      intro handled
      cases handled <;> simp
  | case4 entered node rest ih =>
      rw [List.foldlM_cons, perform, ih]
      simp [noting]

/-- Steps on top of others are worked through first, and what stops them stops
the others. -/
theorem run_append (visitor : Visitor Context (Action State Failure))
    (top bottom : List (Step Context)) (entered : Nat) :
    visitor.run (top ++ bottom) entered = visitor.run top entered >>= visitor.run bottom := by
  calc
    visitor.run (top ++ bottom) entered =
        (top ++ bottom).foldlM visitor.noting.perform entered :=
      run_eq_foldlM visitor (top ++ bottom) entered
    _ = top.foldlM visitor.noting.perform entered >>=
          bottom.foldlM visitor.noting.perform := List.foldlM_append
    _ = visitor.run top entered >>= visitor.run bottom := by
      rw [run_eq_foldlM]
      apply bind_congr
      intro entered
      exact (run_eq_foldlM visitor bottom entered).symm

/-- A walk is the recursion between its two records. -/
theorem walk_eq_walkRecursively (visitor : Visitor Context (Action State Failure))
    (root : Node Context) : visitor.walk root = visitor.walkRecursively root := by
  rw [walk, walkRecursively, run_eq_foldlM, List.foldlM_cons]
  simp [perform]

end CoolTree.Visitor
