import CoolTree.Proofs.Syntax.WellShaped
import CoolTree.Proofs.Walk.Trace

/-!
# Passive visitors

A passive visitor never fails and never handles a node.  Its walk enters the
nodes of the tree in preorder, up to the first malformed one, where it stops;
without a malformed node it ends well and has entered every node.
-/

namespace CoolTree

variable {Context State Failure Memory Answer : Type}

def Traced.entered (traced : Traced Context State Failure) : List (Node Context) :=
  (traced.calls.filter fun call => call.phase = .pre).map Call.node

namespace Visitor

/-- The hooks of a passive visitor, with an invariant that ties the nodes
entered so far to its state. -/
structure Passive (visitor : Visitor Context (EStateM (Stop Failure) Memory))
    (invariant : List (Node Context) → Memory → Prop) : Prop where
  pre : ∀ node seen memory, invariant seen memory →
    ∃ next, visitor.pre node memory = .ok false next ∧ invariant (seen ++ [node]) next
  visit : ∀ node seen memory, invariant seen memory →
    ∃ next, visitor.visit node memory = .ok () next ∧ invariant seen next
  post : ∀ node seen memory, invariant seen memory →
    ∃ next, visitor.post node memory = .ok () next ∧ invariant seen next

/-- How a walk of a passive visitor ends: at the first defect, or after all nodes. -/
def passiveOutcome (defect? : Option Defect) (answer : Answer) (memory : Memory) :
    EStateM.Result (Stop Failure) Memory Answer :=
  match defect? with
  | some defect => .error (.malformed defect) memory
  | none => .ok answer memory

namespace Passive

variable {visitor : Visitor Context (EStateM (Stop Failure) Memory)}
  {invariant : List (Node Context) → Memory → Prop}

theorem descendAll {nodes : List (Node Context)}
    (each : ∀ node ∈ nodes, ∀ entered seen memory, invariant seen memory →
      ∃ next, visitor.descend node entered memory =
          passiveOutcome (Node.firstDefect? node.preorder) (entered + node.size) next ∧
        invariant (seen ++ Node.beforeDefect node.preorder) next)
    (entered : Nat) (seen : List (Node Context)) (memory : Memory)
    (holds : invariant seen memory) :
    ∃ next, visitor.descendAll nodes entered memory =
        passiveOutcome (Node.firstDefect? (nodes.flatMap Node.preorder))
          (entered + Node.totalSize nodes) next ∧
      invariant (seen ++ Node.beforeDefect (nodes.flatMap Node.preorder)) next := by
  induction nodes generalizing entered seen memory with
  | nil =>
      rw [Visitor.descendAll]
      exact ⟨memory, rfl, by simpa [Node.beforeDefect] using holds⟩
  | cons node rest ih =>
      obtain ⟨middle, hnode, hmiddle⟩ := each node List.mem_cons_self entered seen memory holds
      rw [Visitor.descendAll, List.flatMap_cons, Node.firstDefect?_append, Node.totalSize_cons]
      simp only [bind, EStateM.bind, hnode]
      cases hdefect : Node.firstDefect? node.preorder with
      | some defect =>
          rw [Node.beforeDefect_append_of_some _ hdefect]
          exact ⟨middle, rfl, hmiddle⟩
      | none =>
          rw [Node.beforeDefect_of_none hdefect] at hmiddle
          rw [Node.beforeDefect_append_of_none _ hdefect, ← List.append_assoc, ← Nat.add_assoc]
          exact ih (fun other member => each other (List.mem_cons_of_mem node member))
            (entered + node.size) _ middle hmiddle

/-- The recursion of a passive visitor enters the tree in preorder up to the
first malformed node. -/
theorem descend (passive : visitor.Passive invariant) (node : Node Context) (entered : Nat)
    (seen : List (Node Context)) (memory : Memory) (holds : invariant seen memory) :
    ∃ next, visitor.descend node entered memory =
        passiveOutcome (Node.firstDefect? node.preorder) (entered + node.size) next ∧
      invariant (seen ++ Node.beforeDefect node.preorder) next := by
  induction node using Node.induction generalizing entered seen memory with
  | step node ih =>
      rw [Node.firstDefect?_preorder]
      cases hdefect : node.defect? with
      | some defect =>
          rw [descend_of_malformed hdefect, Node.beforeDefect_preorder_of_some hdefect]
          exact ⟨memory, rfl, by simpa using holds⟩
      | none =>
          obtain ⟨opened, hpre, hopened⟩ := passive.pre node seen memory holds
          obtain ⟨inside, hchildren, hinside⟩ :=
            descendAll ih (entered + 1) (seen ++ [node]) opened hopened
          rw [descend_of_entered hdefect hpre, Node.beforeDefect_preorder_of_none hdefect,
            node.size_eq, ← Nat.add_assoc, List.append_cons]
          simp only [bind, EStateM.bind, hchildren]
          cases hinner : Node.firstDefect? (node.children.flatMap Node.preorder) with
          | some defect => exact ⟨inside, rfl, hinside⟩
          | none =>
              obtain ⟨visited, hvisit, hvisited⟩ := passive.visit node _ inside hinside
              obtain ⟨left, hpost, hleft⟩ := passive.post node _ visited hvisited
              refine ⟨left, ?_, hleft⟩
              simp only [passiveOutcome, hvisit, hpost]
              rfl

end Passive

/-! ## What a passive visitor enters -/

section Entering

variable {visitor : Visitor Context (Action State Failure)}

theorem Passive.noting_traced (passive : visitor.Passive fun _ _ => True) :
    visitor.traced.noting.Passive fun seen journal => journal.state.entered = seen where
  pre node seen journal holds := by
    obtain ⟨next, hpre, -⟩ := passive.pre node [] journal.untraced trivial
    refine ⟨⟨⟨next.state, journal.state.calls ++ [⟨.pre, node, .ok false⟩]⟩, next.log⟩, ?_, ?_⟩
    · simp only [Visitor.noting, Visitor.traced, Action.traced, bind, EStateM.bind, hpre]
      rfl
    · rw [← holds]
      simp [Traced.entered]
  visit node seen journal holds := by
    obtain ⟨next, hvisit, -⟩ := passive.visit node [] journal.untraced trivial
    refine ⟨⟨⟨next.state, journal.state.calls ++ [⟨.visit, node, .ok false⟩]⟩, next.log⟩, ?_, ?_⟩
    · simp only [Visitor.noting, Visitor.traced, Action.traced, hvisit]
    · rw [← holds]
      simp [Traced.entered]
  post node seen journal holds := by
    obtain ⟨next, hpost, -⟩ := passive.post node [] journal.untraced trivial
    refine ⟨⟨⟨next.state, journal.state.calls ++ [⟨.post, node, .ok false⟩]⟩, next.log⟩, ?_, ?_⟩
    · simp only [Visitor.noting, Visitor.traced, Action.traced, hpost]
    · rw [← holds]
      simp [Traced.entered]

/-- A walk of a passive visitor calls the pre hook for the nodes in preorder, up
to the first malformed one. -/
theorem Passive.walk_traced (passive : visitor.Passive fun _ _ => True) (root : Node Context)
    (state : State) (log : Log) :
    ∃ journal, visitor.traced.walk root ⟨⟨state, []⟩, log⟩ =
        passiveOutcome (Node.firstDefect? root.preorder) () journal ∧
      journal.state.entered = Node.beforeDefect root.preorder := by
  obtain ⟨next, hdescend, hentered⟩ :=
    passive.noting_traced.descend root 0 [] ⟨⟨state, []⟩, log.push (.walking root.kind)⟩ rfl
  rw [walk_eq_walkRecursively, walkRecursively]
  simp only [bind, EStateM.bind, Action.note, hdescend]
  cases Node.firstDefect? root.preorder with
  | some defect => exact ⟨next, rfl, hentered⟩
  | none => exact ⟨_, rfl, hentered⟩

end Entering

end Visitor

end CoolTree
