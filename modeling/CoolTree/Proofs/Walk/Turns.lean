import CoolTree.Proofs.Walk.Invariant
import Mathlib.Logic.Relation

/-!
# Pending work comes to an end

Counting and walking work through what is pending, turn by turn, and a turn can put
more in place of what it takes.  Both come to an end whatever is pending, not only
when it arose from one root.  Each turn of counting takes one node of the pending
trees away, so the order in which they are taken does not matter.  A turn of a walk
lowers the weight of the pending steps, in which entering a tree counts twice its
nodes and leaving a node counts one.
-/

namespace CoolTree

variable {Context State Failure : Type}

/-! ## Counting -/

namespace Node

/-- A turn of counting takes one of the pending nodes, whichever it is, counts it, and
puts its children in its place, in whatever order. -/
inductive CountTurn : List (Node Context) × Nat → List (Node Context) × Nat → Prop
  | take {pending next rest : List (Node Context)} {node : Node Context} (counted : Nat)
    (htaken : pending.Perm (node :: rest)) (hnext : next.Perm (node.children ++ rest)) :
    CountTurn (pending, counted) (next, counted + 1)

/-- A turn counts one node, and one node less is pending. -/
theorem CountTurn.totalSize_eq {before after : List (Node Context) × Nat}
    (turn : CountTurn before after) :
    after.2 = before.2 + 1 ∧ totalSize before.1 = totalSize after.1 + 1 := by
  obtain ⟨counted, htaken, hnext⟩ := turn
  refine ⟨rfl, ?_⟩
  dsimp only
  rw [totalSize_perm htaken, totalSize_perm hnext, totalSize_cons, totalSize_append, size_eq]
  omega

/-- Counted and pending nodes together stay as many. -/
theorem countTurns_eq {before after : List (Node Context) × Nat}
    (turns : Relation.ReflTransGen CountTurn before after) :
    after.2 + totalSize after.1 = before.2 + totalSize before.1 := by
  induction turns with
  | refl => rfl
  | tail _ turn ih =>
      have hturn := turn.totalSize_eq
      omega

theorem wellFounded_countTurn :
    WellFounded fun after before : List (Node Context) × Nat => CountTurn before after := by
  apply Subrelation.wf _ (measure fun work : List (Node Context) × Nat => totalSize work.1).wf
  intro after before turn
  have hturn := turn.totalSize_eq
  exact (by omega : totalSize after.1 < totalSize before.1)

/-- Counting from the top of the pending list, the last child first, is one way to take
turns. -/
theorem countTurns_countPending (nodes : List (Node Context)) (counted : Nat) :
    Relation.ReflTransGen CountTurn (nodes, counted) ([], countPending nodes counted) := by
  fun_induction countPending nodes counted with
  | case1 counted => exact .refl
  | case2 counted node rest ih =>
      have hnext : (node.children.reverse ++ rest).Perm (node.children ++ rest) :=
        (List.reverse_perm node.children).append_right rest
      exact .head (.take counted (.refl _) hnext) ih

/-- Counting can go on until nothing is pending. -/
theorem pending_eq_nil_of_stuck {pending : List (Node Context)} {counted : Nat}
    (hstuck : ∀ work, ¬ CountTurn (pending, counted) work) : pending = [] := by
  cases pending with
  | nil => rfl
  | cons node rest => exact absurd (.take counted (.refl _) (.refl _)) (hstuck _)

end Node

/-! ## Walking -/

theorem Step.weight_pos (step : Step Context) : 0 < step.weight := by
  cases step with
  | leave node => exact Nat.one_pos
  | enter node =>
      have hsize := node.size_eq
      rw [weight]
      omega

namespace Visitor

def turn (visitor : Visitor Context (Action State Failure)) (steps : List (Step Context))
    (entered : Nat) : Action State Failure (List (Step Context) × Nat) :=
  match steps with
  | [] => return ([], entered)
  | .enter node :: rest =>
      match node.defect? with
      | some defect => throw (.malformed defect)
      | none => do
          if ← visitor.pre node then
            Action.note (.handled node.kind)
            return (rest, entered + 1)
          else
            return (node.stepsInside ++ rest, entered + 1)
  | .leave node :: rest => do
      visitor.visit node
      visitor.post node
      return (rest, entered)

/-- Works through the pending steps in so many turns at most.  There is no answer when
steps are still pending then. -/
def runWithin (visitor : Visitor Context (Action State Failure)) :
    (turns : Nat) → (steps : List (Step Context)) → (entered : Nat) →
      Action State Failure (Option Nat)
  | _, [], entered => return some entered
  | 0, _ :: _, _ => return none
  | turns + 1, step :: rest, entered => do
      let (steps, entered) ← visitor.turn (step :: rest) entered
      visitor.runWithin turns steps entered

variable (visitor : Visitor Context (Action State Failure))

/-- Working through pending steps is to take turns as long as there are any. -/
theorem run_eq_turn (step : Step Context) (rest : List (Step Context)) (entered : Nat) :
    visitor.run (step :: rest) entered =
      visitor.turn (step :: rest) entered >>= fun work => visitor.run work.1 work.2 := by
  cases step with
  | leave node =>
      rw [run, turn]
      simp only [bind_assoc, pure_bind]
  | enter node =>
      rw [run, turn]
      cases node.defect? with
      | some defect => rfl
      | none =>
          rw [bind_assoc]
          apply bind_congr
          intro handled
          cases handled <;> simp

/-- Whatever a hook does, nothing is promised of what it leaves. -/
theorem leads_hook {Answer : Type} (hook : Action State Failure Answer) :
    Leads (fun _ => True) hook (fun _ _ => True) fun _ => True := by
  intro journal _
  cases hook journal <;> trivial

/-- A turn lowers the weight of what is pending. -/
theorem leads_turn (step : Step Context) (rest : List (Step Context)) (entered : Nat) :
    Leads (fun _ => True) (visitor.turn (step :: rest) entered)
      (fun work _ => totalWeight work.1 < totalWeight (step :: rest)) fun _ => True := by
  cases step with
  | leave node =>
      have hweight : totalWeight rest < totalWeight (.leave node :: rest) := by
        rw [totalWeight_cons, Step.weight]
        omega
      rw [turn]
      apply Leads.bind (leads_hook (visitor.visit node))
      intro _
      apply Leads.bind (leads_hook (visitor.post node))
      exact fun _ => .pure _ fun _ _ => hweight
  | enter node =>
      have hinside := totalWeight_stepsInside_lt node
      have hnode := node.size_eq
      rw [turn]
      cases node.defect? with
      | some defect => exact .throw _ fun _ _ => trivial
      | none =>
          apply Leads.bind (leads_hook (visitor.pre node))
          intro handled
          cases handled with
          | true =>
              have hweight : totalWeight rest < totalWeight (.enter node :: rest) := by
                rw [totalWeight_cons, Step.weight]
                omega
              apply Leads.bind (leads_hook (Action.note _))
              exact fun _ => .pure _ fun _ _ => hweight
          | false =>
              have hweight : totalWeight (node.stepsInside ++ rest) <
                  totalWeight (.enter node :: rest) := by
                rw [totalWeight_append, totalWeight_cons]
                omega
              exact .pure _ fun _ _ => hweight

/-- As many turns as the pending steps weigh are enough for them. -/
theorem runWithin_eq {turns : Nat} {steps : List (Step Context)}
    (henough : totalWeight steps ≤ turns) (entered : Nat) :
    visitor.runWithin turns steps entered = some <$> visitor.run steps entered := by
  induction turns generalizing steps entered with
  | zero =>
      cases steps with
      | nil =>
          rw [runWithin, run]
          rfl
      | cons step rest =>
          have hweight := step.weight_pos
          rw [totalWeight_cons] at henough
          omega
  | succ turns ih =>
      cases steps with
      | nil =>
          rw [runWithin, run]
          rfl
      | cons step rest =>
          rw [runWithin, run_eq_turn, map_bind]
          funext journal
          have hturn := visitor.leads_turn step rest entered journal trivial
          simp only [bind, EStateM.bind]
          cases hresult : visitor.turn (step :: rest) entered journal with
          | error stop after => rfl
          | ok work after =>
              rw [hresult] at hturn
              dsimp only at hturn ⊢
              rw [ih (by omega)]

/-- The nodes entered are counted on from those entered before. -/
theorem run_add (steps : List (Step Context)) (earlier entered : Nat) :
    visitor.run steps (earlier + entered) = (earlier + ·) <$> visitor.run steps entered := by
  fun_induction run visitor steps entered with
  | case1 entered =>
      rw [run]
      rfl
  | case2 entered node rest defect hdefect =>
      rw [run, hdefect]
      rfl
  | case3 entered node rest hdefect hhandled hinside =>
      rw [run, hdefect]
      dsimp only
      rw [map_bind]
      apply bind_congr
      intro handled
      cases handled <;> simp [← hhandled, ← hinside, Nat.add_assoc]
  | case4 entered node rest ih =>
      rw [run, ih]
      simp only [map_bind]

/-- Steps on top of others are worked through on their own first, and the nodes entered
are added up. -/
theorem run_append_add (top bottom : List (Step Context)) :
    visitor.run (top ++ bottom) 0 =
      (do
        let first ← visitor.run top 0
        let second ← visitor.run bottom 0
        return first + second) := by
  rw [run_append]
  apply bind_congr
  intro first
  rw [← map_eq_pure_bind, ← run_add, Nat.add_zero]

end Visitor

/-- Working through what is pending ends, wherever it came from.  Counting ends in
whatever order the pending nodes are taken, and then it has added the sizes of all
the pending trees.  A walk whose hooks answer or stop ends after as many turns as the
pending steps weigh.  To work through steps on top of others is to work through the
former on their own and then, unless something stopped them, through the latter; the
numbers of nodes entered are added up. -/
theorem pending_work_ends :
    (WellFounded (fun after before : List (Node Context) × Nat => Node.CountTurn before after) ∧
      ∀ (nodes : List (Node Context)) (counted : Nat),
        Node.countPending nodes counted = counted + Node.totalSize nodes ∧
          Relation.ReflTransGen Node.CountTurn (nodes, counted)
            ([], Node.countPending nodes counted) ∧
          ∀ pending total,
            Relation.ReflTransGen Node.CountTurn (nodes, counted) (pending, total) →
              (∀ work, ¬ Node.CountTurn (pending, total) work) →
                pending = [] ∧ total = counted + Node.totalSize nodes) ∧
      ∀ (visitor : Visitor Context (Action State Failure)),
        (∀ steps entered turns, totalWeight steps ≤ turns →
          visitor.runWithin turns steps entered = some <$> visitor.run steps entered) ∧
        (∀ top bottom entered, visitor.run (top ++ bottom) entered =
          visitor.run top entered >>= visitor.run bottom) ∧
        ∀ top bottom, visitor.run (top ++ bottom) 0 = (do
          let first ← visitor.run top 0
          let second ← visitor.run bottom 0
          return first + second) := by
  refine ⟨⟨Node.wellFounded_countTurn, ?_⟩, ?_⟩
  · intro nodes counted
    refine ⟨Node.countPending_eq nodes counted, Node.countTurns_countPending nodes counted, ?_⟩
    intro pending total hturns hstuck
    have hsum := Node.countTurns_eq hturns
    obtain rfl := Node.pending_eq_nil_of_stuck hstuck
    exact ⟨rfl, hsum⟩
  · intro visitor
    exact ⟨fun _ entered _ henough => visitor.runWithin_eq henough entered, visitor.run_append,
      visitor.run_append_add⟩

end CoolTree
