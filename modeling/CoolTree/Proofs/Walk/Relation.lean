import CoolTree.Proofs.Walk.Projection

/-!
# Walks of related visitors

A walk only puts actions together: it runs hooks one after the other, notes
records, stops at malformed nodes and answers.  So a relation between actions
that respects these ways of putting actions together goes over from the hooks of
two visitors to their walks.  The trees may be different ones, as long as one of
them has the images of the nodes of the other at the same places.
-/

namespace CoolTree

variable {Context Image First Second FirstFailure SecondFailure : Type}

/-- A relation between two kinds of actions that respects all that a walk does
by itself. -/
structure Sequential
    (Related : (Answer : Type) → Action First FirstFailure Answer →
      Action Second SecondFailure Answer → Prop) : Prop where
  pure : ∀ {Answer : Type} (answer : Answer), Related Answer (Pure.pure answer) (Pure.pure answer)
  malformed : ∀ {Answer : Type} (defect : Defect),
    Related Answer (throw (.malformed defect)) (throw (.malformed defect))
  note : ∀ record, Related Unit (Action.note record) (Action.note record)
  bind : ∀ {Answer Result : Type} {left : Action First FirstFailure Answer}
    {right : Action Second SecondFailure Answer}
    {leftNext : Answer → Action First FirstFailure Result}
    {rightNext : Answer → Action Second SecondFailure Result},
    Related Answer left right →
      (∀ answer, Related Result (leftNext answer) (rightNext answer)) →
      Related Result (left >>= leftNext) (right >>= rightNext)

/-- A projection of journals that leaves the log as it is respects all that a walk does. -/
theorem Follows.sequential {State Shown Failure : Type} {project : Journal State → Journal Shown}
    (hnote : ∀ record, Follows project (Action.note record : Action State Failure Unit)
      (Action.note record)) :
    Sequential fun Answer (left : Action State Failure Answer) right =>
      Follows project left right where
  pure := .pure
  malformed defect := .throw (.malformed defect)
  note := hnote
  bind := .bind

/-- A change of nodes that keeps what a walk looks at: the kind, the defect and
the number and order of the children. -/
structure Node.KeepsShape (image : Node Context → Node Image) : Prop where
  kind : ∀ node, (image node).kind = node.kind
  defect? : ∀ node, (image node).defect? = node.defect?
  children : ∀ node, (image node).children = node.children.map image

theorem Node.KeepsShape.refl : Node.KeepsShape fun node : Node Context => node where
  kind _ := rfl
  defect? _ := rfl
  children node := by simp

/-- The hooks of two visitors are related, those of the second one at the images
of the nodes of the first one. -/
structure Visitor.Corresponds
    (Related : (Answer : Type) → Action First FirstFailure Answer →
      Action Second SecondFailure Answer → Prop)
    (image : Node Context → Node Image)
    (left : Visitor Context (Action First FirstFailure))
    (right : Visitor Image (Action Second SecondFailure)) : Prop where
  pre : ∀ node, Related Bool (left.pre node) (right.pre (image node))
  visit : ∀ node, Related Unit (left.visit node) (right.visit (image node))
  post : ∀ node, Related Unit (left.post node) (right.post (image node))

namespace Visitor.Corresponds

variable {Related : (Answer : Type) → Action First FirstFailure Answer →
    Action Second SecondFailure Answer → Prop}
  {image : Node Context → Node Image}
  {left : Visitor Context (Action First FirstFailure)}
  {right : Visitor Image (Action Second SecondFailure)}

theorem noting (sequential : Sequential Related) (keeps : Node.KeepsShape image)
    (related : Visitor.Corresponds Related image left right) :
    Visitor.Corresponds Related image left.noting right.noting where
  pre node := by
    apply sequential.bind (related.pre node)
    intro handled
    rw [keeps.kind]
    cases handled with
    | true => exact sequential.bind (sequential.note _) fun _ => sequential.pure true
    | false => exact sequential.pure false
  visit := related.visit
  post := related.post

theorem descendAll (sequential : Sequential Related) {nodes : List (Node Context)}
    (each : ∀ node ∈ nodes, ∀ entered,
      Related Nat (left.descend node entered) (right.descend (image node) entered))
    (entered : Nat) :
    Related Nat (left.descendAll nodes entered) (right.descendAll (nodes.map image) entered) := by
  induction nodes generalizing entered with
  | nil =>
      rw [List.map_nil, Visitor.descendAll, Visitor.descendAll]
      exact sequential.pure entered
  | cons node rest ih =>
      rw [List.map_cons, Visitor.descendAll, Visitor.descendAll]
      apply sequential.bind
      · exact each node List.mem_cons_self entered
      · exact ih fun other member => each other (List.mem_cons_of_mem node member)

theorem descend (sequential : Sequential Related) (keeps : Node.KeepsShape image)
    (related : Visitor.Corresponds Related image left right) (node : Node Context) (entered : Nat) :
    Related Nat (left.descend node entered) (right.descend (image node) entered) := by
  induction node using Node.induction generalizing entered with
  | step node ih =>
      rw [Visitor.descend, Visitor.descend, keeps.defect?, keeps.children]
      cases node.defect? with
      | some defect => exact sequential.malformed defect
      | none =>
          apply sequential.bind (related.pre node)
          intro handled
          cases handled with
          | true => exact sequential.pure (entered + 1)
          | false =>
              apply sequential.bind (descendAll sequential ih (entered + 1))
              intro entered
              apply sequential.bind (related.visit node)
              intro _
              apply sequential.bind (related.post node)
              intro _
              exact sequential.pure entered

theorem walk (sequential : Sequential Related) (keeps : Node.KeepsShape image)
    (related : Visitor.Corresponds Related image left right) (root : Node Context) :
    Related Unit (left.walk root) (right.walk (image root)) := by
  rw [walk_eq_walkRecursively, walk_eq_walkRecursively, walkRecursively, walkRecursively,
    keeps.kind]
  apply sequential.bind (sequential.note _)
  intro _
  apply sequential.bind ((related.noting sequential keeps).descend sequential keeps root 0)
  intro entered
  exact sequential.note _

end Visitor.Corresponds

end CoolTree
