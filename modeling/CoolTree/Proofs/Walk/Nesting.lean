import CoolTree.Proofs.Walk.Recursion
import CoolTree.Walk.Script

/-!
# Walks nested in a walk

The hooks of a visitor of scripts ask for walks over children only, and a child
has fewer nodes than the node it is a child of.  So a walk over a tree is told by
the walks over smaller trees, and a bound on the depth of the nesting that is as
large as the tree is never reached: every such bound gives the same walk.  With no
bound at all, driving a tree is to walk it with hooks whose nested walks are
driven in the same way.
-/

namespace CoolTree

variable {Context State Failure Answer Memory : Type}

section Agreement

variable {walk other : Node Context → Action State Failure Unit}

/-- A script asks for walks over the given children only. -/
theorem Script.perform_congr {children : List (Node Context)}
    (agree : ∀ child ∈ children, walk child = other child)
    (script : Script State Failure Answer) (log : Log) :
    script.perform children walk log = script.perform children other log := by
  induction script generalizing log with
  | finish answer state => cases answer <;> rfl
  | dispatch position state resume ih =>
      rw [perform, perform]
      cases hchild : children[position]? with
      | none => exact ih (.ok ()) state log
      | some child =>
          dsimp only
          rw [agree child (List.mem_of_getElem? hchild)]
          cases other child ⟨state, log⟩ with
          | ok answer journal => exact ih (.ok ()) journal.state journal.log
          | error stop journal =>
              cases stop with
              | failed failure => exact ih (.error failure) journal.state journal.log
              | malformed defect => rfl

theorem Hook.perform_congr {node : Node Context}
    (agree : ∀ child ∈ node.children, walk child = other child)
    (hook : Hook State Failure Answer) : hook.perform node walk = hook.perform node other := by
  funext journal
  exact Script.perform_congr agree (hook journal.state) journal.log

namespace Visitor

/-- Walking trees one after the other is told by walking each of them. -/
theorem descendAll_congr {left right : Visitor Context (EStateM (Stop Failure) Memory)}
    {nodes : List (Node Context)}
    (agree : ∀ node ∈ nodes, ∀ entered, left.descend node entered = right.descend node entered)
    (entered : Nat) : left.descendAll nodes entered = right.descendAll nodes entered := by
  induction nodes generalizing entered with
  | nil => rw [descendAll, descendAll]
  | cons node rest ih =>
      rw [descendAll, descendAll, agree node List.mem_cons_self]
      apply bind_congr
      exact ih fun inner member => agree inner (List.mem_cons_of_mem node member)

variable (visitor : Visitor Context (Hook State Failure))

/-- The recursion on a tree is told by the walks over smaller trees that hooks ask for. -/
theorem descend_performedBy_congr (node : Node Context)
    (agree : ∀ inner : Node Context, inner.size < node.size → walk inner = other inner)
    (entered : Nat) :
    (visitor.performedBy walk).noting.descend node entered =
      (visitor.performedBy other).noting.descend node entered := by
  induction node using Node.induction generalizing entered with
  | step node ih =>
      have hhook : ∀ {Answer : Type} (hook : Hook State Failure Answer),
          hook.perform node walk = hook.perform node other := by
        intro Answer hook
        apply hook.perform_congr
        exact fun child member => agree child (Node.size_lt_of_mem_children member)
      have hchildren : ∀ entered,
          (visitor.performedBy walk).noting.descendAll node.children entered =
            (visitor.performedBy other).noting.descendAll node.children entered := by
        apply descendAll_congr
        intro child member
        apply ih child member
        intro inner hinner
        exact agree inner (Nat.lt_trans hinner (Node.size_lt_of_mem_children member))
      rw [descend, descend]
      -- The children come first, since the hooks are also inside their recursion.
      simp only [hchildren]
      simp only [noting, performedBy, hhook]

/-- A walk over a tree is told by the walks over smaller trees that hooks ask for. -/
theorem walk_performedBy_congr (root : Node Context)
    (agree : ∀ inner : Node Context, inner.size < root.size → walk inner = other inner) :
    (visitor.performedBy walk).walk root = (visitor.performedBy other).walk root := by
  rw [walk_eq_walkRecursively, walk_eq_walkRecursively, walkRecursively, walkRecursively,
    visitor.descend_performedBy_congr root agree]

end Visitor

end Agreement

namespace Visitor

variable (visitor : Visitor Context (Hook State Failure))

/-- Two bounds on the nesting give the same walk when both are as large as the tree. -/
theorem walk_performing_eq {root : Node Context} {depth other : Nat}
    (hdepth : root.size ≤ depth) (hother : root.size ≤ other) :
    (visitor.performing depth).walk root = (visitor.performing other).walk root := by
  have hsize := root.size_eq
  induction depth generalizing root other with
  | zero => omega
  | succ inner ih =>
      obtain ⟨nested, rfl⟩ : ∃ nested, other = nested + 1 :=
        Nat.exists_eq_add_one_of_ne_zero (by omega)
      apply visitor.walk_performedBy_congr
      intro smaller hsmaller
      exact ih (by omega) (by omega) smaller.size_eq

/-- The bound on the nesting does not matter, as long as it is as large as the tree. -/
theorem walk_performing_of_le {root : Node Context} {depth : Nat} (hdepth : root.count ≤ depth) :
    (visitor.performing depth).walk root = visitor.drive root := by
  have hcount := root.count_eq_size
  exact visitor.walk_performing_eq (by omega) (by omega)

/-- To drive a tree is to walk it with hooks that have children driven in the same way. -/
theorem drive_eq (root : Node Context) :
    visitor.drive root = (visitor.performedBy visitor.drive).walk root := by
  have hsize := root.size_eq
  have hcount : root.count = Node.totalSize root.children + 1 := by
    rw [root.count_eq_size]
    omega
  rw [drive, hcount, performing]
  apply visitor.walk_performedBy_congr
  intro inner hinner
  apply visitor.walk_performing_of_le
  rw [inner.count_eq_size]
  omega

end Visitor

end CoolTree
