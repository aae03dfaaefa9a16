import CoolTree.Syntax.Assembly
import CoolTree.Syntax.Size

/-!
# Equality of trees

Two trees are equal when they agree in category, in every context and in every
field, whether it is shown or not.  The comparison goes over a list of pending
pairs, so that deep trees cost no deep recursion, and it decides equality.
-/

namespace CoolTree.Node

variable {Context : Type}

def equalPending [DecidableEq Context] (pairs : List (Node Context × Node Context)) : Bool :=
  match pairs with
  | [] => true
  | (left, right) :: rest =>
      if left.head = right.head ∧ left.context = right.context ∧
          left.children.length = right.children.length then
        equalPending (left.children.zip right.children ++ rest)
      else
        false
termination_by totalSize (pairs.map Prod.fst)
decreasing_by
  rename_i agreement
  have hsize := size_eq left
  simp only [List.map_append, List.map_fst_zip (Nat.le_of_eq agreement.2.2), List.map_cons,
    totalSize_append, totalSize_cons]
  omega

/-- Two lists of one length are equal when their members are equal pair by pair. -/
theorem zip_members_equal_iff {Member : Type} {left right : List Member}
    (hlength : left.length = right.length) :
    (∀ pair ∈ left.zip right, pair.1 = pair.2) ↔ left = right := by
  induction left generalizing right with
  | nil =>
    obtain rfl := List.eq_nil_of_length_eq_zero hlength.symm
    simp
  | cons first rest ih =>
    cases right with
    | nil => simp at hlength
    | cons other others =>
      rw [List.zip_cons_cons, List.forall_mem_cons, ih (by simpa using hlength), List.cons.injEq]

/-- The comparison finds exactly the pairs that are all equal. -/
theorem equalPending_iff [DecidableEq Context] (pairs : List (Node Context × Node Context)) :
    equalPending pairs = true ↔ ∀ pair ∈ pairs, pair.1 = pair.2 := by
  fun_induction equalPending pairs with
  | case1 => simp
  | case2 left right rest agreement ih =>
    obtain ⟨hhead, hcontext, hlength⟩ := agreement
    rw [ih, List.forall_mem_append, zip_members_equal_iff hlength, List.forall_mem_cons]
    exact and_congr_left fun _ => ⟨eq_of_parts hcontext hhead, congrArg children⟩
  | case3 left right rest disagreement =>
    refine ⟨by simp, fun hequal => absurd ?_ disagreement⟩
    obtain rfl : left = right := hequal (left, right) List.mem_cons_self
    exact ⟨rfl, rfl, rfl⟩

instance [DecidableEq Context] : DecidableEq (Node Context) := fun left right =>
  decidable_of_iff (equalPending [(left, right)] = true) (by simp [equalPending_iff])

end CoolTree.Node
