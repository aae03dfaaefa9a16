import CoolTree.Syntax.Assembly

/-!
# Assembling and taking apart

Assembling is the inverse of taking a node apart: it succeeds with a node
exactly when it was given the context, the head and the children of this node.
-/

namespace CoolTree

variable {Context : Type}

namespace Node

theorem mapM_eq_some_iff {Part Whole : Type} {wrap : Part → Whole}
    {unwrap? : Whole → Option Part}
    (hwrap : ∀ whole part, unwrap? whole = some part ↔ whole = wrap part)
    {wholes : List Whole} {parts : List Part} :
    wholes.mapM unwrap? = some parts ↔ wholes = parts.map wrap := by
  induction wholes generalizing parts with
  | nil => simp [eq_comm]
  | cons whole rest ih =>
      rw [List.mapM_cons, @eq_comm _ (whole :: rest), List.map_eq_cons_iff]
      simp only [Option.bind_eq_bind, Option.bind_eq_some_iff, hwrap, ih, Option.pure_def,
        Option.some.injEq]
      constructor
      · rintro ⟨part, hpart, others, hothers, rfl⟩
        exact ⟨part, others, rfl, hpart.symm, hothers.symm⟩
      · rintro ⟨part, others, rfl, hpart, hothers⟩
        exact ⟨part, hpart.symm, others, hothers.symm, rfl⟩

theorem asClass?_eq_some_iff (node : Node Context) (declaration : Class Context) :
    node.asClass? = some declaration ↔ node = classDecl declaration := by
  cases node <;> simp [asClass?]

theorem asFeature?_eq_some_iff (node : Node Context) (declaration : Feature Context) :
    node.asFeature? = some declaration ↔ node = feature declaration := by
  cases node <;> simp [asFeature?]

theorem asFormal?_eq_some_iff (node : Node Context) (parameter : Formal Context) :
    node.asFormal? = some parameter ↔ node = formal parameter := by
  cases node <;> simp [asFormal?]

theorem asBranch?_eq_some_iff (node : Node Context) (choice : Branch Context) :
    node.asBranch? = some choice ↔ node = branch choice := by
  cases node <;> simp [asBranch?]

theorem asExpression?_eq_some_iff (node : Node Context) (term : Expression Context) :
    node.asExpression? = some term ↔ node = expression term := by
  cases node <;> simp [asExpression?]

/-- What is assembled has the given context, head and children. -/
theorem parts_of_assemble? {context : Context} {head : Head} {children : List (Node Context)}
    {node : Node Context} (hnode : assemble? context head children = some node) :
    node.context = context ∧ node.head = head ∧ node.children = children := by
  revert hnode
  fun_cases assemble? context head children with
  | case1 | case2 | case16 | case20 | case21 | case22 =>
      intro hnode
      obtain ⟨members, hmembers, rfl⟩ := Option.map_eq_some_iff.mp hnode
      simp only [mapM_eq_some_iff asClass?_eq_some_iff, mapM_eq_some_iff asFeature?_eq_some_iff,
        mapM_eq_some_iff asExpression?_eq_some_iff, mapM_eq_some_iff asBranch?_eq_some_iff]
        at hmembers
      subst hmembers
      simp [Node.context, Expression.context, Node.head, Expression.head, Node.children, slots,
        Expression.slots]
  | case4 name returnType children =>
      intro hnode
      obtain ⟨body, hlast, hrest⟩ := Option.bind_eq_some_iff.mp hnode
      obtain ⟨formals, hformals, heq⟩ := Option.bind_eq_some_iff.mp hrest
      obtain ⟨last, hlast, hbody⟩ := Option.bind_eq_some_iff.mp hlast
      obtain rfl := (asExpression?_eq_some_iff last body).mp hbody
      obtain ⟨formers, rfl⟩ := List.getLast?_eq_some_iff.mp hlast
      rw [List.dropLast_concat, mapM_eq_some_iff asFormal?_eq_some_iff] at hformals
      subst hformals
      cases heq
      simp [Node.context, Node.head, Node.children, slots]
  | case23 =>
      intro hnode
      cases hnode
  | _ =>
      intro hnode
      cases hnode
      exact ⟨rfl, rfl, rfl⟩

/-- A node is assembled exactly from its own context, head and children. -/
theorem assemble?_eq_some_iff {context : Context} {head : Head} {children : List (Node Context)}
    {node : Node Context} :
    assemble? context head children = some node ↔
      node.context = context ∧ node.head = head ∧ node.children = children := by
  constructor
  · exact parts_of_assemble?
  · rintro ⟨rfl, rfl, rfl⟩
    exact assemble?_children node

end Node

end CoolTree
