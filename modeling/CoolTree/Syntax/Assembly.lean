import CoolTree.Syntax.Node

/-!
# Assembling nodes

A node is determined by its context, its head and its children.  Assembling
puts the three together again, and fails when the children do not fit the head:
wrong categories, too few or too many.
-/

namespace CoolTree

variable {Context : Type}

namespace Node

def asClass? : Node Context → Option (Class Context)
  | classDecl declaration => some declaration
  | _ => none

def asFeature? : Node Context → Option (Feature Context)
  | feature declaration => some declaration
  | _ => none

def asFormal? : Node Context → Option (Formal Context)
  | formal parameter => some parameter
  | _ => none

def asBranch? : Node Context → Option (Branch Context)
  | branch choice => some choice
  | _ => none

def asExpression? : Node Context → Option (Expression Context)
  | expression term => some term
  | _ => none

/-- The node that has a context, a head and children, if the children fit. -/
def assemble? (context : Context) : Head → List (Node Context) → Option (Node Context)
  | .program, children =>
      (children.mapM asClass?).map fun classes => program ⟨context, classes⟩
  | .classDecl name parent, children =>
      (children.mapM asFeature?).map fun features =>
        classDecl ⟨context, name, parent, features⟩
  | .attributeDecl name typeName, [expression initializer] =>
      some (feature (.attributeDecl ⟨context, name, typeName, initializer⟩))
  | .methodDecl name returnType, children => do
      let body ← children.getLast? >>= asExpression?
      let formals ← children.dropLast.mapM asFormal?
      some (feature (.methodDecl ⟨context, name, formals, returnType, body⟩))
  | .formal name typeName, [] => some (formal ⟨context, name, typeName⟩)
  | .branch name typeName, [expression body] => some (branch ⟨context, name, typeName, body⟩)
  | .stringLiteral value, [] => some (expression (.stringLiteral context value))
  | .intLiteral value, [] => some (expression (.intLiteral context value))
  | .boolLiteral value, [] => some (expression (.boolLiteral context value))
  | .new typeName, [] => some (expression (.new context typeName))
  | .object name, [] => some (expression (.object context name))
  | .noExpr, [] => some (expression (.noExpr context))
  | .unary operator, [expression operand] =>
      some (expression (.unary context operator operand))
  | .binary operator, [expression lhs, expression rhs] =>
      some (expression (.binary context operator lhs rhs))
  | .assign name, [expression value] => some (expression (.assign context name value))
  | .block, children =>
      (children.mapM asExpression?).map fun expressions =>
        expression (.block context expressions)
  | .conditional, [expression condition, expression thenBranch, expression elseBranch] =>
      some (expression (.conditional context condition thenBranch elseBranch))
  | .loop, [expression condition, expression body] =>
      some (expression (.loop context condition body))
  | .letIn name typeName, [expression initializer, expression body] =>
      some (expression (.letIn context name typeName initializer body))
  | .typeCase, expression scrutinee :: branches =>
      (branches.mapM asBranch?).map fun branches =>
        expression (.typeCase context scrutinee branches)
  | .staticDispatch typeName method, expression receiver :: arguments =>
      (arguments.mapM asExpression?).map fun arguments =>
        expression (.staticDispatch context receiver typeName method arguments)
  | .dynamicDispatch method, expression receiver :: arguments =>
      (arguments.mapM asExpression?).map fun arguments =>
        expression (.dynamicDispatch context receiver method arguments)
  | _, _ => none

/-- A list that was wrapped member by member is unwrapped whole. -/
theorem mapM_comp_eq_some {Part Whole : Type} {wrap : Part → Whole}
    {unwrap? : Whole → Option Part} (unwrap_wrap : ∀ part, unwrap? (wrap part) = some part)
    (parts : List Part) : parts.mapM (unwrap? ∘ wrap) = some parts := by
  induction parts with
  | nil => rfl
  | cons part parts ih =>
    rw [List.mapM_cons, Function.comp_apply, unwrap_wrap, ih]
    rfl

@[simp]
theorem mapM_asClass? (classes : List (Class Context)) :
    classes.mapM (asClass? ∘ classDecl) = some classes :=
  mapM_comp_eq_some (fun _ => rfl) classes

@[simp]
theorem mapM_asFeature? (features : List (Feature Context)) :
    features.mapM (asFeature? ∘ feature) = some features :=
  mapM_comp_eq_some (fun _ => rfl) features

@[simp]
theorem mapM_asFormal? (formals : List (Formal Context)) :
    formals.mapM (asFormal? ∘ formal) = some formals :=
  mapM_comp_eq_some (fun _ => rfl) formals

@[simp]
theorem mapM_asBranch? (branches : List (Branch Context)) :
    branches.mapM (asBranch? ∘ branch) = some branches :=
  mapM_comp_eq_some (fun _ => rfl) branches

@[simp]
theorem mapM_asExpression? (expressions : List (Expression Context)) :
    expressions.mapM (asExpression? ∘ expression) = some expressions :=
  mapM_comp_eq_some (fun _ => rfl) expressions

/-- A node is assembled again from its context, its head and its children. -/
theorem assemble?_children (node : Node Context) :
    assemble? node.context node.head node.children = some node := by
  cases node with
  | program whole => simp [context, head, children, slots, assemble?]
  | classDecl declaration => simp [context, head, children, slots, assemble?]
  | feature declaration =>
    cases declaration with
    | attributeDecl declaration => rfl
    | methodDecl declaration => simp [context, head, children, slots, assemble?, asExpression?]
  | formal parameter => rfl
  | branch choice =>
    cases choice
    rfl
  | expression term =>
    cases term <;>
      simp [context, Expression.context, head, Expression.head, children, slots,
        Expression.slots, assemble?]

/-- Nodes with the same context, head and children are the same node. -/
theorem eq_of_parts {left right : Node Context} (hcontext : left.context = right.context)
    (hhead : left.head = right.head) (hchildren : left.children = right.children) :
    left = right :=
  Option.some.inj (by
    rw [← assemble?_children left, ← assemble?_children right, hcontext, hhead, hchildren])

end Node

end CoolTree
