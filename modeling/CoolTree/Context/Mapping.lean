import CoolTree.Syntax.Node

/-!
# Mapping contexts

The contexts of a tree are replaced one by one, by a function that may have
effects.  It meets the contexts in preorder: that of a node before those of its
children, and the children in the order of the grammar.  Nothing but contexts
changes.
-/

namespace CoolTree

variable {Context Image : Type} {Effect : Type → Type} [Monad Effect]

mutual

def Expression.mapContext (mapping : Context → Effect Image) :
    Expression Context → Effect (Expression Image)
  | .stringLiteral context value => do
      return .stringLiteral (← mapping context) value
  | .intLiteral context value => do
      return .intLiteral (← mapping context) value
  | .boolLiteral context value => do
      return .boolLiteral (← mapping context) value
  | .new context typeName => do
      return .new (← mapping context) typeName
  | .object context name => do
      return .object (← mapping context) name
  | .noExpr context => do
      return .noExpr (← mapping context)
  | .unary context operator operand => do
      let context ← mapping context
      return .unary context operator (← operand.mapContext mapping)
  | .binary context operator lhs rhs => do
      let context ← mapping context
      let lhs ← lhs.mapContext mapping
      return .binary context operator lhs (← rhs.mapContext mapping)
  | .assign context name value => do
      let context ← mapping context
      return .assign context name (← value.mapContext mapping)
  | .block context expressions => do
      let context ← mapping context
      return .block context (← Expression.mapContexts mapping expressions)
  | .conditional context condition thenBranch elseBranch => do
      let context ← mapping context
      let condition ← condition.mapContext mapping
      let thenBranch ← thenBranch.mapContext mapping
      return .conditional context condition thenBranch (← elseBranch.mapContext mapping)
  | .loop context condition body => do
      let context ← mapping context
      let condition ← condition.mapContext mapping
      return .loop context condition (← body.mapContext mapping)
  | .letIn context name typeName initializer body => do
      let context ← mapping context
      let initializer ← initializer.mapContext mapping
      return .letIn context name typeName initializer (← body.mapContext mapping)
  | .typeCase context scrutinee branches => do
      let context ← mapping context
      let scrutinee ← scrutinee.mapContext mapping
      return .typeCase context scrutinee (← Branch.mapContexts mapping branches)
  | .staticDispatch context receiver typeName method arguments => do
      let context ← mapping context
      let receiver ← receiver.mapContext mapping
      let arguments ← Expression.mapContexts mapping arguments
      return .staticDispatch context receiver typeName method arguments
  | .dynamicDispatch context receiver method arguments => do
      let context ← mapping context
      let receiver ← receiver.mapContext mapping
      return .dynamicDispatch context receiver method (← Expression.mapContexts mapping arguments)

def Branch.mapContext (mapping : Context → Effect Image) :
    Branch Context → Effect (Branch Image)
  | ⟨context, name, typeName, body⟩ => do
      let context ← mapping context
      return ⟨context, name, typeName, ← body.mapContext mapping⟩

def Expression.mapContexts (mapping : Context → Effect Image) :
    List (Expression Context) → Effect (List (Expression Image))
  | [] => return []
  | expression :: expressions => do
      let expression ← expression.mapContext mapping
      return expression :: (← Expression.mapContexts mapping expressions)

def Branch.mapContexts (mapping : Context → Effect Image) :
    List (Branch Context) → Effect (List (Branch Image))
  | [] => return []
  | branch :: branches => do
      let branch ← branch.mapContext mapping
      return branch :: (← Branch.mapContexts mapping branches)

end

def Formal.mapContext (mapping : Context → Effect Image) (formal : Formal Context) :
    Effect (Formal Image) := do
  return ⟨← mapping formal.context, formal.name, formal.typeName⟩

def Feature.mapContext (mapping : Context → Effect Image) :
    Feature Context → Effect (Feature Image)
  | .attributeDecl declaration => do
      let context ← mapping declaration.context
      let initializer ← declaration.initializer.mapContext mapping
      return .attributeDecl ⟨context, declaration.name, declaration.typeName, initializer⟩
  | .methodDecl declaration => do
      let context ← mapping declaration.context
      let formals ← declaration.formals.mapM (Formal.mapContext mapping)
      let body ← declaration.body.mapContext mapping
      return .methodDecl ⟨context, declaration.name, formals, declaration.returnType, body⟩

def Class.mapContext (mapping : Context → Effect Image) (declaration : Class Context) :
    Effect (Class Image) := do
  let context ← mapping declaration.context
  let features ← declaration.features.mapM (Feature.mapContext mapping)
  return ⟨context, declaration.name, declaration.parent, features⟩

def Program.mapContext (mapping : Context → Effect Image) (program : Program Context) :
    Effect (Program Image) := do
  let context ← mapping program.context
  let classes ← program.classes.mapM (Class.mapContext mapping)
  return ⟨context, classes⟩

/-- Maps the contexts of a node and its descendants. -/
def Node.mapContext (mapping : Context → Effect Image) : Node Context → Effect (Node Image)
  | .program whole => do return .program (← whole.mapContext mapping)
  | .classDecl declaration => do return .classDecl (← declaration.mapContext mapping)
  | .feature declaration => do return .feature (← declaration.mapContext mapping)
  | .formal parameter => do return .formal (← parameter.mapContext mapping)
  | .branch choice => do return .branch (← choice.mapContext mapping)
  | .expression term => do return .expression (← term.mapContext mapping)

end CoolTree
