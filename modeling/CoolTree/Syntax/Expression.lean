/-!
# Expressions

The expressions of COOL as a parser builds them: literals, operators, control
structures, bindings and dispatches.  Every node carries a context, which is
whatever the user of the tree wants to keep there, such as a source position.
A missing optional expression is an expression of its own, `noExpr`.
-/

namespace CoolTree

inductive UnaryOperator where
  | isVoid
  | complement
  | not
deriving DecidableEq, Inhabited

inductive BinaryOperator where
  | lessThan
  | equalTo
  | lessThanEqualTo
  | plus
  | sub
  | mul
  | div
deriving DecidableEq, Inhabited

mutual

inductive Expression (Context : Type) where
  /-- A string literal, its escapes already resolved. -/
  | stringLiteral (context : Context) (value : String)
  /-- An integer literal of 32 bits. -/
  | intLiteral (context : Context) (value : Int32)
  | boolLiteral (context : Context) (value : Bool)
  /-- The creation of an object of a type. -/
  | new (context : Context) (typeName : String)
  | object (context : Context) (name : String)
  /-- The absence of an optional expression. -/
  | noExpr (context : Context)
  | unary (context : Context) (operator : UnaryOperator) (operand : Expression Context)
  | binary (context : Context) (operator : BinaryOperator) (lhs rhs : Expression Context)
  | assign (context : Context) (name : String) (value : Expression Context)
  /-- A sequence of expressions, which a well-shaped tree never leaves empty. -/
  | block (context : Context) (expressions : List (Expression Context))
  | conditional (context : Context) (condition thenBranch elseBranch : Expression Context)
  | loop (context : Context) (condition body : Expression Context)
  /-- The binding of one identifier; several bindings are nested. -/
  | letIn (context : Context) (name typeName : String) (initializer body : Expression Context)
  /-- A choice by dynamic type, which a well-shaped tree gives at least one branch. -/
  | typeCase (context : Context) (scrutinee : Expression Context)
      (branches : List (Branch Context))
  /-- A call of the method that a named class implements. -/
  | staticDispatch (context : Context) (receiver : Expression Context)
      (typeName method : String) (arguments : List (Expression Context))
  /-- A call of the method that the receiver's dynamic type implements. -/
  | dynamicDispatch (context : Context) (receiver : Expression Context)
      (method : String) (arguments : List (Expression Context))

/-- A branch of a choice by dynamic type. -/
structure Branch (Context : Type) where
  context : Context
  /-- The identifier bound to the inspected value. -/
  name : String
  /-- The type that the branch accepts. -/
  typeName : String
  body : Expression Context

end

instance {Context : Type} [Inhabited Context] : Inhabited (Expression Context) :=
  ⟨.noExpr default⟩

end CoolTree
