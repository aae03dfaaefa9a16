import CoolTree.Syntax.Expression

/-!
# Programs, classes and features

A program is a list of classes, a class a list of features, and a feature an
attribute or a method.
-/

namespace CoolTree

structure Formal (Context : Type) where
  context : Context
  name : String
  typeName : String

structure Attribute (Context : Type) where
  context : Context
  name : String
  typeName : String
  /-- The initial value, `noExpr` when none is given. -/
  initializer : Expression Context

structure Method (Context : Type) where
  context : Context
  name : String
  formals : List (Formal Context)
  /-- The declared type of the result. -/
  returnType : String
  /-- The expression that the method evaluates. -/
  body : Expression Context

inductive Feature (Context : Type) where
  | attributeDecl (declaration : Attribute Context)
  | methodDecl (declaration : Method Context)

structure Class (Context : Type) where
  context : Context
  name : String
  /-- The name of the class it inherits from. -/
  parent : String
  features : List (Feature Context)

/-- A whole program, which a well-shaped tree gives at least one class. -/
structure Program (Context : Type) where
  context : Context
  classes : List (Class Context)

end CoolTree
