import CoolTree.Syntax.Expression
import CoolTree.Syntax.Kind
import CoolTree.Text.Quoted

/-!
# Heads of nodes

The head of a node is everything that the node says by itself: its kind and its
own names, types and literal values, without its context and its children.  The
payload is the part of the head that is shown beside the label of the kind.
-/

namespace CoolTree

inductive Head where
  | program
  | classDecl (name parent : String)
  | attributeDecl (name typeName : String)
  | methodDecl (name returnType : String)
  | formal (name typeName : String)
  | branch (name typeName : String)
  | stringLiteral (value : String)
  | intLiteral (value : Int32)
  | boolLiteral (value : Bool)
  | new (typeName : String)
  | object (name : String)
  | noExpr
  | unary (operator : UnaryOperator)
  | binary (operator : BinaryOperator)
  | assign (name : String)
  | block
  | conditional
  | loop
  | letIn (name typeName : String)
  | typeCase
  | staticDispatch (typeName method : String)
  | dynamicDispatch (method : String)
deriving DecidableEq, Inhabited

def UnaryOperator.kind : UnaryOperator → Kind
  | isVoid => .isVoid
  | complement => .complement
  | not => .not

def BinaryOperator.kind : BinaryOperator → Kind
  | lessThan => .lessThan
  | equalTo => .equalTo
  | lessThanEqualTo => .lessThanEqualTo
  | plus => .plus
  | sub => .sub
  | mul => .mul
  | div => .div

namespace Head

def kind : Head → Kind
  | program => .program
  | classDecl _ _ => .classDecl
  | attributeDecl _ _ => .attributeDecl
  | methodDecl _ _ => .methodDecl
  | formal _ _ => .formal
  | branch _ _ => .branch
  | stringLiteral _ => .stringLiteral
  | intLiteral _ => .intLiteral
  | boolLiteral _ => .boolLiteral
  | new _ => .new
  | object _ => .object
  | noExpr => .noExpr
  | unary operator => operator.kind
  | binary operator => operator.kind
  | assign _ => .assign
  | block => .block
  | conditional => .conditional
  | loop => .loop
  | letIn _ _ => .letIn
  | typeCase => .typeCase
  | staticDispatch _ _ => .staticDispatch
  | dynamicDispatch _ => .dynamicDispatch

/-- The literal value, identifier or type name shown beside the kind.  Only
string literals are quoted. -/
def payload? : Head → Option String
  | stringLiteral value => some (Text.quoted value)
  | intLiteral value => some value.toInt.repr
  | boolLiteral value => some (if value then "true" else "false")
  | classDecl name _ => some name
  | attributeDecl name _ => some name
  | methodDecl name _ => some name
  | formal name _ => some name
  | branch name _ => some name
  | new typeName => some typeName
  | object name => some name
  | assign name => some name
  | letIn name _ => some name
  | staticDispatch _ method => some method
  | dynamicDispatch method => some method
  | program | noExpr | unary _ | binary _ | block | conditional | loop | typeCase => none

/-- The text that shows a head: the label of its kind and, after a blank, its
payload if it has one, also when the payload is empty. -/
def text (head : Head) : String :=
  match head.payload? with
  | some payload => head.kind.label ++ " " ++ payload
  | none => head.kind.label

end Head

end CoolTree
