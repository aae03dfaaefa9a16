import CoolTree.Syntax.Head
import CoolTree.Syntax.Program
import CoolTree.Syntax.Slot

/-!
# Nodes

A node is a part of a syntax tree seen without regard to its category: a
program, a class, a feature, a formal parameter, a branch or an expression.
Every node has a context, a head and a list of children, each child in a slot
of its own.  The children stand in the order of the grammar, which is the order
in which walks reach them.
-/

namespace CoolTree

/-- A part of a syntax tree of any category. -/
inductive Node (Context : Type) where
  | program (whole : Program Context)
  | classDecl (declaration : Class Context)
  | feature (declaration : Feature Context)
  | formal (parameter : Formal Context)
  | branch (choice : Branch Context)
  | expression (term : Expression Context)

variable {Context : Type}

def Expression.context : Expression Context → Context
  | stringLiteral context _ => context
  | intLiteral context _ => context
  | boolLiteral context _ => context
  | new context _ => context
  | object context _ => context
  | noExpr context => context
  | unary context _ _ => context
  | binary context _ _ _ => context
  | assign context _ _ => context
  | block context _ => context
  | conditional context _ _ _ => context
  | loop context _ _ => context
  | letIn context _ _ _ _ => context
  | typeCase context _ _ => context
  | staticDispatch context _ _ _ _ => context
  | dynamicDispatch context _ _ _ => context

def Expression.head : Expression Context → Head
  | stringLiteral _ value => .stringLiteral value
  | intLiteral _ value => .intLiteral value
  | boolLiteral _ value => .boolLiteral value
  | new _ typeName => .new typeName
  | object _ name => .object name
  | noExpr _ => .noExpr
  | unary _ operator _ => .unary operator
  | binary _ operator _ _ => .binary operator
  | assign _ name _ => .assign name
  | block _ _ => .block
  | conditional _ _ _ _ => .conditional
  | loop _ _ _ => .loop
  | letIn _ name typeName _ _ => .letIn name typeName
  | typeCase _ _ _ => .typeCase
  | staticDispatch _ _ typeName method _ => .staticDispatch typeName method
  | dynamicDispatch _ _ method _ => .dynamicDispatch method

namespace Node

def context : Node Context → Context
  | program whole => whole.context
  | classDecl declaration => declaration.context
  | feature (.attributeDecl declaration) => declaration.context
  | feature (.methodDecl declaration) => declaration.context
  | formal parameter => parameter.context
  | branch choice => choice.context
  | expression term => term.context

def head : Node Context → Head
  | program _ => .program
  | classDecl declaration => .classDecl declaration.name declaration.parent
  | feature (.attributeDecl declaration) =>
      .attributeDecl declaration.name declaration.typeName
  | feature (.methodDecl declaration) =>
      .methodDecl declaration.name declaration.returnType
  | formal parameter => .formal parameter.name parameter.typeName
  | branch choice => .branch choice.name choice.typeName
  | expression term => term.head

def kind (node : Node Context) : Kind :=
  node.head.kind

def payload? (node : Node Context) : Option String :=
  node.head.payload?

def text (node : Node Context) : String :=
  node.head.text

end Node

/-- The members of a repeated sequence, each in the slot of its number. -/
def inSlots (slot : Nat → Slot) (children : List (Node Context)) :
    List (Slot × Node Context) :=
  children.mapIdx fun index child => (slot index, child)

@[simp]
theorem map_snd_inSlots (slot : Nat → Slot) (children : List (Node Context)) :
    (inSlots slot children).map Prod.snd = children := by
  simp [inSlots, List.mapIdx_eq_zipIdx_map, Function.comp_def]

def Expression.slots : Expression Context → List (Slot × Node Context)
  | stringLiteral _ _ | intLiteral _ _ | boolLiteral _ _ | new _ _ | object _ _ | noExpr _ => []
  | unary _ _ operand => [(.operand, .expression operand)]
  | binary _ _ lhs rhs => [(.lhs, .expression lhs), (.rhs, .expression rhs)]
  | assign _ _ value => [(.value, .expression value)]
  | block _ expressions => inSlots .expression (expressions.map .expression)
  | conditional _ condition thenBranch elseBranch =>
      [(.condition, .expression condition), (.thenBranch, .expression thenBranch),
        (.elseBranch, .expression elseBranch)]
  | loop _ condition body =>
      [(.condition, .expression condition), (.body, .expression body)]
  | letIn _ _ _ initializer body =>
      [(.initializer, .expression initializer), (.body, .expression body)]
  | typeCase _ scrutinee branches =>
      (.scrutinee, .expression scrutinee) :: inSlots .branch (branches.map .branch)
  | staticDispatch _ receiver _ _ arguments =>
      (.receiver, .expression receiver) :: inSlots .argument (arguments.map .expression)
  | dynamicDispatch _ receiver _ arguments =>
      (.receiver, .expression receiver) :: inSlots .argument (arguments.map .expression)

namespace Node

/-- The children of a node with their slots, in the order of the grammar. -/
def slots : Node Context → List (Slot × Node Context)
  | program whole => inSlots .classDecl (whole.classes.map .classDecl)
  | classDecl declaration => inSlots .feature (declaration.features.map .feature)
  | feature (.attributeDecl declaration) =>
      [(.initializer, .expression declaration.initializer)]
  | feature (.methodDecl declaration) =>
      inSlots .formal (declaration.formals.map .formal) ++
        [(.body, .expression declaration.body)]
  | formal _ => []
  | branch choice => [(.body, .expression choice.body)]
  | expression term => term.slots

def children (node : Node Context) : List (Node Context) :=
  node.slots.map Prod.snd

end Node

end CoolTree
