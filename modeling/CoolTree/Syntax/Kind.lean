/-!
# Kinds of syntax tree nodes

Every node of a COOL syntax tree has one of thirty kinds.  The label of a kind
is the word that dumps, graphs, error texts and log records show for it, and
the kinds are ordered as they are declared here.
-/

namespace CoolTree

inductive Kind where
  | program
  | classDecl
  | attributeDecl
  | methodDecl
  | formal
  | stringLiteral
  | intLiteral
  | boolLiteral
  | new
  | isVoid
  | branch
  | assign
  | block
  | conditional
  | loop
  | complement
  | lessThan
  | equalTo
  | lessThanEqualTo
  | plus
  | sub
  | mul
  | div
  | not
  | staticDispatch
  | dynamicDispatch
  | letIn
  | typeCase
  | object
  | noExpr
deriving DecidableEq, Inhabited

namespace Kind

def all : List Kind :=
  [program, classDecl, attributeDecl, methodDecl, formal, stringLiteral, intLiteral,
    boolLiteral, new, isVoid, branch, assign, block, conditional, loop,
    complement, lessThan, equalTo, lessThanEqualTo, plus, sub, mul, div, not,
    staticDispatch, dynamicDispatch, letIn, typeCase, object, noExpr]

/-- The word that stands for a kind wherever a node is shown. -/
def label : Kind → String
  | program => "Program"
  | classDecl => "Class"
  | attributeDecl => "Attribute"
  | methodDecl => "Method"
  | formal => "Formal"
  | stringLiteral => "StringConst"
  | intLiteral => "IntConst"
  | boolLiteral => "BoolConst"
  | new => "New"
  | isVoid => "IsVoid"
  | branch => "CaseBranch"
  | assign => "Assign"
  | block => "Block"
  | conditional => "If"
  | loop => "While"
  | complement => "Complement"
  | lessThan => "LessThan"
  | equalTo => "EqualTo"
  | lessThanEqualTo => "LessThanEqualTo"
  | plus => "Plus"
  | sub => "Sub"
  | mul => "Mul"
  | div => "Div"
  | not => "Not"
  | staticDispatch => "StaticDispatch"
  | dynamicDispatch => "DynamicDispatch"
  | letIn => "Let"
  | typeCase => "Case"
  | object => "Object"
  | noExpr => "NoExpr"

def ofLabel? (text : String) : Option Kind :=
  all.find? fun kind => kind.label == text

def rank (kind : Kind) : Nat :=
  all.idxOf kind

/-- Orders kinds by declaration; repeated kinds stay side by side. -/
def sort (kinds : List Kind) : List Kind :=
  kinds.mergeSort fun left right => left.rank ≤ right.rank

/-- A label is read back as the kind it belongs to. -/
theorem ofLabel?_label (kind : Kind) : ofLabel? kind.label = some kind := by
  cases kind <;> decide

theorem label_injective {left right : Kind} (equality : left.label = right.label) :
    left = right :=
  Option.some.inj (by rw [← ofLabel?_label left, ← ofLabel?_label right, equality])

end Kind

end CoolTree
