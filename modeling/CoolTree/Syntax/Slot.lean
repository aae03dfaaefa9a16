/-!
# Slots

A slot is the place that a child has in its parent.  The children of a
repeated sequence are numbered from zero in their order of declaration.
-/

namespace CoolTree

/-- The place of a child in its parent. -/
inductive Slot where
  | classDecl (index : Nat)
  | feature (index : Nat)
  | formal (index : Nat)
  /-- The initial value of an attribute or a binding. -/
  | initializer
  /-- The body of a method, a loop, a binding or a branch. -/
  | body
  | operand
  | value
  | expression (index : Nat)
  /-- The condition of a conditional or a loop. -/
  | condition
  /-- The expression chosen when a condition holds. -/
  | thenBranch
  /-- The expression chosen when a condition does not hold. -/
  | elseBranch
  /-- The expression whose dynamic type is inspected. -/
  | scrutinee
  /-- A branch of a choice by dynamic type. -/
  | branch (index : Nat)
  | lhs
  | rhs
  | receiver
  | argument (index : Nat)
deriving DecidableEq, Inhabited

namespace Slot

/-- The text of a slot: its name, and its number when it has one. -/
def text : Slot → String
  | classDecl index => "class " ++ index.repr
  | feature index => "feature " ++ index.repr
  | formal index => "formal " ++ index.repr
  | initializer => "init"
  | body => "body"
  | operand => "operand"
  | value => "value"
  | expression index => "expr " ++ index.repr
  | condition => "cond"
  | thenBranch => "then"
  | elseBranch => "else"
  | scrutinee => "scrutinee"
  | branch index => "branch " ++ index.repr
  | lhs => "lhs"
  | rhs => "rhs"
  | receiver => "receiver"
  | argument index => "arg " ++ index.repr

end Slot

end CoolTree
