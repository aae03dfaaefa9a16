import CoolTree.Syntax.Node

/-!
# Required children

The grammar asks for at least one class in a program, one expression in a block
and one branch in a choice by type.  A parser never builds a tree that lacks
them; a node that does is malformed, and no walk enters it.
-/

namespace CoolTree

/-- The ways in which a node lacks a required child. -/
inductive Defect where
  | noClasses
  | noExpressions
  | noBranches
deriving DecidableEq, Inhabited

namespace Defect

def kind : Defect → Kind
  | noClasses => .program
  | noExpressions => .block
  | noBranches => .typeCase

def requirement : Defect → String
  | noClasses => "at least one class"
  | noExpressions => "at least one expression"
  | noBranches => "at least one branch"

def message (defect : Defect) : String :=
  "malformed AST: `" ++ defect.kind.label ++ "` node requires " ++ defect.requirement

end Defect

variable {Context : Type}

namespace Node

def defect? : Node Context → Option Defect
  | program ⟨_, []⟩ => some .noClasses
  | expression (.block _ []) => some .noExpressions
  | expression (.typeCase _ _ []) => some .noBranches
  | _ => none

theorem kind_of_defect? {node : Node Context} {defect : Defect}
    (malformed : node.defect? = some defect) : defect.kind = node.kind := by
  unfold defect? at malformed
  split at malformed <;> cases malformed <;> rfl

end Node

end CoolTree
