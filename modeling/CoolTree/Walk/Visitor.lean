import CoolTree.Syntax.Node
import CoolTree.Walk.Action

/-!
# Visitors

A visitor decides what happens at the three points that a walk offers for every
node.  The pre hook runs before the children and answers whether it handled the
node; for a handled node nothing else happens.  The visit hook runs after the
children, and the post hook right after the visit hook.

A visitor is usually written as a table of hooks.  The table must have a visit
hook for every kind; its generic hooks do nothing unless they are given, and a
hook given for one kind takes the place of the generic hook at nodes of that
kind.
-/

namespace CoolTree

structure Visitor (Context : Type) (Effect : Type → Type) where
  /-- Runs before the children and answers whether the node is handled. -/
  pre : Node Context → Effect Bool
  visit : Node Context → Effect Unit
  post : Node Context → Effect Unit

/-- The hooks of a visitor, generic ones and ones for single kinds. -/
structure HookTable (Context : Type) (Effect : Type → Type) where
  visitKind : Kind → Node Context → Effect Unit
  /-- The pre hook of the kinds without one of their own. -/
  preNode? : Option (Node Context → Effect Bool) := none
  /-- The post hook of the kinds without one of their own. -/
  postNode? : Option (Node Context → Effect Unit) := none
  preKind? : Kind → Option (Node Context → Effect Bool) := fun _ => none
  postKind? : Kind → Option (Node Context → Effect Unit) := fun _ => none

/-- The visitor of a hook table: at every node the hook of the node's kind
comes first, then the generic hook, and without either the node is neither
handled nor changed. -/
def HookTable.visitor {Context : Type} {Effect : Type → Type} [Monad Effect]
    (table : HookTable Context Effect) : Visitor Context Effect where
  pre node :=
    match table.preKind? node.kind <|> table.preNode? with
    | some hook => hook node
    | none => pure false
  visit node := table.visitKind node.kind node
  post node :=
    match table.postKind? node.kind <|> table.postNode? with
    | some hook => hook node
    | none => pure ()

end CoolTree
