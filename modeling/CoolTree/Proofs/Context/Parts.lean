import CoolTree.Context.Mapping
import CoolTree.Proofs.Syntax.Assembling

/-!
# Mapping part by part

The contexts of every category of nodes are mapped by a function of its own.
All of them follow one law: the context of the node is mapped first, then its
children from left to right, and the node is assembled again with its old head.
-/

namespace CoolTree

variable {Context Image : Type} {Effect : Type → Type} [Monad Effect] [LawfulMonad Effect]

theorem Expression.mapContexts_eq_mapM (mapping : Context → Effect Image)
    (expressions : List (Expression Context)) :
    Expression.mapContexts mapping expressions =
      expressions.mapM (Expression.mapContext mapping) := by
  induction expressions with
  | nil => rw [Expression.mapContexts, List.mapM_nil]
  | cons expression rest ih => rw [Expression.mapContexts, List.mapM_cons, ih]

theorem Branch.mapContexts_eq_mapM (mapping : Context → Effect Image)
    (branches : List (Branch Context)) :
    Branch.mapContexts mapping branches = branches.mapM (Branch.mapContext mapping) := by
  induction branches with
  | nil => rw [Branch.mapContexts, List.mapM_nil]
  | cons branch rest ih => rw [Branch.mapContexts, List.mapM_cons, ih]

namespace Node

/-- Parts of one category that stand in a row are mapped as the nodes they are. -/
theorem mapM_mapContext {Part : Type → Type} {wrap : (Label : Type) → Part Label → Node Label}
    {mapping : Context → Effect Image} {mapPart : Part Context → Effect (Part Image)}
    (hwrap : ∀ part, (wrap Context part).mapContext mapping = wrap Image <$> mapPart part)
    (parts : List (Part Context)) :
    parts.mapM (mapContext mapping ∘ wrap Context) =
      List.map (wrap Image) <$> parts.mapM mapPart := by
  induction parts with
  | nil => simp
  | cons part rest ih =>
      rw [List.mapM_cons, List.mapM_cons, Function.comp_apply, hwrap, ih]
      simp

/-- With a memory, parts that stand in a row are mapped one after the other. -/
theorem mapM_cons_of_runs {Memory Part Result : Type}
    {mapping : Part → StateT Memory Effect Result} {part : Part} {rest : List Part}
    {memory middle next : Memory} {result : Result} {results : List Result}
    (hpart : mapping part memory = pure (result, middle))
    (hrest : rest.mapM mapping middle = pure (results, next)) :
    (part :: rest).mapM mapping memory = pure (result :: results, next) := by
  rw [List.mapM_cons]
  simp only [bind, StateT.bind, hpart, pure_bind]
  rw [hrest, pure_bind]
  rfl

variable (mapping : Context → Effect Image)

theorem mapM_mapContext_classDecl (classes : List (Class Context)) :
    classes.mapM (mapContext mapping ∘ classDecl) =
      List.map classDecl <$> classes.mapM (Class.mapContext mapping) :=
  mapM_mapContext (fun _ => by rw [mapContext, bind_pure_comp]) classes

theorem mapM_mapContext_feature (features : List (Feature Context)) :
    features.mapM (mapContext mapping ∘ feature) =
      List.map feature <$> features.mapM (Feature.mapContext mapping) :=
  mapM_mapContext (fun _ => by rw [mapContext, bind_pure_comp]) features

theorem mapM_mapContext_formal (formals : List (Formal Context)) :
    formals.mapM (mapContext mapping ∘ formal) =
      List.map formal <$> formals.mapM (Formal.mapContext mapping) :=
  mapM_mapContext (fun _ => by rw [mapContext, bind_pure_comp]) formals

theorem mapM_mapContext_branch (branches : List (Branch Context)) :
    branches.mapM (mapContext mapping ∘ branch) =
      List.map branch <$> branches.mapM (Branch.mapContext mapping) :=
  mapM_mapContext (fun _ => by rw [mapContext, bind_pure_comp]) branches

theorem mapM_mapContext_expression (expressions : List (Expression Context)) :
    expressions.mapM (mapContext mapping ∘ expression) =
      List.map expression <$> expressions.mapM (Expression.mapContext mapping) :=
  mapM_mapContext (fun _ => by rw [mapContext, bind_pure_comp]) expressions

/-- A node is mapped by mapping its context, then its children, and assembling
the images with its own head. -/
theorem mapContext_eq (node : Node Context) :
    some <$> node.mapContext mapping =
      (do
        let context ← mapping node.context
        let children ← node.children.mapM (mapContext mapping)
        return assemble? context node.head children) := by
  cases node with
  | program whole =>
      simp [mapContext, Program.mapContext, context, head, children, slots, assemble?,
        mapM_mapContext_classDecl]
  | classDecl declaration =>
      simp [mapContext, Class.mapContext, context, head, children, slots, assemble?,
        mapM_mapContext_feature]
  | feature declaration =>
      cases declaration with
      | attributeDecl declaration =>
          simp [mapContext, Feature.mapContext, context, head, children, slots, assemble?]
      | methodDecl declaration =>
          simp [mapContext, Feature.mapContext, context, head, children, slots, assemble?,
            asExpression?, mapM_mapContext_formal]
  | formal parameter =>
      simp [mapContext, Formal.mapContext, context, head, children, slots, assemble?]
  | branch choice =>
      cases choice
      simp [mapContext, Branch.mapContext, context, head, children, slots, assemble?]
  | expression term =>
      cases term <;>
        simp [mapContext, Expression.mapContext, context, Expression.context, head,
          Expression.head, children, slots, Expression.slots, assemble?,
          Expression.mapContexts_eq_mapM, Branch.mapContexts_eq_mapM,
          mapM_mapContext_expression, mapM_mapContext_branch]

end Node

end CoolTree
