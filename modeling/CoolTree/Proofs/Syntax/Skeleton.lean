import CoolTree.Proofs.Syntax.Occurrence
import CoolTree.Syntax.Assembly

/-!
# Skeletons

The skeleton of a tree is what dumps and graphs show of it.  Contexts are left
out, and so are the parents of classes, the declared types of attributes,
formal parameters, bindings and branches, the types of results and the classes
named by static dispatches; in their places stand empty names.  Everything else
stays, and the skeleton has the nodes of the tree at the same places.
-/

namespace CoolTree

variable {Context : Type}

/-- A head with empty names in the place of what is not shown. -/
def Head.displayed : Head → Head
  | classDecl name _ => .classDecl name ""
  | attributeDecl name _ => .attributeDecl name ""
  | methodDecl name _ => .methodDecl name ""
  | formal name _ => .formal name ""
  | branch name _ => .branch name ""
  | letIn name _ => .letIn name ""
  | staticDispatch _ method => .staticDispatch "" method
  | head => head

mutual

def Expression.skeleton : Expression Context → Expression Unit
  | .stringLiteral _ value => .stringLiteral () value
  | .intLiteral _ value => .intLiteral () value
  | .boolLiteral _ value => .boolLiteral () value
  | .new _ typeName => .new () typeName
  | .object _ name => .object () name
  | .noExpr _ => .noExpr ()
  | .unary _ operator operand => .unary () operator operand.skeleton
  | .binary _ operator lhs rhs => .binary () operator lhs.skeleton rhs.skeleton
  | .assign _ name value => .assign () name value.skeleton
  | .block _ expressions => .block () (Expression.skeletons expressions)
  | .conditional _ condition thenBranch elseBranch =>
      .conditional () condition.skeleton thenBranch.skeleton elseBranch.skeleton
  | .loop _ condition body => .loop () condition.skeleton body.skeleton
  | .letIn _ name _ initializer body => .letIn () name "" initializer.skeleton body.skeleton
  | .typeCase _ scrutinee branches =>
      .typeCase () scrutinee.skeleton (Branch.skeletons branches)
  | .staticDispatch _ receiver _ method arguments =>
      .staticDispatch () receiver.skeleton "" method (Expression.skeletons arguments)
  | .dynamicDispatch _ receiver method arguments =>
      .dynamicDispatch () receiver.skeleton method (Expression.skeletons arguments)

def Branch.skeleton : Branch Context → Branch Unit
  | ⟨_, name, _, body⟩ => ⟨(), name, "", body.skeleton⟩

def Expression.skeletons : List (Expression Context) → List (Expression Unit)
  | [] => []
  | expression :: expressions => expression.skeleton :: Expression.skeletons expressions

def Branch.skeletons : List (Branch Context) → List (Branch Unit)
  | [] => []
  | branch :: branches => branch.skeleton :: Branch.skeletons branches

end

def Formal.skeleton (parameter : Formal Context) : Formal Unit :=
  ⟨(), parameter.name, ""⟩

def Feature.skeleton : Feature Context → Feature Unit
  | .attributeDecl declaration =>
      .attributeDecl ⟨(), declaration.name, "", declaration.initializer.skeleton⟩
  | .methodDecl declaration =>
      .methodDecl ⟨(), declaration.name, declaration.formals.map Formal.skeleton, "",
        declaration.body.skeleton⟩

def Class.skeleton (declaration : Class Context) : Class Unit :=
  ⟨(), declaration.name, "", declaration.features.map Feature.skeleton⟩

def Program.skeleton (whole : Program Context) : Program Unit :=
  ⟨(), whole.classes.map Class.skeleton⟩

/-- The skeleton of a tree. -/
def Node.skeleton : Node Context → Node Unit
  | .program whole => .program whole.skeleton
  | .classDecl declaration => .classDecl declaration.skeleton
  | .feature declaration => .feature declaration.skeleton
  | .formal parameter => .formal parameter.skeleton
  | .branch choice => .branch choice.skeleton
  | .expression term => .expression term.skeleton

def Occurrence.skeleton (occurrence : Occurrence Context) : Occurrence Unit :=
  ⟨occurrence.path, occurrence.node.skeleton⟩

theorem Expression.skeletons_eq_map (expressions : List (Expression Context)) :
    Expression.skeletons expressions = expressions.map Expression.skeleton := by
  induction expressions with
  | nil => rw [Expression.skeletons, List.map_nil]
  | cons expression rest ih => rw [Expression.skeletons, List.map_cons, ih]

theorem Branch.skeletons_eq_map (branches : List (Branch Context)) :
    Branch.skeletons branches = branches.map Branch.skeleton := by
  induction branches with
  | nil => rw [Branch.skeletons, List.map_nil]
  | cons branch rest ih => rw [Branch.skeletons, List.map_cons, ih]

/-- Members that are changed one by one keep their slots. -/
theorem inSlots_map {Image : Type} (slot : Nat → Slot) (change : Node Context → Node Image)
    (children : List (Node Context)) :
    inSlots slot (children.map change) =
      (inSlots slot children).map fun place => (place.1, change place.2) := by
  simp [inSlots, List.mapIdx_eq_zipIdx_map, List.zipIdx_map]

namespace Node

/-! ## The parts of a skeleton -/

@[simp]
theorem skeleton_program (whole : Program Context) :
    (program whole).skeleton = program whole.skeleton := rfl

@[simp]
theorem skeleton_classDecl (declaration : Class Context) :
    (classDecl declaration).skeleton = classDecl declaration.skeleton := rfl

@[simp]
theorem skeleton_feature (declaration : Feature Context) :
    (feature declaration).skeleton = feature declaration.skeleton := rfl

@[simp]
theorem skeleton_formal (parameter : Formal Context) :
    (formal parameter).skeleton = formal parameter.skeleton := rfl

@[simp]
theorem skeleton_branch (choice : Branch Context) :
    (branch choice).skeleton = branch choice.skeleton := rfl

@[simp]
theorem skeleton_expression (term : Expression Context) :
    (expression term).skeleton = expression term.skeleton := rfl

theorem head_skeleton (node : Node Context) : node.skeleton.head = node.head.displayed := by
  cases node with
  | feature declaration => cases declaration <;> rfl
  | branch choice =>
      cases choice
      rfl
  | expression term =>
      cases term <;> simp [Expression.skeleton, head, Expression.head, Head.displayed]
  | _ => rfl

/-- Taking skeletons leaves children in their slots. -/
theorem slots_skeleton (node : Node Context) :
    node.skeleton.slots = node.slots.map fun place => (place.1, place.2.skeleton) := by
  cases node with
  | program whole =>
      simp [Program.skeleton, slots, ← inSlots_map, Function.comp_def]
  | classDecl declaration =>
      simp [Class.skeleton, slots, ← inSlots_map, Function.comp_def]
  | feature declaration =>
      cases declaration <;> simp [Feature.skeleton, slots, ← inSlots_map, Function.comp_def]
  | formal parameter => rfl
  | branch choice =>
      cases choice
      rfl
  | expression term =>
      cases term <;>
        simp [Expression.skeleton, slots, Expression.slots, ← inSlots_map, Function.comp_def,
          Expression.skeletons_eq_map, Branch.skeletons_eq_map]

theorem children_skeleton (node : Node Context) :
    node.skeleton.children = node.children.map skeleton := by
  rw [children, children, slots_skeleton, List.map_map, List.map_map]
  rfl

/-- A node and its skeleton lack the same child. -/
theorem defect?_skeleton (node : Node Context) : node.skeleton.defect? = node.defect? := by
  cases node with
  | program whole =>
      obtain ⟨context, classes⟩ := whole
      cases classes <;> rfl
  | feature declaration => cases declaration <;> rfl
  | branch choice =>
      cases choice
      rfl
  | expression term =>
      cases term with
      | block context expressions =>
          cases expressions <;> simp [Expression.skeleton, Expression.skeletons, defect?]
      | typeCase context scrutinee branches =>
          cases branches <;> simp [Expression.skeleton, Branch.skeletons, defect?]
      | _ => simp [Expression.skeleton, defect?]
  | _ => rfl

/-! ## The nodes of a skeleton -/

theorem occurrencesFrom_skeleton {children : List (Node Context)}
    (each : ∀ child ∈ children,
      child.skeleton.occurrences = child.occurrences.map Occurrence.skeleton)
    (position : Nat) :
    occurrencesFrom position (children.map skeleton) =
      (occurrencesFrom position children).map Occurrence.skeleton := by
  induction children generalizing position with
  | nil => simp [occurrencesFrom]
  | cons child rest ih =>
      rw [List.map_cons, occurrencesFrom, occurrencesFrom, List.map_append, List.map_map,
        each child List.mem_cons_self, List.map_map,
        ih fun other member => each other (List.mem_cons_of_mem child member)]
      rfl

/-- A skeleton has the skeletons of the nodes at the same places. -/
theorem occurrences_skeleton (node : Node Context) :
    node.skeleton.occurrences = node.occurrences.map Occurrence.skeleton := by
  induction node using Node.induction with
  | step node ih =>
      rw [occurrences, occurrences, children_skeleton, occurrencesFrom_skeleton ih, List.map_cons]
      rfl

theorem size_skeleton (node : Node Context) : node.skeleton.size = node.size := by
  rw [← length_occurrences, occurrences_skeleton, List.length_map, length_occurrences]

end Node

end CoolTree
