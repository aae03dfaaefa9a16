import CoolTree.Proofs.Syntax.Assembling
import CoolTree.Proofs.Syntax.WellShaped
import Mathlib.Data.List.Basic

/-!
# Replacing a descendant

The descendant at a path can be replaced by another node.  Every node on the way
to it is assembled again from its context, its head and its children, of which
one is changed, so the replacement fails when the new node does not fit its
place.  A node of the same category always fits, and well-shaped trees stay so.
-/

namespace CoolTree

variable {Context : Type}

/-- Two nodes belong to the same part of the grammar. -/
inductive Node.SameCategory : Node Context → Node Context → Prop
  | program (left right : Program Context) : SameCategory (.program left) (.program right)
  | classDecl (left right : Class Context) : SameCategory (.classDecl left) (.classDecl right)
  | feature (left right : Feature Context) : SameCategory (.feature left) (.feature right)
  | formal (left right : Formal Context) : SameCategory (.formal left) (.formal right)
  | branch (left right : Branch Context) : SameCategory (.branch left) (.branch right)
  | expression (left right : Expression Context) :
      SameCategory (.expression left) (.expression right)

def Head.defect? : Head → Nat → Option Defect
  | program, count => if count = 0 then some .noClasses else none
  | block, count => if count = 0 then some .noExpressions else none
  | typeCase, count => if count = 1 then some .noBranches else none
  | _, _ => none

namespace Node

/-- The tree with another node in the place of the descendant at a path, if there
is one and the other node fits. -/
def replaceAt? : List Nat → Node Context → Node Context → Option (Node Context)
  | [], _, other => some other
  | position :: path, node, other => do
      let child ← node.children[position]?
      let changed ← replaceAt? path child other
      assemble? node.context node.head (node.children.set position changed)

/-- Below the root, a replacement changes one child and leaves the other parts of
the root alone. -/
theorem replaceAt?_cons_eq_some_iff {node other edited : Node Context} {position : Nat}
    {path : List Nat} :
    node.replaceAt? (position :: path) other = some edited ↔
      ∃ child changed, node.children[position]? = some child ∧
        child.replaceAt? path other = some changed ∧ edited.context = node.context ∧
        edited.head = node.head ∧ edited.children = node.children.set position changed := by
  simp only [replaceAt?, Option.bind_eq_bind, Option.bind_eq_some_iff, assemble?_eq_some_iff]
  constructor
  · rintro ⟨child, hchild, changed, hchanged, hparts⟩
    exact ⟨child, changed, hchild, hchanged, hparts⟩
  · rintro ⟨child, changed, hchild, hchanged, hparts⟩
    exact ⟨child, hchild, changed, hchanged, hparts⟩

/-! ## What fits -/

theorem SameCategory.exists_classDecl {declaration : Class Context} {other : Node Context}
    (same : SameCategory (.classDecl declaration) other) : ∃ new, other = .classDecl new := by
  cases same
  exact ⟨_, rfl⟩

theorem SameCategory.exists_feature {declaration : Feature Context} {other : Node Context}
    (same : SameCategory (.feature declaration) other) : ∃ new, other = .feature new := by
  cases same
  exact ⟨_, rfl⟩

theorem SameCategory.exists_formal {parameter : Formal Context} {other : Node Context}
    (same : SameCategory (.formal parameter) other) : ∃ new, other = .formal new := by
  cases same
  exact ⟨_, rfl⟩

theorem SameCategory.exists_branch {choice : Branch Context} {other : Node Context}
    (same : SameCategory (.branch choice) other) : ∃ new, other = .branch new := by
  cases same
  exact ⟨_, rfl⟩

theorem SameCategory.exists_expression {term : Expression Context} {other : Node Context}
    (same : SameCategory (.expression term) other) : ∃ new, other = .expression new := by
  cases same
  exact ⟨_, rfl⟩

/-- A member of wrapped parts is exchanged by exchanging the part. -/
theorem exists_set_map {Part : Type} (wrap : Part → Node Context) {other : Node Context}
    (hwrap : ∀ {part}, SameCategory (wrap part) other → ∃ new, other = wrap new)
    (parts : List Part) {position : Nat} {child : Node Context}
    (hchild : (parts.map wrap)[position]? = some child) (same : SameCategory child other) :
    ∃ news : List Part, news.length = parts.length ∧
      news.map wrap = (parts.map wrap).set position other := by
  rw [List.getElem?_map] at hchild
  obtain ⟨part, -, rfl⟩ := Option.map_eq_some_iff.mp hchild
  obtain ⟨new, rfl⟩ := hwrap same
  exact ⟨parts.set position new, List.length_set, List.map_set⟩

/-- A child of an expression can be exchanged for a node of its category. -/
theorem exists_set_slots {term : Expression Context} {child other : Node Context} {position : Nat}
    (hchild : (term.slots.map Prod.snd)[position]? = some child)
    (same : SameCategory child other) :
    ∃ edited : Expression Context, edited.context = term.context ∧ edited.head = term.head ∧
      edited.slots.map Prod.snd = (term.slots.map Prod.snd).set position other := by
  have hterms := @exists_set_map Context _ expression other SameCategory.exists_expression
  cases term with
  | stringLiteral | intLiteral | boolLiteral | new | object | noExpr =>
      simp [Expression.slots] at hchild
  | unary context operator operand =>
      obtain ⟨news, hlength, hnews⟩ := hterms [operand] hchild same
      obtain ⟨operand, rfl⟩ := List.length_eq_one_iff.mp hlength
      exact ⟨.unary context operator operand, rfl, rfl, hnews⟩
  | binary context operator lhs rhs =>
      obtain ⟨news, hlength, hnews⟩ := hterms [lhs, rhs] hchild same
      obtain ⟨lhs, rhs, rfl⟩ := List.length_eq_two.mp hlength
      exact ⟨.binary context operator lhs rhs, rfl, rfl, hnews⟩
  | assign context name value =>
      obtain ⟨news, hlength, hnews⟩ := hterms [value] hchild same
      obtain ⟨value, rfl⟩ := List.length_eq_one_iff.mp hlength
      exact ⟨.assign context name value, rfl, rfl, hnews⟩
  | block context expressions =>
      simp only [Expression.slots, map_snd_inSlots] at hchild ⊢
      obtain ⟨news, -, hnews⟩ := hterms expressions hchild same
      exact ⟨.block context news, rfl, rfl, by simp [hnews]⟩
  | conditional context condition thenBranch elseBranch =>
      obtain ⟨news, hlength, hnews⟩ :=
        hterms [condition, thenBranch, elseBranch] hchild same
      obtain ⟨condition, thenBranch, elseBranch, rfl⟩ := List.length_eq_three.mp hlength
      exact ⟨.conditional context condition thenBranch elseBranch, rfl, rfl, hnews⟩
  | loop context condition body =>
      obtain ⟨news, hlength, hnews⟩ := hterms [condition, body] hchild same
      obtain ⟨condition, body, rfl⟩ := List.length_eq_two.mp hlength
      exact ⟨.loop context condition body, rfl, rfl, hnews⟩
  | letIn context name typeName initializer body =>
      obtain ⟨news, hlength, hnews⟩ := hterms [initializer, body] hchild same
      obtain ⟨initializer, body, rfl⟩ := List.length_eq_two.mp hlength
      exact ⟨.letIn context name typeName initializer body, rfl, rfl, hnews⟩
  | typeCase context scrutinee branches =>
      simp only [Expression.slots, List.map_cons, map_snd_inSlots] at hchild ⊢
      cases position with
      | zero =>
          cases hchild
          obtain ⟨scrutinee, rfl⟩ := same.exists_expression
          exact ⟨.typeCase context scrutinee branches, rfl, rfl, by simp⟩
      | succ position =>
          obtain ⟨news, -, hnews⟩ := exists_set_map branch SameCategory.exists_branch _ hchild same
          exact ⟨.typeCase context scrutinee news, rfl, rfl, by simp [hnews]⟩
  | staticDispatch context receiver typeName method arguments =>
      simp only [Expression.slots, List.map_cons, map_snd_inSlots] at hchild ⊢
      obtain ⟨news, hlength, hnews⟩ := hterms (receiver :: arguments) hchild same
      obtain ⟨receiver, arguments, rfl⟩ := List.exists_cons_of_length_eq_add_one hlength
      exact ⟨.staticDispatch context receiver typeName method arguments, rfl, rfl,
        by simpa [Expression.slots] using hnews⟩
  | dynamicDispatch context receiver method arguments =>
      simp only [Expression.slots, List.map_cons, map_snd_inSlots] at hchild ⊢
      obtain ⟨news, hlength, hnews⟩ := hterms (receiver :: arguments) hchild same
      obtain ⟨receiver, arguments, rfl⟩ := List.exists_cons_of_length_eq_add_one hlength
      exact ⟨.dynamicDispatch context receiver method arguments, rfl, rfl,
        by simpa [Expression.slots] using hnews⟩

theorem children_methodDecl (declaration : Method Context) :
    (feature (.methodDecl declaration)).children =
      declaration.formals.map formal ++ [expression declaration.body] := by
  simp [children, slots]

/-- A child can be exchanged for a node of its category. -/
theorem exists_set_children {node child other : Node Context} {position : Nat}
    (hchild : node.children[position]? = some child) (same : SameCategory child other) :
    ∃ edited : Node Context, SameCategory node edited ∧ edited.context = node.context ∧
      edited.head = node.head ∧ edited.children = node.children.set position other := by
  cases node with
  | program whole =>
      simp only [children, slots, map_snd_inSlots] at hchild ⊢
      obtain ⟨news, -, hnews⟩ := exists_set_map classDecl SameCategory.exists_classDecl _ hchild same
      exact ⟨.program ⟨whole.context, news⟩, .program _ _, rfl, rfl, by simp [hnews]⟩
  | classDecl declaration =>
      simp only [children, slots, map_snd_inSlots] at hchild ⊢
      obtain ⟨news, -, hnews⟩ := exists_set_map feature SameCategory.exists_feature _ hchild same
      exact ⟨.classDecl { declaration with features := news }, .classDecl _ _, rfl, rfl,
        by simp [hnews]⟩
  | feature declaration =>
      cases declaration with
      | attributeDecl declaration =>
          obtain ⟨news, hlength, hnews⟩ := exists_set_map expression SameCategory.exists_expression
            [declaration.initializer] hchild same
          obtain ⟨initializer, rfl⟩ := List.length_eq_one_iff.mp hlength
          exact ⟨.feature (.attributeDecl { declaration with initializer }), .feature _ _, rfl, rfl,
            hnews⟩
      | methodDecl declaration =>
          rw [children_methodDecl] at hchild ⊢
          by_cases hformal : position < (declaration.formals.map formal).length
          · rw [List.getElem?_append_left hformal] at hchild
            obtain ⟨news, -, hnews⟩ := exists_set_map formal SameCategory.exists_formal _ hchild same
            refine ⟨.feature (.methodDecl { declaration with formals := news }), .feature _ _, rfl,
              rfl, ?_⟩
            rw [children_methodDecl, hnews, List.set_append_left position other hformal]
          · have hbody := Nat.le_of_not_lt hformal
            rw [List.getElem?_append_right hbody] at hchild
            obtain ⟨news, hlength, hnews⟩ := exists_set_map expression SameCategory.exists_expression
              [declaration.body] hchild same
            obtain ⟨body, rfl⟩ := List.length_eq_one_iff.mp hlength
            refine ⟨.feature (.methodDecl { declaration with body }), .feature _ _, rfl, rfl, ?_⟩
            rw [children_methodDecl, List.set_append_right position other hbody]
            exact congrArg _ hnews
  | formal parameter => simp [children, slots] at hchild
  | branch choice =>
      obtain ⟨news, hlength, hnews⟩ := exists_set_map expression SameCategory.exists_expression
        [choice.body] hchild same
      obtain ⟨body, rfl⟩ := List.length_eq_one_iff.mp hlength
      exact ⟨.branch { choice with body }, .branch _ _, rfl, rfl, hnews⟩
  | expression term =>
      obtain ⟨edited, hparts⟩ := exists_set_slots hchild same
      exact ⟨.expression edited, .expression _ _, hparts⟩

/-- A descendant can be replaced by every node of its category. -/
theorem exists_replaceAt? {root inner other : Node Context} {path : List Nat}
    (hinner : root.descendant? path = some inner) (same : SameCategory inner other) :
    ∃ edited, root.replaceAt? path other = some edited ∧ SameCategory root edited := by
  induction path generalizing root with
  | nil =>
      rw [descendant?] at hinner
      obtain rfl := Option.some.inj hinner
      exact ⟨other, rfl, same⟩
  | cons position path ih =>
      rw [descendant?] at hinner
      obtain ⟨child, hchild, hbelow⟩ := Option.bind_eq_some_iff.mp hinner
      obtain ⟨changed, hchanged, hbetween⟩ := ih hbelow
      obtain ⟨edited, hroot, hparts⟩ := exists_set_children hchild hbetween
      exact ⟨edited,
        replaceAt?_cons_eq_some_iff.mpr ⟨child, changed, hchild, hchanged, hparts⟩, hroot⟩

/-! ## What a replacement keeps -/

/-- Whether a node is malformed depends on its head and the number of its children. -/
theorem defect?_eq (node : Node Context) :
    node.defect? = node.head.defect? node.children.length := by
  cases node with
  | program whole =>
      obtain ⟨context, classes⟩ := whole
      cases classes <;> simp [defect?, head, Head.defect?, children, slots]
  | feature declaration => cases declaration <;> rfl
  | expression term =>
      cases term with
      | block context expressions =>
          cases expressions <;>
            simp [defect?, head, Expression.head, Head.defect?, children, slots, Expression.slots]
      | typeCase context scrutinee branches =>
          cases branches <;>
            simp [defect?, head, Expression.head, Head.defect?, children, slots, Expression.slots]
      | _ => rfl
  | _ => rfl

/-- A well-shaped tree stays so when a well-shaped one is put into it. -/
theorem WellShaped.of_replaceAt? {root other edited : Node Context} {path : List Nat}
    (shaped : root.WellShaped) (hother : other.WellShaped)
    (hedited : root.replaceAt? path other = some edited) : edited.WellShaped := by
  induction path generalizing root edited with
  | nil =>
      rw [replaceAt?] at hedited
      exact Option.some.inj hedited ▸ hother
  | cons position path ih =>
      obtain ⟨child, changed, hchild, hchanged, -, hhead, hchildren⟩ :=
        replaceAt?_cons_eq_some_iff.mp hedited
      obtain ⟨hdefect, heach⟩ := wellShaped_iff.mp shaped
      have hinside : changed.WellShaped :=
        ih (heach child (List.mem_of_getElem? hchild)) hchanged
      refine wellShaped_iff.mpr ⟨?_, ?_⟩
      · rw [defect?_eq, hhead, hchildren, List.length_set, ← defect?_eq, hdefect]
      · intro member hmember
        rw [hchildren] at hmember
        rcases List.mem_or_eq_of_mem_set hmember with hold | rfl
        · exact heach member hold
        · exact hinside

end Node

end CoolTree
