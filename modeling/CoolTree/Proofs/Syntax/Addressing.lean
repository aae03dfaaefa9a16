import CoolTree.Proofs.Syntax.Occurrence
import CoolTree.Proofs.Text.Separation
import Mathlib.Data.List.Nodup
import Std.Data.String.ToNat

/-!
# Addresses

The slots of a node are all different, and so are their texts: the name of a slot
ends at a blank, its number follows, and both together tell the slot.  Members of a
repeated sequence are numbered from zero in their order.  A descendant can
therefore be addressed by the texts of the slots on the way to it, and no two
descendants have the same address.
-/

namespace CoolTree

/-- The sequences of children that can have any number of members. -/
inductive Family where
  | classes
  | features
  | formals
  | expressions
  | branches
  | arguments
deriving DecidableEq, Inhabited

def Family.slot : Family → Nat → Slot
  | classes => .classDecl
  | features => .feature
  | formals => .formal
  | expressions => .expression
  | branches => .branch
  | arguments => .argument

namespace Slot

/-! ## Texts of slots -/

/-- The sequence whose members have slots like this one. -/
def family? : Slot → Option Family
  | classDecl _ => some .classes
  | feature _ => some .features
  | formal _ => some .formals
  | expression _ => some .expressions
  | branch _ => some .branches
  | argument _ => some .arguments
  | initializer | body | operand | value | condition | thenBranch | elseBranch | scrutinee
  | lhs | rhs | receiver => none

/-- The text of a slot without its number. -/
def name : Slot → String
  | classDecl _ => "class"
  | feature _ => "feature"
  | formal _ => "formal"
  | initializer => "init"
  | body => "body"
  | operand => "operand"
  | value => "value"
  | expression _ => "expr"
  | condition => "cond"
  | thenBranch => "then"
  | elseBranch => "else"
  | scrutinee => "scrutinee"
  | branch _ => "branch"
  | lhs => "lhs"
  | rhs => "rhs"
  | receiver => "receiver"
  | argument _ => "arg"

def number? : Slot → Option Nat
  | classDecl index | feature index | formal index | expression index | branch index
  | argument index => some index
  | initializer | body | operand | value | condition | thenBranch | elseBranch | scrutinee
  | lhs | rhs | receiver => none

def ofName (name : String) (number : Nat) : Slot :=
  match name with
  | "class" => .classDecl number
  | "feature" => .feature number
  | "formal" => .formal number
  | "init" => .initializer
  | "body" => .body
  | "operand" => .operand
  | "value" => .value
  | "expr" => .expression number
  | "cond" => .condition
  | "then" => .thenBranch
  | "else" => .elseBranch
  | "scrutinee" => .scrutinee
  | "branch" => .branch number
  | "lhs" => .lhs
  | "rhs" => .rhs
  | "receiver" => .receiver
  | _ => .argument number

theorem ofName_name (slot : Slot) : ofName slot.name (slot.number?.getD 0) = slot := by
  cases slot <;> rfl

theorem blank_not_mem_name (slot : Slot) : ' ' ∉ slot.name.toList := by
  cases slot <;> simp [name]

/-- What stands behind the name in the text of a slot, when a blank ends the text. -/
def behindName (slot : Slot) : List Char :=
  match slot.number? with
  | some index => index.repr.toList ++ [' ']
  | none => []

theorem toList_text (slot : Slot) :
    slot.text.toList ++ [' '] = slot.name.toList ++ ' ' :: slot.behindName := by
  cases slot <;> simp [text, name, behindName, number?]

theorem text_injective : Function.Injective text := by
  intro left right heq
  have hparts : left.name.toList ++ ' ' :: left.behindName =
      right.name.toList ++ ' ' :: right.behindName := by
    rw [← toList_text, ← toList_text, heq]
  obtain ⟨hname, hbehind⟩ := Text.eq_of_append_mark_eq left.blank_not_mem_name
    right.blank_not_mem_name hparts
  have hnumber : left.number? = right.number? := by
    rw [behindName, behindName] at hbehind
    cases hleft : left.number? <;> cases hright : right.number? <;> rw [hleft, hright] at hbehind
    case some.some index other =>
      have hindex := Nat.repr_injective (String.toList_inj.mp (List.append_cancel_right hbehind))
      rw [hindex]
    all_goals simp at hbehind ⊢
  rw [← ofName_name left, ← ofName_name right, String.toList_inj.mp hname, hnumber]

end Slot

variable {Context : Type}

/-! ## Repeated sequences -/

theorem map_fst_inSlots (slot : Nat → Slot) (children : List (Node Context)) :
    (inSlots slot children).map Prod.fst = (List.range children.length).map slot := by
  apply List.ext_getElem <;> simp [inSlots]

theorem family?_slot (family : Family) (index : Nat) : (family.slot index).family? = some family := by
  cases family <;> rfl

theorem Family.slot_injective (family : Family) : Function.Injective family.slot := by
  intro left right heq
  cases family <;> cases heq <;> rfl

/-- Of the slots of a repeated sequence, all belong to it and none to another one. -/
theorem filter_inSlots (family other : Family) (children : List (Node Context)) :
    (inSlots other.slot children).filter (fun place => place.1.family? = some family) =
      if other = family then inSlots other.slot children else [] := by
  have hfamily : ∀ place ∈ inSlots other.slot children, place.1.family? = some other := by
    intro place member
    have hslot := List.mem_map_of_mem (f := Prod.fst) member
    rw [map_fst_inSlots, List.mem_map] at hslot
    obtain ⟨index, -, hindex⟩ := hslot
    rw [← hindex, family?_slot]
  split
  next heq => exact List.filter_eq_self.mpr fun place member => by simp [hfamily place member, heq]
  next hne => exact List.filter_eq_nil_iff.mpr fun place member => by simp [hfamily place member, hne]

/-- The members of a repeated sequence of a node, in their order of declaration. -/
def Node.members : Node Context → Family → List (Node Context)
  | program whole, .classes => whole.classes.map .classDecl
  | classDecl declaration, .features => declaration.features.map .feature
  | feature (.methodDecl declaration), .formals => declaration.formals.map .formal
  | expression (.block _ expressions), .expressions => expressions.map .expression
  | expression (.typeCase _ _ branches), .branches => branches.map .branch
  | expression (.staticDispatch _ _ _ _ arguments), .arguments => arguments.map .expression
  | expression (.dynamicDispatch _ _ _ arguments), .arguments => arguments.map .expression
  | _, _ => []

theorem filter_fixed {slot : Slot} (hfixed : slot.family? = none) (family : Family)
    (child : Node Context) (places : List (Slot × Node Context)) :
    ((slot, child) :: places).filter (fun place => place.1.family? = some family) =
      places.filter fun place => place.1.family? = some family :=
  List.filter_cons_of_neg (by simp [hfixed])

/-- The members of a sequence are numbered from zero in their order. -/
theorem Node.filter_slots (node : Node Context) (family : Family) :
    (node.slots.filter fun place => place.1.family? = some family) =
      inSlots family.slot (node.members family) := by
  cases node with
  | program whole =>
      apply (filter_inSlots family .classes _).trans
      cases family <;> rfl
  | classDecl declaration =>
      apply (filter_inSlots family .features _).trans
      cases family <;> rfl
  | formal | branch => cases family <;> rfl
  | feature declaration =>
      cases declaration with
      | attributeDecl declaration => cases family <;> rfl
      | methodDecl declaration =>
          rw [slots, List.filter_append, filter_fixed rfl, List.filter_nil, List.append_nil]
          apply (filter_inSlots family .formals _).trans
          cases family <;> rfl
  | expression term =>
      cases term with
      | block =>
          apply (filter_inSlots family .expressions _).trans
          cases family <;> rfl
      | typeCase =>
          rw [slots, Expression.slots, filter_fixed rfl]
          apply (filter_inSlots family .branches _).trans
          cases family <;> rfl
      | staticDispatch | dynamicDispatch =>
          rw [slots, Expression.slots, filter_fixed rfl]
          apply (filter_inSlots family .arguments _).trans
          cases family <;> rfl
      | _ => cases family <;> rfl

/-! ## Slots of a node -/

theorem nodup_inSlots (family : Family) (children : List (Node Context)) :
    ((inSlots family.slot children).map Prod.fst).Nodup := by
  rw [map_fst_inSlots]
  exact List.nodup_range.map family.slot_injective

/-- A slot outside of a repeated sequence is none of the slots of the sequence. -/
theorem not_mem_inSlots {slot : Slot} (hfixed : slot.family? = none) (family : Family)
    (children : List (Node Context)) : slot ∉ (inSlots family.slot children).map Prod.fst := by
  rw [map_fst_inSlots, List.mem_map]
  rintro ⟨index, -, rfl⟩
  simp [family?_slot] at hfixed

theorem Node.nodup_slots (node : Node Context) : (node.slots.map Prod.fst).Nodup := by
  cases node with
  | program whole => exact nodup_inSlots .classes _
  | classDecl declaration => exact nodup_inSlots .features _
  | formal | branch => simp [slots]
  | feature declaration =>
      cases declaration with
      | attributeDecl declaration => simp [slots]
      | methodDecl declaration =>
          rw [slots, List.map_append, List.nodup_append]
          refine ⟨nodup_inSlots .formals _, by simp, ?_⟩
          rintro slot hformal _ hbody rfl
          obtain rfl := List.mem_singleton.mp hbody
          exact not_mem_inSlots rfl .formals _ hformal
  | expression term =>
      cases term with
      | block => exact nodup_inSlots .expressions _
      | typeCase =>
          exact List.nodup_cons.mpr ⟨not_mem_inSlots rfl .branches _, nodup_inSlots .branches _⟩
      | staticDispatch | dynamicDispatch =>
          exact List.nodup_cons.mpr ⟨not_mem_inSlots rfl .arguments _, nodup_inSlots .arguments _⟩
      | _ => simp [slots, Expression.slots]

/-- The text of its slot tells the position of a child. -/
theorem Node.position_eq_of_text_eq {node : Node Context} {left right : Nat}
    {first second : Slot × Node Context} (hfirst : node.slots[left]? = some first)
    (hsecond : node.slots[right]? = some second) (htext : first.1.text = second.1.text) :
    left = right := by
  have hslot := Slot.text_injective htext
  have hleft : (node.slots.map Prod.fst)[left]? = some first.1 := by
    rw [List.getElem?_map, hfirst, Option.map_some]
  have hright : (node.slots.map Prod.fst)[right]? = some first.1 := by
    rw [List.getElem?_map, hsecond, Option.map_some, hslot]
  obtain ⟨hlength, -⟩ := List.getElem?_eq_some_iff.mp hleft
  exact (List.getElem?_inj hlength node.nodup_slots).mp (hleft.trans hright.symm)

/-! ## Addresses of descendants -/

namespace Node

/-- The texts of the slots on the way along a path, if the path leads to a node. -/
def address? : List Nat → Node Context → Option (List String)
  | [], _ => some []
  | position :: path, node =>
      node.slots[position]?.bind fun place => (address? path place.2).map (place.1.text :: ·)

theorem address?_cons_eq_some_iff {position : Nat} {path : List Nat} {node : Node Context}
    {address : List String} :
    node.address? (position :: path) = some address ↔
      ∃ place inner, node.slots[position]? = some place ∧ place.2.address? path = some inner ∧
        address = place.1.text :: inner := by
  rw [address?, Option.bind_eq_some_iff]
  constructor
  · rintro ⟨place, hplace, hbelow⟩
    obtain ⟨inner, hinner, haddress⟩ := Option.map_eq_some_iff.mp hbelow
    exact ⟨place, inner, hplace, hinner, haddress.symm⟩
  · rintro ⟨place, inner, hplace, hinner, rfl⟩
    exact ⟨place, hplace, Option.map_eq_some_iff.mpr ⟨inner, hinner, rfl⟩⟩

theorem exists_address {path : List Nat} {node target : Node Context}
    (hpath : node.descendant? path = some target) :
    ∃ address, node.address? path = some address := by
  induction path generalizing node with
  | nil => exact ⟨[], rfl⟩
  | cons position path ih =>
      obtain ⟨child, hchild, hinner⟩ := Option.bind_eq_some_iff.mp hpath
      obtain ⟨slot, hslot⟩ := getElem?_children_eq_some_iff.mp hchild
      obtain ⟨inner, hinner⟩ := ih hinner
      exact ⟨_, address?_cons_eq_some_iff.mpr ⟨(slot, child), inner, hslot, hinner, rfl⟩⟩

/-- An address belongs to one path only. -/
theorem path_eq_of_address {left right : List Nat} {node : Node Context} {address : List String}
    (hleft : node.address? left = some address) (hright : node.address? right = some address) :
    left = right := by
  induction left generalizing node right address with
  | nil =>
      obtain rfl : [] = address := Option.some.inj hleft
      cases right with
      | nil => rfl
      | cons position path =>
          obtain ⟨place, inner, -, -, hnone⟩ := address?_cons_eq_some_iff.mp hright
          cases hnone
  | cons position path ih =>
      obtain ⟨place, inner, hplace, hinner, rfl⟩ := address?_cons_eq_some_iff.mp hleft
      cases right with
      | nil => cases hright
      | cons other rest =>
          obtain ⟨second, outer, hsecond, houter, heq⟩ := address?_cons_eq_some_iff.mp hright
          obtain ⟨htext, rfl⟩ := List.cons.inj heq
          obtain rfl := position_eq_of_text_eq hplace hsecond htext
          obtain rfl : place = second := Option.some.inj (hplace.symm.trans hsecond)
          rw [ih hinner houter]

end Node

end CoolTree
