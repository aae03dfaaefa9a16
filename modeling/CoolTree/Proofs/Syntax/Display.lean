import CoolTree.Proofs.Syntax.Skeleton
import CoolTree.Proofs.Text.Escaping
import Mathlib.Logic.Function.Basic
import Std.Data.String.ToInt

/-!
# What the text of a node tells

The text of a node is the label of its kind, in which no blank occurs, and
behind a blank its payload.  It can be read back: equal texts belong to heads
that are displayed alike.  A payload is a literal or an identifier, and only an
identifier can bring a line feed into the text.
-/

namespace CoolTree

theorem Kind.blank_not_mem_label (kind : Kind) : ' ' ∉ kind.label.toList := by
  cases kind <;> decide

theorem Kind.lineFeed_not_mem_label (kind : Kind) : '\n' ∉ kind.label.toList := by
  cases kind <;> decide

namespace Head

/-! ## What is displayed -/

theorem kind_displayed (head : Head) : head.displayed.kind = head.kind := by
  cases head <;> rfl

theorem payload?_displayed (head : Head) : head.displayed.payload? = head.payload? := by
  cases head <;> rfl

/-- What is not displayed is not in the text. -/
theorem text_displayed (head : Head) : head.displayed.text = head.text := by
  rw [text, text, kind_displayed, payload?_displayed]

/-! ## Reading a head back -/

def integerText (value : Int32) : String :=
  value.toInt.repr

theorem integerText_injective : Function.Injective integerText := by
  intro left right heq
  exact Int32.toInt_inj.mp (Int.repr_injective heq)

/-- The head that is displayed with a kind and a payload. -/
noncomputable def ofDisplay (kind : Kind) (payload : String) : Head :=
  match kind with
  | .program => .program
  | .classDecl => .classDecl payload ""
  | .attributeDecl => .attributeDecl payload ""
  | .methodDecl => .methodDecl payload ""
  | .formal => .formal payload ""
  | .stringLiteral => .stringLiteral (Function.invFun Text.quoted payload)
  | .intLiteral => .intLiteral (Function.invFun integerText payload)
  | .boolLiteral => .boolLiteral (payload = "true")
  | .new => .new payload
  | .isVoid => .unary .isVoid
  | .branch => .branch payload ""
  | .assign => .assign payload
  | .block => .block
  | .conditional => .conditional
  | .loop => .loop
  | .complement => .unary .complement
  | .lessThan => .binary .lessThan
  | .equalTo => .binary .equalTo
  | .lessThanEqualTo => .binary .lessThanEqualTo
  | .plus => .binary .plus
  | .sub => .binary .sub
  | .mul => .binary .mul
  | .div => .binary .div
  | .not => .unary .not
  | .staticDispatch => .staticDispatch "" payload
  | .dynamicDispatch => .dynamicDispatch payload
  | .letIn => .letIn payload ""
  | .typeCase => .typeCase
  | .object => .object payload
  | .noExpr => .noExpr

/-- A head is read back from its kind and its payload as far as it is displayed. -/
theorem ofDisplay_payload (head : Head) :
    ofDisplay head.kind (head.payload?.getD "") = head.displayed := by
  cases head with
  | stringLiteral value =>
      exact congrArg stringLiteral (Function.leftInverse_invFun Text.quoted_injective value)
  | intLiteral value =>
      exact congrArg intLiteral (Function.leftInverse_invFun integerText_injective value)
  | boolLiteral value => cases value <;> rfl
  | unary operator => cases operator <;> rfl
  | binary operator => cases operator <;> rfl
  | _ => rfl

/-- What stands behind the label in the text of a head, when a blank ends the text. -/
def behindLabel (head : Head) : List Char :=
  match head.payload? with
  | some payload => payload.toList ++ [' ']
  | none => []

theorem toList_text (head : Head) :
    head.text.toList ++ [' '] = head.kind.label.toList ++ ' ' :: head.behindLabel := by
  rw [text, behindLabel]
  cases head.payload? <;> simp

/-- Equal texts are texts of heads that are displayed alike. -/
theorem text_eq_iff {left right : Head} :
    left.text = right.text ↔ left.displayed = right.displayed := by
  constructor
  · intro heq
    have hparts : left.kind.label.toList ++ ' ' :: left.behindLabel =
        right.kind.label.toList ++ ' ' :: right.behindLabel := by
      rw [← toList_text, ← toList_text, heq]
    obtain ⟨hlabel, hbehind⟩ := Text.eq_of_append_mark_eq left.kind.blank_not_mem_label
      right.kind.blank_not_mem_label hparts
    have hkind : left.kind = right.kind := Kind.label_injective (String.toList_inj.mp hlabel)
    have hpayload : left.payload?.getD "" = right.payload?.getD "" := by
      rw [behindLabel, behindLabel] at hbehind
      cases hleft : left.payload? <;> cases hright : right.payload? <;>
        simp_all [String.toList_inj]
    rw [← ofDisplay_payload left, ← ofDisplay_payload right, hkind, hpayload]
  · intro heq
    rw [← text_displayed left, ← text_displayed right, heq]

/-- The texts of some nodes tell what is displayed of them. -/
theorem displayed_eq_of_texts {Context Image : Type}
    {lefts : List (Node Context)} {rights : List (Node Image)}
    (heq : lefts.map Node.text = rights.map Node.text) :
    (lefts.map fun node => node.head.displayed) = rights.map fun node => node.head.displayed := by
  obtain ⟨read, hread⟩ := (Function.factorsThrough_iff displayed).mp fun _ _ => text_eq_iff.mp
  have hreads := congrArg (List.map read) heq
  simpa [hread, Node.text, Function.comp_def] using hreads

/-! ## Line feeds -/

def identifier? : Head → Option String
  | classDecl name _ => some name
  | attributeDecl name _ => some name
  | methodDecl name _ => some name
  | formal name _ => some name
  | branch name _ => some name
  | new typeName => some typeName
  | object name => some name
  | assign name => some name
  | letIn name _ => some name
  | staticDispatch _ method => some method
  | dynamicDispatch method => some method
  | program | stringLiteral _ | intLiteral _ | boolLiteral _ | noExpr | unary _ | binary _
  | block | conditional | loop | typeCase => none

theorem lineFeed_not_mem_integerText (value : Int32) : '\n' ∉ (integerText value).toList := by
  have hfeed : Char.isDigit '\n' = false := rfl
  rw [integerText, Int.repr_eq_if]
  split <;> simp [Text.not_mem_decimal hfeed]

/-- A literal brings no line feed into the text. -/
theorem lineFeed_not_mem_payload {head : Head}
    (hidentifier : ∀ identifier ∈ head.identifier?, '\n' ∉ identifier.toList) :
    ∀ payload ∈ head.payload?, '\n' ∉ payload.toList := by
  cases head with
  | stringLiteral value =>
      rintro _ ⟨⟩
      exact Text.lineFeed_not_mem_quoted value
  | intLiteral value =>
      rintro _ ⟨⟩
      exact lineFeed_not_mem_integerText value
  | boolLiteral value =>
      rintro _ ⟨⟩
      cases value <;> decide
  | _ => exact hidentifier

theorem lineFeed_not_mem_text {head : Head}
    (hidentifier : ∀ identifier ∈ head.identifier?, '\n' ∉ identifier.toList) :
    '\n' ∉ head.text.toList := by
  have hlabel := head.kind.lineFeed_not_mem_label
  have hpayload := lineFeed_not_mem_payload hidentifier
  rw [text]
  cases hshown : head.payload? with
  | none => exact hlabel
  | some payload => simp [hlabel, hpayload payload hshown]

end Head

end CoolTree
