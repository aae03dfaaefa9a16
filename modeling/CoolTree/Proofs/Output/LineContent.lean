import CoolTree.Proofs.Output.Dump
import CoolTree.Proofs.Syntax.Display
import CoolTree.Proofs.Text.Unquoting

/-!
# What a line says

The line of a node shows its kind and, for most kinds, one value: a literal or an
identifier.  Both are read back from the text.  The label ends at the first blank,
and the kind then tells how the payload is to be read.  A string literal is
unquoted, whatever it holds; a number and a truth value are read as such; and an
identifier stands there as it is.
-/

namespace CoolTree

/-- The value that a node shows beside its kind. -/
inductive Shown where
  | string (value : String)
  | integer (value : Int32)
  | boolean (value : Bool)
  | identifier (name : String)
deriving DecidableEq, Inhabited

def Shown.text : Shown → String
  | string value => Text.quoted value
  | integer value => value.toInt.repr
  | boolean value => if value then "true" else "false"
  | identifier name => name

namespace Head

def shown? : Head → Option Shown
  | stringLiteral value => some (.string value)
  | intLiteral value => some (.integer value)
  | boolLiteral value => some (.boolean value)
  | head => head.identifier?.map .identifier

/-- The payload is the text of the value that is shown. -/
theorem payload?_eq_shown? (head : Head) : head.payload? = head.shown?.map Shown.text := by
  cases head <;> rfl

end Head

def Node.shown? {Context : Type} (node : Node Context) : Option Shown :=
  node.head.shown?

/-! ## Reading a line -/

def Kind.readPayload? (kind : Kind) (payload : String) : Option Shown :=
  match kind with
  | .stringLiteral => (Text.unquoted? payload).map .string
  | .intLiteral => payload.toInt?.map fun value => .integer (Int32.ofInt value)
  | .boolLiteral => some (.boolean (payload = "true"))
  | _ => some (.identifier payload)

/-- The kind and the value that a text shows. -/
def readText? (text : String) : Option (Kind × Option Shown) :=
  let letters := text.toList
  let label := String.ofList (letters.takeWhile (· ≠ ' '))
  (Kind.ofLabel? label).bind fun kind =>
    match letters.dropWhile (· ≠ ' ') with
    | [] => some (kind, none)
    | _ :: payload =>
        (kind.readPayload? (String.ofList payload)).map fun shown => (kind, some shown)

namespace Head

theorem readPayload?_text {head : Head} {shown : Shown} (hshown : head.shown? = some shown) :
    head.kind.readPayload? shown.text = some shown := by
  cases head with
  | program | noExpr | unary | binary | block | conditional | loop | typeCase => cases hshown
  | stringLiteral value =>
      cases hshown
      exact congrArg (Option.map Shown.string) (Text.unquoted?_quoted value)
  | intLiteral value =>
      cases hshown
      rw [Shown.text, kind, Kind.readPayload?, Int.toInt?_repr, Option.map_some,
        Int32.ofInt_toInt]
  | boolLiteral value =>
      cases hshown
      cases value <;> rfl
  | _ =>
      cases hshown
      rfl

/-- The text of a head is read back as its kind and the value it shows. -/
theorem readText?_text (head : Head) : readText? head.text = some (head.kind, head.shown?) := by
  have hlabel : ∀ letter ∈ head.kind.label.toList, decide (letter ≠ ' ') = true := by
    intro letter member
    rw [decide_eq_true_iff]
    rintro rfl
    exact head.kind.blank_not_mem_label member
  rw [readText?, text, payload?_eq_shown?]
  cases hshown : head.shown? with
  | none =>
      rw [Option.map_none]
      dsimp only
      rw [List.takeWhile_eq_self_iff.mpr hlabel, List.dropWhile_eq_nil_iff.mpr hlabel,
        String.ofList_toList, Kind.ofLabel?_label, Option.bind_some]
  | some shown =>
      have hletters : (head.kind.label ++ " " ++ shown.text).toList =
          head.kind.label.toList ++ ' ' :: shown.text.toList := by simp
      rw [Option.map_some]
      dsimp only
      rw [hletters, List.takeWhile_append_of_pos hlabel, List.dropWhile_append_of_pos hlabel,
        List.takeWhile_cons_of_neg (by simp), List.dropWhile_cons_of_neg (by simp),
        List.append_nil, String.ofList_toList, Kind.ofLabel?_label, Option.bind_some]
      dsimp only
      rw [String.ofList_toList, readPayload?_text hshown, Option.map_some]

end Head

namespace Node

variable {Context Image : Type}

/-- The payload of a string literal can be read back, whatever the literal holds: it
begins and ends with a double quote, holds no control character, and every other
double quote in it stands behind an odd run of backslashes.  The content of a line
is the label of the kind with the payload, if there is one, behind a blank.  It can
be read back for every node, so it is the same for two nodes exactly when they are of
one kind and show the same value. -/
theorem text_tells_shown :
    (∀ (context : Context) (value : String), ∃ payload,
      (expression (.stringLiteral context value)).payload? = some payload ∧
        Text.unquoted? payload = some value ∧
        (∃ inner, payload.toList = '"' :: (inner ++ ['"'])) ∧
        (∀ letter ∈ payload.toList, ¬ Text.IsControl letter) ∧
        ∀ position, Text.IsBareQuote payload.toList position ↔
          position = 0 ∨ position + 1 = payload.toList.length) ∧
      (∀ node : Node Context, String.join (Printer.pieces node) = node.text ++ "\n" ∧
        readText? node.text = some (node.kind, node.shown?)) ∧
      ∀ (left : Node Context) (right : Node Image),
        left.text = right.text ↔ left.kind = right.kind ∧ left.shown? = right.shown? := by
  refine ⟨?_, ?_, ?_⟩
  · intro context value
    refine ⟨Text.quoted value, rfl, Text.unquoted?_quoted value, ?_, ?_, ?_⟩
    · exact ⟨value.toList.flatMap Text.quotedCharacter, String.toList_ofList⟩
    · exact fun _ => Text.not_isControl_of_mem_quoted
    · exact Text.isBareQuote_quoted value
  · exact fun node => ⟨Printer.join_pieces node, node.head.readText?_text⟩
  · intro left right
    constructor
    · intro heq
      have htext : left.head.text = right.head.text := heq
      have hread := left.head.readText?_text
      rw [htext, right.head.readText?_text] at hread
      obtain ⟨hkind, hshown⟩ := Prod.mk.inj (Option.some.inj hread)
      exact ⟨hkind.symm, hshown.symm⟩
    · rintro ⟨hkind, hshown⟩
      have hkinds : left.head.kind = right.head.kind := hkind
      have hpayload : left.head.payload? = right.head.payload? := by
        rw [Head.payload?_eq_shown?, Head.payload?_eq_shown?]
        exact congrArg (Option.map Shown.text) hshown
      rw [text, text, Head.text, Head.text, hkinds, hpayload]

end Node

end CoolTree
