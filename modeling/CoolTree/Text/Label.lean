import CoolTree.Text.CodePoint

/-!
# Escaped labels

The label of a graph statement is written in printable ASCII: tab, carriage
return and line feed by a backslash and a letter, both quotes and the backslash
behind a backslash, the other printable ASCII characters as they are, and every
other character by its number.
-/

namespace CoolTree.Text

def labelCharacter (character : Char) : List Char :=
  if character = '\t' then ['\\', 't']
  else if character = '\r' then ['\\', 'r']
  else if character = '\n' then ['\\', 'n']
  else if character = '\'' ∨ character = '"' ∨ character = '\\' then ['\\', character]
  else if 0x20 ≤ character.toNat ∧ character.toNat ≤ 0x7e then [character]
  else numberedCharacter character

def escapedLabel (text : String) : String :=
  String.ofList (text.toList.flatMap labelCharacter)

end CoolTree.Text
