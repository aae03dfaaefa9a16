/-!
# Characters written by number

A character that cannot stand for itself is written as a backslash, the letter
`u` and its code point between braces, in lower-case hexadecimal without
leading zeros.
-/

namespace CoolTree.Text

def numberedCharacter (character : Char) : List Char :=
  ['\\', 'u', '\x7b'] ++ Nat.toDigits 16 character.toNat ++ ['\x7d']

end CoolTree.Text
