import CoolTree.Text.CodePoint
import CoolTree.Text.NonPrinting

/-!
# Quoted text

Text is quoted so that it fits on one line and is read back without doubt: it
stands between double quotes; null, tab, carriage return, line feed, the double
quote and the backslash are written by a backslash and one character; a
character without a glyph of its own is written by its number; every other
character stands for itself.  Each character is treated alone, wherever it
stands.
-/

namespace CoolTree.Text

def quotedCharacter (character : Char) : List Char :=
  if character = '\x00' then ['\\', '0']
  else if character = '\t' then ['\\', 't']
  else if character = '\r' then ['\\', 'r']
  else if character = '\n' then ['\\', 'n']
  else if character = '"' then ['\\', '"']
  else if character = '\\' then ['\\', '\\']
  else if isNonPrinting character then numberedCharacter character
  else [character]

def quoted (text : String) : String :=
  String.ofList ('"' :: text.toList.flatMap quotedCharacter ++ ['"'])

end CoolTree.Text
