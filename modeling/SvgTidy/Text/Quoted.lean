import SvgTidy.Text.Extender
import SvgTidy.Text.Invisible

/-!
# Quoted text

A text between double quotes in which every character can be told apart: the quote and the backslash
are marked by a backslash, the common controls have a letter, and what has no glyph of its own or
would join the character before it is given by its number.
-/

namespace SvgTidy.Text

/-- The number of a character between braces. -/
def escapeNumber (c : Char) : List Char :=
  "\\u\x7b".toList ++ Nat.toDigits 16 c.toNat ++ ['\x7d']

/-- A character as it stands in a quoted text. -/
def quoteChar (c : Char) : List Char :=
  match c with
  | '\x00' => ['\\', '0']
  | '\t' => ['\\', 't']
  | '\r' => ['\\', 'r']
  | '\n' => ['\\', 'n']
  | '\\' => ['\\', '\\']
  | '"' => ['\\', '"']
  | c => if isExtender c || isInvisible c then escapeNumber c else [c]

/-- A quoted text. -/
def quote (text : String) : String :=
  String.ofList ('"' :: text.toList.flatMap quoteChar ++ ['"'])

end SvgTidy.Text
