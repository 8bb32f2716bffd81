import SvgTidy.Text.Alphabetic
import SvgTidy.Text.Numeric

/-!
# Characters of markup

Which characters separate the parts of a tag and which make up a name. Space in markup is narrower
than `Text.isBlank`: the four characters below and no other. Beyond ASCII a name may begin with any
alphabetic character and go on with any alphabetic or numeric one.
-/

namespace SvgTidy.Markup

/-- Space between the parts of a piece of markup. -/
def isSpace (c : Char) : Bool :=
  c == ' ' || c == '\t' || c == '\r' || c == '\n'

/-- An ASCII character. -/
def isAscii (c : Char) : Bool :=
  c.toNat < 0x80

/-- A character that may begin a name. -/
def isNameStart (c : Char) : Bool :=
  c.isAlpha || c == '_' || c == ':' || (!isAscii c && Text.isWideAlphabetic c)

/-- A character that may go on in a name. -/
def isNameChar (c : Char) : Bool :=
  isNameStart c || c.isDigit || c == '-' || c == '.' || c == '\u00b7'
    || (!isAscii c && (Text.isWideAlphabetic c || Text.isWideNumeric c))

end SvgTidy.Markup
