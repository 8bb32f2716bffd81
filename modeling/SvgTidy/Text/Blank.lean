import SvgTidy.Text.Ranges

/-!
# Blank characters and trimming

`isBlank` is the property `White_Space` of the Unicode character database, and `trim` takes such
characters off both ends of a text. Markup has a narrower notion of space of its own.
-/

namespace SvgTidy.Text

/-- Code points with the property `White_Space`. -/
def blankRanges : List (Nat × Nat) := [
    (0x9, 0xd), (0x20, 0x20), (0x85, 0x85), (0xa0, 0xa0), (0x1680, 0x1680), (0x2000, 0x200a),
    (0x2028, 0x2029), (0x202f, 0x202f), (0x205f, 0x205f), (0x3000, 0x3000)]

/-- A blank character. -/
def isBlank (c : Char) : Bool :=
  inRanges blankRanges c

/-- The text without the blank characters at its end. -/
def trimRight : List Char → List Char
  | [] => []
  | c :: rest =>
    match trimRight rest with
    | [] => if isBlank c then [] else [c]
    | kept => c :: kept

/-- The text without the blank characters at either end. -/
def trim (text : List Char) : List Char :=
  trimRight (text.dropWhile isBlank)

end SvgTidy.Text
