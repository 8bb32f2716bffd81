/-!
# Sets of characters given by ranges

A property of the Unicode character database is a list of ranges of code points, both ends included.
Membership looks through the list; every table of the library is a few hundred entries long and is
asked only about characters beyond ASCII.
-/

namespace SvgTidy.Text

/-- Whether a range of the table holds the character's code point. -/
def inRanges (table : List (Nat × Nat)) (c : Char) : Bool :=
  table.any fun range => range.1 ≤ c.toNat && c.toNat ≤ range.2

end SvgTidy.Text
