/-!
# Positions in a text

A position is a line and a column, both counted from 1. A line feed starts a new line; every other
character, whatever its width on a screen, takes one column.
-/

namespace SvgTidy

/-- A line and a column, counted from 1. -/
structure Position where
  line : Nat
  column : Nat
  deriving DecidableEq, Repr, Inhabited

namespace Position

/-- The position of the first character of a text. -/
def start : Position := ⟨1, 1⟩

/-- The position after reading one character. -/
def step (pos : Position) (c : Char) : Position :=
  if c = '\n' then ⟨pos.line + 1, 1⟩ else ⟨pos.line, pos.column + 1⟩

/-- The position after reading a text. -/
def advance (pos : Position) (text : List Char) : Position :=
  text.foldl step pos

@[simp] theorem advance_nil (pos : Position) : pos.advance [] = pos := rfl

@[simp] theorem advance_cons (pos : Position) (c : Char) (text : List Char) :
    pos.advance (c :: text) = (pos.step c).advance text := rfl

@[simp] theorem advance_append (pos : Position) (s t : List Char) :
    pos.advance (s ++ t) = (pos.advance s).advance t := by
  simp [advance]

end Position

end SvgTidy
