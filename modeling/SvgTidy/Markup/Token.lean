import SvgTidy.Markup.Cursor
import SvgTidy.Markup.Fault

/-!
# Tokens

The pieces of markup. A token keeps the characters it was written with: references are not replaced
and nothing is trimmed. Reading a token either gives it and the cursor after it, or fails; a failure
is faulty markup or the end of the text in the middle of a piece, and the latter is no fault of its
own.
-/

namespace SvgTidy.Markup

/-- An attribute as written. -/
structure RawAttribute where
  name : List Char
  /-- The characters between the quotes. -/
  value : List Char
  /-- The position right after the opening quote. -/
  pos : Position
  deriving DecidableEq, Repr

/-- A piece of markup, or the text between two. -/
inductive Token where
  | text (raw : List Char)
  | startTag (name : List Char) (attributes : List RawAttribute) (selfClosing : Bool)
  | endTag (name : List Char)
  | comment (body : List Char)
  | cdata (body : List Char)
  | instruction (name body : List Char)
  | doctype (body : List Char)
  deriving DecidableEq, Repr

/-- A token and where it stands. -/
structure PlacedToken where
  token : Token
  /-- The position of the first character. -/
  start : Position
  /-- The position of the last character. -/
  stop : Position
  deriving DecidableEq, Repr

/-- Why no token was read. -/
inductive Failure where
  /-- The markup is faulty from `pos` on. -/
  | faulty (fault : Fault) (pos : Position)
  /-- The text ends at `pos` inside a piece of markup. -/
  | endOfText (pos : Position)
  deriving DecidableEq, Repr

/-- The outcome of reading something at a cursor. -/
abbrev Reading (α : Type) : Type :=
  Except Failure (α × Cursor)

namespace Cursor

/-- Fail because the markup is faulty here. -/
def refuse {α : Type} (c : Cursor) (fault : Fault) : Reading α :=
  .error (.faulty fault c.pos)

/-- Fail because the text ends too early. -/
def truncated {α : Type} (c : Cursor) : Reading α :=
  .error (.endOfText c.endPos)

@[simp] theorem refuse_ne_ok {α : Type} (c : Cursor) (fault : Fault) (r : α × Cursor) :
    c.refuse fault ≠ .ok r := nofun

@[simp] theorem truncated_ne_ok {α : Type} (c : Cursor) (r : α × Cursor) :
    c.truncated ≠ .ok r := nofun

/-- The text before the first occurrence of a word. -/
def before? (word : List Char) : List Char → Option (List Char)
  | [] => none
  | c :: rest => if word.isPrefixOf (c :: rest) then some [] else (before? word rest).map (c :: ·)

/-- Read up to and including a word; the result is what stands before it. -/
def upTo (word : String) (c : Cursor) : Reading (List Char) :=
  match before? word.toList c.rest with
  | some body => .ok (body, c.skip (body.length + word.length))
  | none => c.truncated

theorem upTo_reaches {word : String} {c d : Cursor} {body : List Char}
    (h : c.upTo word = .ok (body, d)) : c.Reaches d := by
  unfold upTo at h
  split at h
  · cases h
    exact .skip c _
  · simp at h

end Cursor

end SvgTidy.Markup
