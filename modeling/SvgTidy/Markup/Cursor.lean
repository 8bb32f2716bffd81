import SvgTidy.Markup.Name
import SvgTidy.Markup.Position

/-!
# A cursor in a text

A cursor is the part of a text still to be read, together with where it stands. All reading goes
through `Cursor.skip`, which takes characters from the front and moves the position over them; two
skips in a row are one (`skip_skip`), so whatever a sequence of steps has read is a stretch of the
text.
-/

namespace SvgTidy.Markup

/-- A place in a text. -/
structure Cursor where
  /-- What is still to be read. -/
  rest : List Char
  /-- The position of the first character of `rest`. -/
  pos : Position
  /-- The position of the character read last. -/
  last : Position
  deriving DecidableEq

namespace Cursor

/-- The beginning of a text. A leading byte order mark is passed over and takes no column. -/
def ofText (text : List Char) : Cursor :=
  { rest := match text with
      | '\uFEFF' :: rest => rest
      | rest => rest
    pos := .start
    last := .start }

/-- Read some characters. -/
def skip (n : Nat) (c : Cursor) : Cursor :=
  { rest := c.rest.drop n
    pos := c.pos.advance (c.rest.take n)
    last := if c.rest.take n = [] then c.last else c.pos.advance (c.rest.take n).dropLast }

/-- The position of the end of the text. -/
def endPos (c : Cursor) : Position :=
  c.pos.advance c.rest

/-- Whether the text goes on with a word. -/
def looksAt (c : Cursor) (word : String) : Bool :=
  word.toList.isPrefixOf c.rest

/-- The longest run of characters that pass a test. -/
def run (p : Char → Bool) (c : Cursor) : List Char :=
  c.rest.takeWhile p

/-- Read the longest run of characters that pass a test. -/
def skipRun (p : Char → Bool) (c : Cursor) : Cursor :=
  c.skip (c.run p).length

/-- Read the space that comes next, if any. -/
def skipSpace (c : Cursor) : Cursor :=
  c.skipRun isSpace

/-! ## Laws of reading -/

@[simp] theorem rest_skip (n : Nat) (c : Cursor) : (c.skip n).rest = c.rest.drop n := rfl

@[simp] theorem pos_skip (n : Nat) (c : Cursor) :
    (c.skip n).pos = c.pos.advance (c.rest.take n) := rfl

@[simp] theorem skip_zero (c : Cursor) : c.skip 0 = c := by
  simp [skip]

theorem skip_skip (m n : Nat) (c : Cursor) : (c.skip m).skip n = c.skip (m + n) := by
  have split : c.rest.take (m + n) = c.rest.take m ++ (c.rest.drop m).take n := List.take_add
  have last : (if (c.rest.drop m).take n = [] then (c.skip m).last
        else (c.skip m).pos.advance ((c.rest.drop m).take n).dropLast)
      = if c.rest.take (m + n) = [] then c.last
        else c.pos.advance (c.rest.take (m + n)).dropLast := by
    rw [split]
    by_cases hn : (c.rest.drop m).take n = []
    · simp [hn, skip]
    · rw [if_neg hn, if_neg (by simp [hn]), List.dropLast_append_of_ne_nil hn]
      simp
  simp only [skip, Cursor.mk.injEq] at last ⊢
  exact ⟨by simp, by rw [split]; simp, last⟩

/-- What one cursor becomes by reading on. -/
def Reaches (c d : Cursor) : Prop :=
  ∃ n, d = c.skip n

namespace Reaches

theorem refl (c : Cursor) : c.Reaches c :=
  ⟨0, by simp⟩

theorem skip (c : Cursor) (n : Nat) : c.Reaches (c.skip n) :=
  ⟨n, rfl⟩

theorem skipRun (c : Cursor) (p : Char → Bool) : c.Reaches (c.skipRun p) :=
  ⟨_, rfl⟩

theorem skipSpace (c : Cursor) : c.Reaches c.skipSpace :=
  ⟨_, rfl⟩

theorem trans {c d e : Cursor} (hcd : c.Reaches d) (hde : d.Reaches e) : c.Reaches e := by
  obtain ⟨m, rfl⟩ := hcd
  obtain ⟨n, rfl⟩ := hde
  exact ⟨m + n, skip_skip m n c⟩

theorem length_le {c d : Cursor} (h : c.Reaches d) : d.rest.length ≤ c.rest.length := by
  obtain ⟨n, rfl⟩ := h
  simp

end Reaches

/-- Reading something leaves less to read. -/
theorem length_skip_lt {c : Cursor} {n : Nat} (hn : 0 < n) (hc : c.rest ≠ []) :
    (c.skip n).rest.length < c.rest.length := by
  have := List.length_pos_iff.2 hc
  simp only [rest_skip, List.length_drop]
  omega

end Cursor

end SvgTidy.Markup
