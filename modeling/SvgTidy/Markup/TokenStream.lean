import SvgTidy.Markup.Section
import SvgTidy.Markup.Tag

/-!
# The tokens of a text

`Cursor.readToken` reads the token at a cursor, and `tokenize` all tokens of a text up to its end or
to the first failure. Text runs up to the next bracket; every token takes at least one character,
which is why the stream ends.
-/

namespace SvgTidy.Markup

namespace Cursor

/-- Read a piece of markup. The cursor stands after the opening bracket. -/
def readMarkup (c : Cursor) : Reading Token :=
  if c.looksAt "!--" then (c.skip 3).readComment
  else if c.looksAt "![CDATA[" then (c.skip 8).readCdata
  else if c.looksAtDoctype then (c.skip 8).readDoctype
  else
    match c.rest with
    | [] => c.truncated
    | '!' :: _ => c.refuse .unknownDeclaration
    | '?' :: _ => (c.skip 1).readInstruction
    | '/' :: _ => (c.skip 1).readEndTag
    | first :: _ => if isNameStart first then c.readStartTag else c.refuse .strayBracket

theorem readMarkup_reaches {c d : Cursor} {t : Token} (h : c.readMarkup = .ok (t, d)) :
    c.Reaches d := by
  unfold readMarkup at h
  split at h
  · exact (Reaches.skip c 3).trans (readComment_reaches h)
  · split at h
    · exact (Reaches.skip c 8).trans (readCdata_reaches h)
    · split at h
      · exact (Reaches.skip c 8).trans (readDoctype_reaches h)
      · split at h
        · simp at h
        · simp at h
        · exact (Reaches.skip c 1).trans (readInstruction_reaches h)
        · exact (Reaches.skip c 1).trans (readEndTag_reaches h)
        · split at h
          · exact readStartTag_reaches h
          · simp at h

/-- Read the token at a cursor that is not at the end of the text. -/
def readToken (c : Cursor) : Reading Token :=
  match c.rest with
  | '<' :: _ => (c.skip 1).readMarkup
  | _ => .ok (.text (c.run (· != '<')), c.skipRun (· != '<'))

theorem readToken_reaches {c d : Cursor} {t : Token} (h : c.readToken = .ok (t, d)) :
    c.Reaches d := by
  unfold readToken at h
  split at h
  · exact (Reaches.skip c 1).trans (readMarkup_reaches h)
  · cases h
    exact .skipRun c _

/-- A token takes at least one character. -/
theorem length_readToken_lt {c d : Cursor} {t : Token} (hc : c.rest ≠ [])
    (h : c.readToken = .ok (t, d)) : d.rest.length < c.rest.length := by
  unfold readToken at h
  split at h
  · exact Nat.lt_of_le_of_lt (readMarkup_reaches h).length_le (length_skip_lt Nat.one_pos hc)
  · rename_i hbracket
    cases h
    refine length_skip_lt ?_ hc
    obtain ⟨first, rest, hrest⟩ := List.exists_cons_of_ne_nil hc
    have : first ≠ '<' := fun hfirst => hbracket rest (by rw [hrest, hfirst])
    simp [run, hrest, this]

/-- The tokens from a cursor on, and the failure that ended them if they do not reach the end. -/
def tokens (c : Cursor) : List PlacedToken × Option Failure :=
  if hc : c.rest = [] then ([], none)
  else
    match h : c.readToken with
    | .error failure => ([], some failure)
    | .ok (token, next) =>
      have : next.rest.length < c.rest.length := length_readToken_lt hc h
      let (more, failure) := tokens next
      (⟨token, c.pos, next.last⟩ :: more, failure)
termination_by c.rest.length

end Cursor

/-- The tokens of a text, and the failure that ended them if there is one. -/
def tokenize (text : List Char) : List PlacedToken × Option Failure :=
  (Cursor.ofText text).tokens

end SvgTidy.Markup
