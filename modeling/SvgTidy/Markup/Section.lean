import SvgTidy.Markup.Token

/-!
# Comments, CDATA sections, doctypes and processing instructions

The pieces of markup that run up to a closing mark of their own. A comment ends at its first pair of
hyphens, which a bracket has to follow. A doctype ends at the first bracket outside quotes and
outside its internal subset.
-/

namespace SvgTidy.Markup.Cursor

/-- Read a comment. The cursor stands after the opening hyphens. -/
def readComment (c : Cursor) : Reading Token :=
  match c.upTo "--" with
  | .error failure => .error failure
  | .ok (body, closing) =>
    match closing.rest with
    | [] => closing.truncated
    | '>' :: _ => .ok (.comment body, closing.skip 1)
    | _ :: _ => closing.refuse .malformedComment

theorem readComment_reaches {c d : Cursor} {t : Token} (h : c.readComment = .ok (t, d)) :
    c.Reaches d := by
  unfold readComment at h
  split at h
  · simp at h
  · rename_i hbody
    split at h
    · simp at h
    · cases h
      exact (upTo_reaches hbody).trans (.skip _ 1)
    · simp at h

/-- Read a CDATA section. The cursor stands after its opening mark. -/
def readCdata (c : Cursor) : Reading Token :=
  match c.upTo "]]>" with
  | .error failure => .error failure
  | .ok (body, done) => .ok (.cdata body, done)

theorem readCdata_reaches {c d : Cursor} {t : Token} (h : c.readCdata = .ok (t, d)) :
    c.Reaches d := by
  unfold readCdata at h
  split at h
  · simp at h
  · rename_i hbody
    cases h
    exact upTo_reaches hbody

/-- The text before the bracket that closes a doctype. `quote` is the quote that is open, if any,
and `depth` the number of square brackets that are. -/
def doctypeBody? : Option Char → Nat → List Char → Option (List Char)
  | _, _, [] => none
  | some quote, depth, c :: rest =>
    (doctypeBody? (if c = quote then none else some quote) depth rest).map (c :: ·)
  | none, depth, c :: rest =>
    if c = '>' ∧ depth = 0 then some []
    else if c = '"' ∨ c = '\'' then (doctypeBody? (some c) depth rest).map (c :: ·)
    else if c = '[' then (doctypeBody? none (depth + 1) rest).map (c :: ·)
    else if c = ']' then (doctypeBody? none (depth - 1) rest).map (c :: ·)
    else (doctypeBody? none depth rest).map (c :: ·)

/-- Whether a doctype begins here, in whatever case its keyword is written. -/
def looksAtDoctype (c : Cursor) : Bool :=
  (c.rest.take 8).map Char.toUpper == "!DOCTYPE".toList

/-- Read a doctype. The cursor stands after its keyword. -/
def readDoctype (c : Cursor) : Reading Token :=
  match doctypeBody? none 0 c.rest with
  | none => c.truncated
  | some body => .ok (.doctype body, c.skip (body.length + 1))

theorem readDoctype_reaches {c d : Cursor} {t : Token} (h : c.readDoctype = .ok (t, d)) :
    c.Reaches d := by
  unfold readDoctype at h
  split at h
  · simp at h
  · cases h
    exact .skip c _

/-- A character of an instruction's name: anything but space and the question mark. -/
def isInstructionNameChar (c : Char) : Bool :=
  !isSpace c && c != '?'

/-- Read a processing instruction. The cursor stands after the question mark. -/
def readInstruction (c : Cursor) : Reading Token :=
  let name := c.run isInstructionNameChar
  let named := c.skipRun isInstructionNameChar
  if named.rest = [] then named.truncated
  else if name = [] then named.refuse .namelessInstruction
  else
    match named.skipSpace.upTo "?>" with
    | .error failure => .error failure
    | .ok (body, done) => .ok (.instruction name body, done)

theorem readInstruction_reaches {c d : Cursor} {t : Token}
    (h : c.readInstruction = .ok (t, d)) : c.Reaches d := by
  unfold readInstruction at h
  simp only at h
  split at h
  · simp at h
  · split at h
    · simp at h
    · split at h
      · simp at h
      · rename_i hbody
        cases h
        exact ((Reaches.skipRun c _).trans (.skipSpace _)).trans (upTo_reaches hbody)

end SvgTidy.Markup.Cursor
