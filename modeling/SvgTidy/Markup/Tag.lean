import SvgTidy.Markup.Token

/-!
# Tags

Start tags with their attributes, and end tags. Attributes follow the tag name and each other after
space; before the first one the space may be missing only where the name cannot go on. Each reader
comes with the statement that what it leaves is a later stretch of the text, which is why reading
attributes ends.
-/

namespace SvgTidy.Markup.Cursor

/-- Read a quoted value; the result is what stands between the quotes and where it begins. -/
def readQuoted (c : Cursor) : Reading (List Char × Position) :=
  match c.rest with
  | [] => c.truncated
  | quote :: _ =>
    if quote = '"' ∨ quote = '\'' then
      let inside := c.skip 1
      let closing := inside.skipRun (· != quote)
      match closing.rest with
      | [] => closing.truncated
      | _ :: _ => .ok ((inside.run (· != quote), inside.pos), closing.skip 1)
    else c.refuse .unquotedValue

theorem readQuoted_reaches {c d : Cursor} {r : List Char × Position}
    (h : c.readQuoted = .ok (r, d)) : c.Reaches d := by
  unfold readQuoted at h
  split at h
  · simp at h
  · split at h
    · simp only at h
      split at h
      · simp at h
      · cases h
        exact ((Reaches.skip c 1).trans (.skipRun _ _)).trans (.skip _ 1)
    · simp at h

/-- Read an attribute. The cursor stands at the beginning of its name. -/
def readAttribute (c : Cursor) : Reading RawAttribute :=
  let named := c.skipRun isNameChar
  let sign := named.skipSpace
  match sign.rest with
  | [] => sign.truncated
  | '=' :: _ =>
    match (sign.skip 1).skipSpace.readQuoted with
    | .error failure => .error failure
    | .ok ((value, pos), done) => .ok (⟨c.run isNameChar, value, pos⟩, done)
  | next :: _ =>
    if named.run isSpace ≠ [] ∨ next = '>' then sign.refuse .attributeWithoutValue
    else sign.refuse .badAttributeName

theorem readAttribute_reaches {c d : Cursor} {a : RawAttribute}
    (h : c.readAttribute = .ok (a, d)) : c.Reaches d ∧ d.rest.length < c.rest.length := by
  have toSign : c.Reaches (c.skipRun isNameChar).skipSpace :=
    (Reaches.skipRun c _).trans (.skipSpace _)
  unfold readAttribute at h
  simp only at h
  split at h
  · simp at h
  · rename_i hrest
    split at h
    · simp at h
    · rename_i hquoted
      cases h
      have fromSign := (Reaches.skipSpace _).trans (readQuoted_reaches hquoted)
      exact ⟨(toSign.trans (.skip _ 1)).trans fromSign,
        Nat.lt_of_le_of_lt fromSign.length_le
          (Nat.lt_of_lt_of_le (length_skip_lt Nat.one_pos (by simp [hrest])) toSign.length_le)⟩
  · split at h <;> simp at h

/-- Read the attributes of a start tag and its end. `fresh` says that no attribute was read yet; the
result tells whether the tag closes itself. -/
def readAttributes (fresh : Bool) (c : Cursor) : Reading (List RawAttribute × Bool) :=
  let next := c.skipSpace
  match next.rest with
  | [] => next.truncated
  | '>' :: _ => .ok (([], false), next.skip 1)
  | '/' :: _ =>
    let closing := next.skip 1
    match closing.rest with
    | [] => closing.truncated
    | '>' :: _ => .ok (([], true), closing.skip 1)
    | _ :: _ => closing.refuse .straySlash
  | first :: _ =>
    if isNameStart first then
      if c.run isSpace = [] ∧ fresh = false then next.refuse .unspacedAttributes
      else
        match h : next.readAttribute with
        | .error failure => .error failure
        | .ok (a, after) =>
          have : after.rest.length < c.rest.length :=
            Nat.lt_of_lt_of_le (readAttribute_reaches h).2 (Reaches.skipSpace c).length_le
          match readAttributes false after with
          | .error failure => .error failure
          | .ok ((more, selfClosing), done) => .ok ((a :: more, selfClosing), done)
    else next.refuse .badAttributeName
termination_by c.rest.length

theorem readAttributes_reaches {fresh : Bool} {c d : Cursor} {r : List RawAttribute × Bool}
    (h : c.readAttributes fresh = .ok (r, d)) : c.Reaches d := by
  fun_induction readAttributes fresh c generalizing r d with
  | case1 => simp at h
  | case2 =>
    cases h
    exact (Reaches.skipSpace _).trans (.skip _ 1)
  | case3 => simp at h
  | case4 =>
    cases h
    exact ((Reaches.skipSpace _).trans (.skip _ 1)).trans (.skip _ 1)
  | case5 => simp at h
  | case6 => simp at h
  | case7 => simp at h
  | case8 => simp at h
  | case9 =>
    rename_i hattr _ _ _ _ hmore ih
    cases h
    exact ((Reaches.skipSpace _).trans (readAttribute_reaches hattr).1).trans (ih hmore)
  | case10 => simp at h

/-- Read a start tag. The cursor stands at the beginning of its name. -/
def readStartTag (c : Cursor) : Reading Token :=
  let named := c.skipRun isNameChar
  match named.rest with
  | [] => named.truncated
  | next :: _ =>
    if isSpace next ∨ next = '>' ∨ next = '/' then
      match named.readAttributes true with
      | .error failure => .error failure
      | .ok ((attributes, selfClosing), done) =>
        .ok (.startTag (c.run isNameChar) attributes selfClosing, done)
    else named.refuse .badTagName

theorem readStartTag_reaches {c d : Cursor} {t : Token} (h : c.readStartTag = .ok (t, d)) :
    c.Reaches d := by
  unfold readStartTag at h
  simp only at h
  split at h
  · simp at h
  · split at h
    · split at h
      · simp at h
      · rename_i hattrs
        cases h
        exact (Reaches.skipRun c _).trans (readAttributes_reaches hattrs)
    · simp at h

/-- Read an end tag. The cursor stands after the slash. -/
def readEndTag (c : Cursor) : Reading Token :=
  match c.rest with
  | [] => c.truncated
  | first :: _ =>
    if isNameStart first then
      let closing := (c.skipRun isNameChar).skipSpace
      match closing.rest with
      | [] => closing.truncated
      | '>' :: _ => .ok (.endTag (c.run isNameChar), closing.skip 1)
      | _ :: _ => closing.refuse .junkInEndTag
    else c.refuse .badEndTagName

theorem readEndTag_reaches {c d : Cursor} {t : Token} (h : c.readEndTag = .ok (t, d)) :
    c.Reaches d := by
  unfold readEndTag at h
  split at h
  · simp at h
  · split at h
    · simp only at h
      split at h
      · simp at h
      · cases h
        exact ((Reaches.skipRun c _).trans (.skipSpace _)).trans (.skip _ 1)
      · simp at h
    · simp at h

end SvgTidy.Markup.Cursor
