import SvgTidy.Text.Blank

/-!
# Entities

A doctype may declare entities in its internal subset:

    <!ENTITY name "replacement">

with blanks where the pattern shows one, a name of any characters but blanks, and a replacement that
is not empty and is quoted either way. What does not have this form declares nothing and is passed
over. Of two declarations of a name the later one holds. Five names stand for a character from the
start.
-/

namespace SvgTidy.Markup

/-- Names and what they stand for. The first entry of a name holds. -/
abbrev EntityTable : Type :=
  List (List Char × List Char)

namespace EntityTable

/-- The names that need no declaration. -/
def predefined : EntityTable :=
  [("lt".toList, ['<']), ("gt".toList, ['>']), ("amp".toList, ['&']), ("apos".toList, ['\'']),
    ("quot".toList, ['"'])]

/-- What a name stands for; a declared meaning goes before a predefined one. -/
def resolve? (table : EntityTable) (name : List Char) : Option (List Char) :=
  (table ++ predefined).lookup name

/-- The declaration at the front of a text, and what follows it. -/
def declaration? (text : List Char) : Option ((List Char × List Char) × List Char) :=
  if "<!ENTITY".toList.isPrefixOf text then
    let gap := text.drop 8
    let named := gap.dropWhile Text.isBlank
    let gap' := named.dropWhile (!Text.isBlank ·)
    match gap'.dropWhile Text.isBlank with
    | [] => none
    | quote :: body =>
      let value := body.takeWhile (· != quote)
      match body.dropWhile (· != quote) with
      | [] => none
      | _ :: close =>
        match close.dropWhile Text.isBlank with
        | '>' :: rest =>
          if (quote = '"' ∨ quote = '\'') ∧ value ≠ [] ∧ gap.takeWhile Text.isBlank ≠ []
              ∧ gap'.takeWhile Text.isBlank ≠ [] then
            some ((named.takeWhile (!Text.isBlank ·), value), rest)
          else none
        | _ => none
  else none

theorem length_declaration?_lt {text rest : List Char} {entry : List Char × List Char}
    (h : declaration? text = some (entry, rest)) : rest.length < text.length := by
  have drop_le (p : Char → Bool) (l : List Char) : (l.dropWhile p).length ≤ l.length :=
    (List.dropWhile_suffix p).length_le
  unfold declaration? at h
  simp only at h
  split at h
  · split at h
    · simp at h
    · rename_i quote body hbody
      split at h
      · simp at h
      · rename_i close hclose
        split at h
        · rename_i tail htail
          split at h
          · cases h
            have h₁ := drop_le Text.isBlank close
            have h₂ := drop_le (· != quote) body
            have h₃ := drop_le Text.isBlank
              (((text.drop 8).dropWhile Text.isBlank).dropWhile (!Text.isBlank ·))
            have h₄ := drop_le (!Text.isBlank ·) ((text.drop 8).dropWhile Text.isBlank)
            have h₅ := drop_le Text.isBlank (text.drop 8)
            rw [htail] at h₁
            rw [hclose] at h₂
            rw [hbody] at h₃
            simp only [List.length_cons, List.length_drop] at h₁ h₂ h₃ h₄ h₅
            omega
          · simp at h
        · simp at h
  · simp at h

/-- All declarations of a text, in order. -/
def declarations (text : List Char) : List (List Char × List Char) :=
  match h : declaration? text with
  | some (entry, rest) =>
    have : rest.length < text.length := length_declaration?_lt h
    entry :: declarations rest
  | none =>
    match text with
    | [] => []
    | _ :: rest => declarations rest
termination_by text.length

/-- The entities that a doctype declares: those of its internal subset, the latest first. -/
def ofDoctype (body : List Char) : EntityTable :=
  (declarations (body.dropWhile (· != '['))).reverse

end EntityTable

end SvgTidy.Markup
