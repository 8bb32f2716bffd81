import SvgTidy.Markup.Layout
import SvgTidy.Proofs.LegibleTokens

/-!
# Spelled tokens are read again

What a layout writes for a legible payload is read as the token it stands for, whatever follows.
`Cursor.Reads` leaves positions open: where a token stands has no part in it.

Principal results: `reads_comment`, `reads_cdata`, `reads_doctype`, `reads_instruction`,
`reads_startTag`, `reads_endTag`, `reads_text` — one for each kind of token.
-/

namespace SvgTidy.Markup

/-- Wherever a text stands, a token of this kind is read from its front and this is left. -/
def Reads (text : List Char) (token : Token → Prop) (rest : List Char) : Prop :=
  ∀ c : Cursor, c.rest = text →
    ∃ t d, c.readToken = .ok (t, d) ∧ token t ∧ d.rest = rest

namespace Cursor

variable {c : Cursor} {rest : List Char}

theorem looksAt_eq {word : String} {front tail : List Char} (hc : c.rest = front ++ tail)
    (hlength : word.toList.length ≤ front.length) :
    c.looksAt word = word.toList.isPrefixOf front := by
  rw [looksAt, hc, Bool.eq_iff_iff, List.isPrefixOf_iff_prefix, List.isPrefixOf_iff_prefix]
  exact ⟨fun h => List.prefix_of_prefix_length_le h (List.prefix_append _ _) hlength,
    fun h => h.trans (List.prefix_append _ _)⟩

theorem upTo_of_closed (word : String) {body : List Char} (hword : word.toList ≠ [])
    (hbody : Closed word.toList body) (hc : c.rest = body ++ (word.toList ++ rest)) :
    ∃ d, c.upTo word = .ok (body, d) ∧ d.rest = rest := by
  have hbefore := (before?_append word.toList hword rest body).mpr hbody
  refine ⟨_, by rw [upTo, hc, hbefore], ?_⟩
  rw [rest_skip, hc, ← List.append_assoc, ← String.length_toList, ← List.length_append,
    List.drop_left]

/-- A run takes the characters up to one that stops it. -/
theorem skipRun_of_stop {p : Char → Bool} {front : List Char} (hc : c.rest = front ++ rest)
    (hfront : ∀ x ∈ front, p x = true) (hstop : ∀ x, rest.head? = some x → p x = false) :
    c.run p = front ∧ (c.skipRun p).rest = rest := by
  rw [run, rest_skipRun, hc]
  exact ⟨takeWhile_append_stop hfront hstop, dropWhile_append_stop hfront hstop⟩

theorem rest_skipSpace (space : Space) (hc : c.rest = space.chars ++ rest)
    (hrest : ∀ x, rest.head? = some x → isSpace x = false) : c.skipSpace.rest = rest :=
  (skipRun_of_stop hc space.isSpace hrest).2

/-! ## Sections -/

theorem readMarkup_of_bang {word : String} {tail : List Char} (hc : c.rest = word.toList ++ tail) :
    (word = "!--" → c.readMarkup = (c.skip 3).readComment) ∧
      (word = "![CDATA[" → c.readMarkup = (c.skip 8).readCdata) ∧
      (word = "!DOCTYPE" → c.readMarkup = (c.skip 8).readDoctype) := by
  refine ⟨?_, ?_, ?_⟩
  · rintro rfl
    have h : c.looksAt "!--" = true := by
      rw [looksAt_eq hc (by decide)]
      decide
    rw [readMarkup, if_pos h]
  · rintro rfl
    have h₁ : c.looksAt "!--" = false := by
      rw [looksAt_eq hc (by decide)]
      decide
    have h₂ : c.looksAt "![CDATA[" = true := by
      rw [looksAt_eq hc (by decide)]
      decide
    rw [readMarkup, h₁, if_neg (by decide), if_pos h₂]
  · rintro rfl
    have h₁ : c.looksAt "!--" = false := by
      rw [looksAt_eq hc (by decide)]
      decide
    have h₂ : c.looksAt "![CDATA[" = false := by
      rw [looksAt_eq hc (by decide)]
      decide
    have h₃ : c.looksAtDoctype = true := by
      rw [looksAtDoctype, hc, List.take_left' (by decide)]
      decide
    rw [readMarkup, h₁, if_neg (by decide), h₂, if_neg (by decide), if_pos h₃]

end Cursor

open Cursor

variable {rest : List Char}

theorem readToken_bracket {c : Cursor} (tail : List Char) (hc : c.rest = '<' :: tail) :
    c.readToken = (c.skip 1).readMarkup ∧ (c.skip 1).rest = tail := by
  refine ⟨?_, by rw [rest_skip, hc, List.drop_one, List.tail_cons]⟩
  unfold readToken
  split
  · rfl
  · rename_i hno
    exact absurd hc (hno tail)

theorem reads_comment {body : List Char} (hbody : Closed "--".toList body) :
    Reads ("<!--".toList ++ body ++ "-->".toList ++ rest) (· = .comment body) rest := by
  intro c hc
  obtain ⟨htoken, hinside⟩ := readToken_bracket (c := c)
    ("!--".toList ++ (body ++ ("--".toList ++ '>' :: rest))) (by simp [hc])
  have hmarkup := (readMarkup_of_bang hinside).1 rfl
  obtain ⟨d, hd, hrest⟩ := upTo_of_closed (c := (c.skip 1).skip 3) "--" (by decide) hbody
    (by rw [rest_skip, hinside]; exact List.drop_left' rfl)
  refine ⟨_, d.skip 1, ?_, rfl, by rw [rest_skip, hrest]; rfl⟩
  rw [htoken, hmarkup, readComment, hd]
  simp only [hrest]

theorem reads_cdata {body : List Char} (hbody : Closed "]]>".toList body) :
    Reads ("<![CDATA[".toList ++ body ++ "]]>".toList ++ rest) (· = .cdata body) rest := by
  intro c hc
  obtain ⟨htoken, hinside⟩ := readToken_bracket (c := c)
    ("![CDATA[".toList ++ (body ++ ("]]>".toList ++ rest))) (by simp [hc])
  have hmarkup := (readMarkup_of_bang hinside).2.1 rfl
  obtain ⟨d, hd, hrest⟩ := upTo_of_closed (c := (c.skip 1).skip 8) "]]>" (by decide) hbody
    (by rw [rest_skip, hinside]; exact List.drop_left' rfl)
  refine ⟨_, d, ?_, rfl, hrest⟩
  rw [htoken, hmarkup, readCdata, hd]

theorem reads_doctype {body : List Char} (hbody : DoctypeClosed body) :
    Reads ("<!DOCTYPE".toList ++ body ++ ['>'] ++ rest) (· = .doctype body) rest := by
  intro c hc
  obtain ⟨htoken, hinside⟩ := readToken_bracket (c := c)
    ("!DOCTYPE".toList ++ (body ++ '>' :: rest)) (by simp [hc])
  have hmarkup := (readMarkup_of_bang hinside).2.2 rfl
  have hbehind : ((c.skip 1).skip 8).rest = body ++ '>' :: rest := by
    rw [rest_skip, hinside]
    exact List.drop_left' rfl
  refine ⟨_, ((c.skip 1).skip 8).skip (body.length + 1), ?_, rfl, ?_⟩
  · rw [htoken, hmarkup, readDoctype, hbehind, (doctypeBody?_append rest body none 0).mpr hbody]
  · rw [rest_skip, hbehind, show body ++ '>' :: rest = (body ++ ['>']) ++ rest by simp]
    exact List.drop_left' (by simp)

theorem toUpper_eq_bang {c : Char} (h : c.toUpper = '!') : c = '!' := by
  unfold Char.toUpper at h
  split at h
  · rename_i hrange
    have hval := congrArg (fun c : Char => c.val.toNat) h
    simp [UInt32.le_iff_toNat_le, UInt32.toNat_add] at hval hrange
    omega
  · exact h

/-- A character that begins markup of its own kind does not begin a section. -/
theorem readMarkup_of_first {c : Cursor} {first : Char} {tail : List Char}
    (hc : c.rest = first :: tail) (hfirst : first ≠ '!') :
    c.readMarkup =
      if first = '?' then (c.skip 1).readInstruction
      else if first = '/' then (c.skip 1).readEndTag
      else if isNameStart first then c.readStartTag else c.refuse .strayBracket := by
  have hlooks (word : String) {others : List Char} (hword : word.toList = '!' :: others) :
      c.looksAt word = false := by
    rw [looksAt, hc, hword, List.isPrefixOf_cons_cons]
    simp [Ne.symm hfirst]
  have hdoctype : c.looksAtDoctype = false := by
    rw [looksAtDoctype, hc]
    simp [mt toUpper_eq_bang hfirst]
  rw [readMarkup, hlooks "!--" rfl, hlooks "![CDATA[" rfl, hdoctype]
  simp only [Bool.false_eq_true, if_false, hc]
  split
  · contradiction
  · rename_i heq
    cases heq
    exact absurd rfl hfirst
  · rename_i heq
    cases heq
    rw [if_pos rfl]
  · rename_i heq
    cases heq
    rw [if_neg (by decide), if_pos rfl]
  · rename_i _ hquestion hslash heq
    cases heq
    rw [if_neg hquestion, if_neg hslash]

theorem reads_instruction {name body : List Char} (gap : Space) (hgap : body ≠ [] → gap.chars ≠ [])
    (hname : name ≠ []) (hchars : ∀ c ∈ name, isInstructionNameChar c = true)
    (hspace : ∀ c, body.head? = some c → isSpace c = false) (hbody : Closed "?>".toList body) :
    Reads ("<?".toList ++ name ++ gap.chars ++ body ++ "?>".toList ++ rest)
      (· = .instruction name body) rest := by
  intro c hc
  obtain ⟨htoken, hinside⟩ := readToken_bracket (c := c)
    ('?' :: (name ++ (gap.chars ++ (body ++ ("?>".toList ++ rest))))) (by simp [hc])
  have hmarkup := readMarkup_of_first hinside (by decide)
  have hnamed : ((c.skip 1).skip 1).rest =
      name ++ (gap.chars ++ (body ++ ("?>".toList ++ rest))) := by
    rw [rest_skip, hinside]
    rfl
  -- what stands between name and body ends the name, and only it is skipped before the body
  have hstop : ∀ x, (gap.chars ++ (body ++ ("?>".toList ++ rest))).head? = some x →
      isInstructionNameChar x = false := by
    intro x hx
    cases hempty : gap.chars with
    | nil =>
      obtain rfl : body = [] := by_contra fun hne => hgap hne hempty
      rw [hempty] at hx
      cases hx
      decide
    | cons y others =>
      rw [hempty] at hx
      cases hx
      simp [isInstructionNameChar, gap.isSpace x (by simp [hempty])]
  have hbodyFirst : ∀ x, (body ++ ("?>".toList ++ rest)).head? = some x → isSpace x = false := by
    intro x hx
    cases body with
    | nil =>
      cases hx
      decide
    | cons y body => exact hspace x hx
  obtain ⟨hrun, hafter⟩ := skipRun_of_stop hnamed hchars hstop
  obtain ⟨d, hd, hrest⟩ :=
    upTo_of_closed (c := (((c.skip 1).skip 1).skipRun isInstructionNameChar).skipSpace)
      "?>" (by decide) hbody (rest_skipSpace gap hafter hbodyFirst)
  refine ⟨_, d, ?_, rfl, hrest⟩
  rw [htoken, hmarkup, if_pos rfl, readInstruction, hrun]
  simp only [hafter, hd]
  rw [if_neg (by simp), if_neg hname]

/-! ## Tags -/

/-- The end of a start tag. -/
def tagClosing (selfClosing : Bool) : List Char :=
  if selfClosing then "/>".toList else ['>']

/-- An attribute and the space around its parts. -/
structure AttributeText where
  before : Separator
  name : List Char
  afterName : Space
  beforeValue : Space
  value : Literal

/-- A start tag and the space before its end. -/
structure StartTagText where
  name : List Char
  attributes : List AttributeText
  after : Space
  selfClosing : Bool

/-- An end tag and the space before its end. -/
structure EndTagText where
  name : List Char
  after : Space

def AttributeText.chars (a : AttributeText) : List Char :=
  a.before.chars ++ (a.name ++ (a.afterName.chars ++ '=' :: (a.beforeValue.chars ++ a.value.chars)))

def StartTagText.chars (t : StartTagText) : List Char :=
  '<' :: (t.name ++
    (t.attributes.flatMap AttributeText.chars ++ (t.after.chars ++ tagClosing t.selfClosing)))

def EndTagText.chars (t : EndTagText) : List Char :=
  "</".toList ++ (t.name ++ (t.after.chars ++ ['>']))

/-- What a written attribute stands for, as far as it does not depend on where it stands. -/
def RawAttribute.spelling (a : RawAttribute) : List Char × List Char :=
  (a.name, a.value)

def AttributeText.spelling (a : AttributeText) : List Char × List Char :=
  (a.name, a.value.value)

theorem isSpace_of_isNameStart {c : Char} (h : isNameStart c = true) : isSpace c = false := by
  rw [← Bool.not_eq_true]
  intro hspace
  simp only [isSpace, Bool.or_eq_true, beq_iff_eq] at hspace
  rcases hspace with ((rfl | rfl) | rfl) | rfl <;> exact absurd h (by decide)

theorem isNameChar_of_isSpace {c : Char} (h : isSpace c = true) : isNameChar c = false := by
  simp only [isSpace, Bool.or_eq_true, beq_iff_eq] at h
  rcases h with ((rfl | rfl) | rfl) | rfl <;> decide

/-- A name ends where space follows, or something else than a name. -/
theorem isNameChar_of_space (space : Space) {first : Char}
    (hfirst : space.chars = [] → isNameChar first = false) (tail : List Char) (x : Char)
    (hx : (space.chars ++ first :: tail).head? = some x) : isNameChar x = false := by
  cases hempty : space.chars with
  | nil =>
    rw [hempty] at hx
    cases hx
    exact hfirst hempty
  | cons y others =>
    rw [hempty] at hx
    cases hx
    exact isNameChar_of_isSpace (space.isSpace x (by simp [hempty]))

theorem readQuoted_of_rest {c : Cursor} (value : Literal) (hc : c.rest = value.chars ++ rest) :
    ∃ pos d, c.readQuoted = .ok ((value.value, pos), d) ∧ d.rest = rest := by
  obtain ⟨quote, value, hquote, hvalue⟩ := value
  replace hc : c.rest = quote :: (value ++ quote :: rest) := by
    rw [hc, Literal.chars]
    simp
  have hinside : (c.skip 1).rest = value ++ quote :: rest := by
    rw [rest_skip, hc]
    rfl
  have hall : ∀ x ∈ value, (x != quote) = true := fun x hx => by
    rw [bne_iff_ne]
    rintro rfl
    exact hvalue hx
  have hstop : ∀ x, (quote :: rest).head? = some x → (x != quote) = false := by
    intro x hx
    cases hx
    simp
  obtain ⟨hrun, hclosing⟩ := skipRun_of_stop hinside hall hstop
  refine ⟨(c.skip 1).pos, ((c.skip 1).skipRun (· != quote)).skip 1, ?_, ?_⟩
  · rw [readQuoted]
    simp only [hc, hquote, if_true, hclosing, hrun]
  · rw [rest_skip, hclosing]
    rfl

/-- The cursor stands behind the space before the attribute. -/
theorem readAttribute_of_rest {c : Cursor} (a : AttributeText) (hname : IsName a.name)
    (hc : c.rest = a.name ++
      (a.afterName.chars ++ '=' :: (a.beforeValue.chars ++ (a.value.chars ++ rest)))) :
    ∃ pos d, c.readAttribute = .ok (⟨a.name, a.value.value, pos⟩, d) ∧ d.rest = rest := by
  have hequals : isNameChar '=' = false := by decide
  have hstop := isNameChar_of_space a.afterName (fun _ => hequals)
    (a.beforeValue.chars ++ (a.value.chars ++ rest))
  obtain ⟨hrun, hnamed⟩ := skipRun_of_stop hc hname.isNameChar hstop
  have hsign := rest_skipSpace a.afterName hnamed fun x hx => by
    cases hx
    decide
  have hbehind : ((c.skipRun isNameChar).skipSpace.skip 1).rest =
      a.beforeValue.chars ++ (a.value.chars ++ rest) := by
    rw [rest_skip, hsign]
    rfl
  have hquote := rest_skipSpace a.beforeValue hbehind fun x hx => by
    cases hx
    rcases a.value.isQuote with h | h <;> rw [h] <;> decide
  obtain ⟨pos, d, hd, hrest⟩ := readQuoted_of_rest a.value hquote
  refine ⟨pos, d, ?_, hrest⟩
  rw [readAttribute]
  simp only [hsign, hd, hrun]

/-- What reading attributes does, without the proof that it ends. -/
theorem Cursor.readAttributes_eq (fresh : Bool) (c : Cursor) :
    c.readAttributes fresh =
      match c.skipSpace.rest with
      | [] => c.skipSpace.truncated
      | '>' :: _ => .ok (([], false), c.skipSpace.skip 1)
      | '/' :: _ =>
        match (c.skipSpace.skip 1).rest with
        | [] => (c.skipSpace.skip 1).truncated
        | '>' :: _ => .ok (([], true), (c.skipSpace.skip 1).skip 1)
        | _ :: _ => (c.skipSpace.skip 1).refuse .straySlash
      | first :: _ =>
        if isNameStart first then
          if c.run isSpace = [] ∧ fresh = false then c.skipSpace.refuse .unspacedAttributes
          else
            match c.skipSpace.readAttribute with
            | .error failure => .error failure
            | .ok (a, after) =>
              match after.readAttributes false with
              | .error failure => .error failure
              | .ok ((more, selfClosing), done) => .ok ((a :: more, selfClosing), done)
        else c.skipSpace.refuse .badAttributeName := by
  fun_cases readAttributes fresh c <;> simp_all +zetaDelta

theorem readAttributes_close {c : Cursor} {selfClosing : Bool} (fresh : Bool) (after : Space)
    (hc : c.rest = after.chars ++ (tagClosing selfClosing ++ rest)) :
    ∃ d, c.readAttributes fresh = .ok (([], selfClosing), d) ∧ d.rest = rest := by
  have hnext : c.skipSpace.rest = tagClosing selfClosing ++ rest := by
    refine rest_skipSpace after hc fun x hx => ?_
    cases selfClosing <;> (cases hx; decide)
  rw [readAttributes]
  cases selfClosing with
  | false =>
    replace hnext : c.skipSpace.rest = '>' :: rest := hnext
    simp only [hnext]
    exact ⟨_, rfl, by rw [rest_skip, hnext]; rfl⟩
  | true =>
    replace hnext : c.skipSpace.rest = '/' :: '>' :: rest := hnext
    have hclosing : (c.skipSpace.skip 1).rest = '>' :: rest := by
      rw [rest_skip, hnext]
      rfl
    simp only [hnext, hclosing]
    exact ⟨_, rfl, by rw [rest_skip, hclosing]; rfl⟩

/-- Behind the space, what does not end the tag begins an attribute, or nothing that may stand there. -/
theorem readAttributes_inside {c : Cursor} {fresh : Bool} {first : Char} {tail : List Char}
    (hnext : c.skipSpace.rest = first :: tail) (hfirst : first ≠ '>' ∧ first ≠ '/') :
    c.readAttributes fresh =
      if isNameStart first then
        if c.run isSpace = [] ∧ fresh = false then c.skipSpace.refuse .unspacedAttributes
        else
          match c.skipSpace.readAttribute with
          | .error failure => .error failure
          | .ok (a, after) =>
            match after.readAttributes false with
            | .error failure => .error failure
            | .ok ((more, selfClosing), done) => .ok ((a :: more, selfClosing), done)
      else c.skipSpace.refuse .badAttributeName := by
  rw [readAttributes_eq, hnext]
  split
  · rename_i heq
    cases heq
  · rename_i heq
    cases heq
    exact absurd rfl hfirst.1
  · rename_i heq
    cases heq
    exact absurd rfl hfirst.2
  · rename_i heq
    cases heq
    rfl

/-- What begins a name does not end a tag. -/
theorem ne_of_isNameStart {first : Char} (h : isNameStart first = true) :
    first ≠ '>' ∧ first ≠ '/' := by
  constructor <;> (rintro rfl; exact absurd h (by decide))

/-- One attribute and then the others. -/
theorem readAttributes_step {c : Cursor} {fresh : Bool} {first : Char} {tail : List Char}
    (hnext : c.skipSpace.rest = first :: tail) (hfirst : isNameStart first = true)
    (hspace : c.run isSpace ≠ []) :
    c.readAttributes fresh =
      match c.skipSpace.readAttribute with
      | .error failure => .error failure
      | .ok (a, after) =>
        match after.readAttributes false with
        | .error failure => .error failure
        | .ok ((more, selfClosing), done) => .ok ((a :: more, selfClosing), done) := by
  rw [readAttributes_inside hnext (ne_of_isNameStart hfirst), if_pos hfirst,
    if_neg (fun h => hspace h.1)]

theorem run_ne_nil_of_separator {c : Cursor} (gap : Separator) (hc : c.rest = gap.chars ++ rest) :
    c.run isSpace ≠ [] := by
  obtain ⟨space, others, hspace⟩ := List.exists_cons_of_ne_nil gap.ne_nil
  have hfirst : isSpace space = true := gap.isSpace space (by simp [hspace])
  rw [Cursor.run, hc, hspace, List.cons_append, List.takeWhile_cons_of_pos hfirst]
  exact List.cons_ne_nil _ _

/-- An attribute in front of others is read first. -/
theorem readAttributes_cons {c : Cursor} (a : AttributeText) (hname : IsName a.name) (fresh : Bool)
    (hc : c.rest = a.chars ++ rest) :
    ∃ pos after, c.Reaches after ∧ after.rest = rest ∧
      c.readAttributes fresh =
        match after.readAttributes false with
        | .error failure => .error failure
        | .ok ((more, selfClosing), done) =>
          .ok ((⟨a.name, a.value.value, pos⟩ :: more, selfClosing), done) := by
  obtain ⟨first, tail, hfront, hfirst, -⟩ := id hname
  have hcons : c.rest = a.before.chars ++ (a.name ++ (a.afterName.chars ++ '=' ::
      (a.beforeValue.chars ++ (a.value.chars ++ rest)))) := by
    rw [hc, AttributeText.chars]
    simp
  have hnext := rest_skipSpace a.before.toSpace hcons fun x hx => by
    rw [hfront] at hx
    cases hx
    exact isSpace_of_isNameStart hfirst
  obtain ⟨pos, after, hattribute, hafter⟩ := readAttribute_of_rest a hname hnext
  rw [hfront, List.cons_append] at hnext
  refine ⟨pos, after, (Reaches.skipSpace c).trans (readAttribute_reaches hattribute).1, hafter, ?_⟩
  rw [readAttributes_step hnext hfirst (run_ne_nil_of_separator a.before hcons), hattribute]

theorem readAttributes_of_rest {selfClosing : Bool} (after : Space) :
    ∀ (attributes : List AttributeText), (∀ a ∈ attributes, IsName a.name) →
      ∀ (fresh : Bool) (c : Cursor),
        c.rest = attributes.flatMap AttributeText.chars ++
          (after.chars ++ (tagClosing selfClosing ++ rest)) →
        ∃ written d, c.readAttributes fresh = .ok ((written, selfClosing), d) ∧
          written.map (·.spelling) = attributes.map (·.spelling) ∧ d.rest = rest
  | [], _, fresh, c, hc => by
    obtain ⟨d, hd, hrest⟩ := readAttributes_close fresh after hc
    exact ⟨[], d, hd, rfl, hrest⟩
  | a :: others, hnames, fresh, c, hc => by
    rw [List.flatMap_cons, List.append_assoc] at hc
    obtain ⟨pos, behind, -, hbehind, hcons⟩ :=
      readAttributes_cons a (hnames a List.mem_cons_self) fresh hc
    obtain ⟨written, d, hmore, hwritten, hrest⟩ := readAttributes_of_rest after others
      (fun x hx => hnames x (List.mem_cons_of_mem _ hx)) false behind hbehind
    refine ⟨⟨a.name, a.value.value, pos⟩ :: written, d, ?_, ?_, hrest⟩
    · rw [hcons, hmore]
    · rw [List.map_cons, hwritten]
      rfl

/-- What follows the name of a start tag. -/
theorem follows_name (t : StartTagText) (rest : List Char) : ∃ next tail,
    t.attributes.flatMap AttributeText.chars ++ (t.after.chars ++ (tagClosing t.selfClosing ++ rest))
      = next :: tail ∧ (isSpace next = true ∨ next = '>' ∨ next = '/') := by
  have hspaced {space : List Char} (hspace : ∀ c ∈ space, isSpace c = true) (hne : space ≠ [])
      (tail : List Char) : ∃ next tail', space ++ tail = next :: tail' ∧
        (isSpace next = true ∨ next = '>' ∨ next = '/') := by
    obtain ⟨next, others, rfl⟩ := List.exists_cons_of_ne_nil hne
    exact ⟨next, _, rfl, .inl (hspace next List.mem_cons_self)⟩
  cases t.attributes with
  | nil =>
    by_cases hempty : t.after.chars = []
    · rw [hempty]
      cases t.selfClosing with
      | false => exact ⟨'>', _, rfl, .inr (.inl rfl)⟩
      | true => exact ⟨'/', _, rfl, .inr (.inr rfl)⟩
    · exact hspaced t.after.isSpace hempty _
  | cons a others =>
    rw [List.flatMap_cons, AttributeText.chars]
    simpa only [List.append_assoc] using hspaced a.before.isSpace a.before.ne_nil _

/-- A name begins no piece of another kind. -/
theorem readMarkup_of_name {c : Cursor} {name : List Char} (hname : IsName name)
    (hc : c.rest = name ++ rest) : c.readMarkup = c.readStartTag := by
  obtain ⟨first, others, rfl, hfirst, -⟩ := hname
  have hne : first ≠ '!' ∧ first ≠ '?' ∧ first ≠ '/' := by
    refine ⟨?_, ?_, ?_⟩ <;> (rintro rfl; exact absurd hfirst (by decide))
  rw [readMarkup_of_first hc hne.1, if_neg hne.2.1, if_neg hne.2.2, if_pos hfirst]

theorem reads_startTag (t : StartTagText) (hname : IsName t.name)
    (hattributes : ∀ a ∈ t.attributes, IsName a.name) :
    Reads (t.chars ++ rest)
      (fun token => ∃ written, token = .startTag t.name written t.selfClosing ∧
        written.map (·.spelling) = t.attributes.map (·.spelling)) rest := by
  intro c hc
  obtain ⟨htoken, hinside⟩ := readToken_bracket (c := c)
    (t.name ++ (t.attributes.flatMap AttributeText.chars ++
      (t.after.chars ++ (tagClosing t.selfClosing ++ rest))))
    (by rw [hc, StartTagText.chars]; simp)
  obtain ⟨next, tail, hnext, hends⟩ := follows_name t rest
  have hstop : ∀ x, (t.attributes.flatMap AttributeText.chars ++
      (t.after.chars ++ (tagClosing t.selfClosing ++ rest))).head? = some x →
      isNameChar x = false := by
    intro x hx
    rw [hnext] at hx
    cases hx
    rcases hends with h | rfl | rfl
    · exact isNameChar_of_isSpace h
    · decide
    · decide
  obtain ⟨hrun, hnamed⟩ := skipRun_of_stop hinside hname.isNameChar hstop
  obtain ⟨written, d, hd, hwritten, hrest⟩ :=
    readAttributes_of_rest t.after t.attributes hattributes true _ hnamed
  refine ⟨_, d, ?_, ⟨written, rfl, hwritten⟩, hrest⟩
  rw [htoken, readMarkup_of_name hname hinside, readStartTag, hrun]
  rw [hnext] at hnamed
  simp only [hnamed, hd, hends, if_true]

theorem reads_endTag (t : EndTagText) (hname : IsName t.name) :
    Reads (t.chars ++ rest) (· = .endTag t.name) rest := by
  intro c hc
  obtain ⟨first, others, hfront, hfirst, -⟩ := id hname
  obtain ⟨htoken, hinside⟩ := readToken_bracket (c := c)
    ('/' :: (t.name ++ (t.after.chars ++ '>' :: rest))) (by rw [hc, EndTagText.chars]; simp)
  have hslash : ((c.skip 1).skip 1).rest = t.name ++ (t.after.chars ++ '>' :: rest) := by
    rw [rest_skip, hinside]
    rfl
  have hbracket : isNameChar '>' = false := by decide
  have hstop := isNameChar_of_space t.after (fun _ => hbracket) rest
  obtain ⟨hrun, hnamed⟩ := skipRun_of_stop hslash hname.isNameChar hstop
  have hclosing := rest_skipSpace t.after hnamed fun x hx => by
    cases hx
    decide
  refine ⟨_, (((c.skip 1).skip 1).skipRun isNameChar).skipSpace.skip 1, ?_, rfl, ?_⟩
  · rw [htoken, readMarkup_of_first hinside (by decide), if_neg (by decide), if_pos rfl,
      readEndTag, hrun]
    rw [hfront, List.cons_append] at hslash
    simp only [hslash, hfirst, hclosing, if_true]
  · rw [rest_skip, hclosing]
    rfl

/-! ## Text -/

theorem reads_text {raw : List Char} (hne : raw ≠ []) (hraw : '<' ∉ raw)
    (hrest : ∀ x, rest.head? = some x → x = '<') : Reads (raw ++ rest) (· = .text raw) rest := by
  intro c hc
  have hall : ∀ x ∈ raw, (x != '<') = true := fun x hx => by
    rw [bne_iff_ne]
    rintro rfl
    exact hraw hx
  have hstop : ∀ x, rest.head? = some x → (x != '<') = false := fun x hx => by
    rw [hrest x hx]
    rfl
  obtain ⟨hrun, hafter⟩ := skipRun_of_stop hc hall hstop
  refine ⟨.text raw, c.skipRun (· != '<'), ?_, rfl, hafter⟩
  unfold readToken
  split
  · rename_i hbracket
    obtain ⟨first, tail, rfl⟩ := List.exists_cons_of_ne_nil hne
    rw [hc, List.cons_append] at hbracket
    cases hbracket
    exact absurd List.mem_cons_self hraw
  · rw [hrun]

end SvgTidy.Markup
