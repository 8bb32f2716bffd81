import SvgTidy.Proofs.TokenPlaces
import SvgTidy.Proofs.TokenSpelling

/-!
# Where tokens come from

`Token.Written` says of a stretch of text that it is written for a token behind a given text. It gives
the characters of the stretch one by one, space inside of tags and the case of a keyword included, and
the places of the attribute values in it, counted from the beginning of the text. The readers update
offset and position as they go; `Cursor.Spans` is what holds between two cursors, and every reader that
succeeds spans what its token is written as.

Principal results: `Cursor.Spans.pos`, `Cursor.Spans.last` — positions follow from the characters
between; `Cursor.written_of_readToken` — what a token was read from.
-/

namespace SvgTidy

/-- The position right behind a text, by counting its line feeds and what follows the last of them. -/
def Position.behind (before : List Char) : Position :=
  ⟨before.count '\n' + 1, (before.rtakeWhile (· != '\n')).length + 1⟩

theorem Position.behind_append (before text : List Char) :
    behind (before ++ text) = (behind before).advance text := by
  have hstart (text : List Char) : behind text = start.advance text := (advance_start text).symm
  rw [hstart, hstart, advance_append]

namespace Markup

/-! ## The text of a token -/

/-- An attribute up to the quote that opens its value. -/
def AttributeText.opening (a : AttributeText) : List Char :=
  a.before.chars ++
    (a.name ++ (a.afterName.chars ++ '=' :: (a.beforeValue.chars ++ [a.value.quote])))

/-- Attributes written behind a text, each with the position of its value. -/
def AttributeText.placed : List Char → List AttributeText → List RawAttribute
  | _, [] => []
  | before, a :: more =>
    ⟨a.name, a.value.value, .behind (before ++ a.opening)⟩ :: placed (before ++ a.chars) more

/-- What is written for a token behind a text. -/
inductive Token.Written (before : List Char) : Token → List Char → Prop where
  | text {raw : List Char} (hne : raw ≠ []) (hraw : '<' ∉ raw) : Written before (.text raw) raw
  | startTag (t : StartTagText) (hname : IsName t.name)
      (hattributes : ∀ a ∈ t.attributes, IsName a.name) :
      Written before (.startTag t.name
        (AttributeText.placed (before ++ '<' :: t.name) t.attributes) t.selfClosing) t.chars
  | endTag (t : EndTagText) (hname : IsName t.name) : Written before (.endTag t.name) t.chars
  | comment {body : List Char} (hbody : Closed "--".toList body) :
      Written before (.comment body) ("<!--".toList ++ (body ++ "-->".toList))
  | cdata {body : List Char} (hbody : Closed "]]>".toList body) :
      Written before (.cdata body) ("<![CDATA[".toList ++ (body ++ "]]>".toList))
  | instruction {name body : List Char} (gap : Space) (h : (Token.instruction name body).Legible) :
      Written before (.instruction name body)
        ("<?".toList ++ (name ++ (gap.chars ++ (body ++ "?>".toList))))
  | doctype {keyword body : List Char} (hkeyword : keyword.map Char.toUpper = "!DOCTYPE".toList)
      (hbody : DoctypeClosed body) :
      Written before (.doctype body) ('<' :: (keyword ++ (body ++ ['>'])))

namespace Cursor

variable {c d e : Cursor}

/-! ## Stretches of text -/

/-- Reading on, one cursor becomes another; these are the characters between them. -/
structure Spans (c : Cursor) (text : List Char) (d : Cursor) : Prop where
  rest : c.rest = text ++ d.rest
  reaches : c.Reaches d

namespace Spans

variable {text more : List Char}

theorem refl (c : Cursor) : c.Spans [] c :=
  ⟨rfl, .refl c⟩

theorem trans (h : c.Spans text d) (hmore : d.Spans more e) : c.Spans (text ++ more) e := by
  refine ⟨?_, h.reaches.trans hmore.reaches⟩
  rw [h.rest, hmore.rest, List.append_assoc]

theorem of_rest {tail : List Char} (h : c.rest = text ++ tail) :
    c.Spans text (c.skip text.length) := by
  refine ⟨?_, .skip c _⟩
  rw [rest_skip, h, List.drop_left]

/-- **The position of the next character** is that behind the characters between. -/
theorem pos (h : c.Spans text d) : d.pos = c.pos.advance text := by
  rw [h.reaches.read_eq h.rest, pos_skip, h.rest, List.take_left]

/-- **The position of the last character.** -/
theorem last (h : c.Spans text d) (hne : text ≠ []) : d.last = c.pos.advance text.dropLast := by
  have htake : c.rest.take text.length = text := by rw [h.rest, List.take_left]
  rw [h.reaches.read_eq h.rest]
  simp only [Cursor.skip]
  rw [htake, if_neg hne]

theorem skipRun (c : Cursor) (p : Char → Bool) : c.Spans (c.run p) (c.skipRun p) := by
  refine ⟨?_, .skipRun c p⟩
  rw [rest_skipRun, run, List.takeWhile_append_dropWhile]

theorem pos_eq_behind (h : c.Spans text d) {before : List Char} (hc : c.pos = .behind before) :
    d.pos = .behind (before ++ text) := by
  rw [h.pos, hc, Position.behind_append]

end Spans

/-- A run goes on to a character that does not belong to it. -/
theorem eq_false_of_skipRun {p : Char → Bool} {x : Char} {tail : List Char}
    (h : (c.skipRun p).rest = x :: tail) : p x = false := by
  rw [rest_skipRun] at h
  exact head?_dropWhile_ne p _ (by rw [h]; rfl)

/-- The space that comes next. -/
def space (c : Cursor) : Space where
  chars := c.run isSpace
  isSpace _ hx := List.mem_takeWhile_imp hx

theorem spans_space (c : Cursor) : c.Spans c.space.chars c.skipSpace :=
  .skipRun c isSpace

theorem spans_of_upTo {word : String} {body : List Char} (hword : word.toList ≠ [])
    (h : c.upTo word = .ok (body, d)) :
    Closed word.toList body ∧ c.Spans (body ++ word.toList) d := by
  refine ⟨(closed_of_upTo hword h).1, ?_⟩
  unfold upTo at h
  split at h
  · rename_i hbody
    cases h
    obtain ⟨tail, htail⟩ := split_of_before? hbody
    rw [← List.append_assoc] at htail
    have hspans := Spans.of_rest htail
    rwa [List.length_append, String.length_toList] at hspans
  · cases h

/-! ## Sections -/

theorem written_of_readComment {token : Token} (h : c.readComment = .ok (token, d)) :
    ∃ body, token = .comment body ∧ Closed "--".toList body ∧
      c.Spans (body ++ "-->".toList) d := by
  unfold readComment at h
  split at h
  · cases h
  · rename_i body closing hbody
    obtain ⟨hclosed, hspans⟩ := spans_of_upTo (by decide) hbody
    split at h
    · cases h
    · rename_i tail hrest
      cases h
      have hbracket : closing.Spans ['>'] (closing.skip 1) := .of_rest hrest
      refine ⟨body, rfl, hclosed, ?_⟩
      have hall := hspans.trans hbracket
      rwa [List.append_assoc] at hall
    · cases h

theorem written_of_readCdata {token : Token} (h : c.readCdata = .ok (token, d)) :
    ∃ body, token = .cdata body ∧ Closed "]]>".toList body ∧ c.Spans (body ++ "]]>".toList) d := by
  unfold readCdata at h
  split at h
  · cases h
  · rename_i body done hbody
    cases h
    exact ⟨body, rfl, spans_of_upTo (by decide) hbody⟩

theorem written_of_readDoctype {token : Token} (h : c.readDoctype = .ok (token, d)) :
    ∃ body, token = .doctype body ∧ DoctypeClosed body ∧ c.Spans (body ++ ['>']) d := by
  unfold readDoctype at h
  split at h
  · cases h
  · rename_i body hbody
    cases h
    obtain ⟨tail, htail⟩ := split_of_doctypeBody? hbody
    rw [List.append_cons] at htail
    have hspans := Spans.of_rest htail
    rw [List.length_append] at hspans
    exact ⟨body, rfl, doctypeClosed_of_doctypeBody? hbody, hspans⟩

theorem written_of_readInstruction {token : Token} (h : c.readInstruction = .ok (token, d)) :
    ∃ name body, ∃ gap : Space, token = .instruction name body ∧ token.Legible ∧
      c.Spans (name ++ (gap.chars ++ (body ++ "?>".toList))) d := by
  have hlegible := (legible_of_readInstruction h).1
  unfold readInstruction at h
  simp only at h
  split at h
  · cases h
  · split at h
    · cases h
    · split at h
      · cases h
      · rename_i body done hbody
        cases h
        obtain ⟨-, hspans⟩ := spans_of_upTo (by decide) hbody
        have hname : c.Spans _ (c.skipRun isInstructionNameChar) := .skipRun c _
        exact ⟨_, body, space _, rfl, hlegible, hname.trans ((spans_space _).trans hspans)⟩

/-! ## Tags -/

theorem written_of_readEndTag {token : Token} (h : c.readEndTag = .ok (token, d)) :
    ∃ name, ∃ gap : Space, token = .endTag name ∧ IsName name ∧
      c.Spans (name ++ (gap.chars ++ ['>'])) d := by
  unfold readEndTag at h
  split at h
  · cases h
  · rename_i hrest
    split at h
    · rename_i hfirst
      simp only at h
      split at h
      · cases h
      · rename_i tail hclosing
        cases h
        have hname : c.Spans _ (c.skipRun isNameChar) := .skipRun c _
        have hbracket : Spans _ ['>'] _ := .of_rest hclosing
        exact ⟨_, space _, rfl, isName_run hrest hfirst,
          hname.trans ((spans_space _).trans hbracket)⟩
      · cases h
    · cases h

theorem written_of_readQuoted {value : List Char} {pos : Position}
    (h : c.readQuoted = .ok ((value, pos), d)) :
    ∃ l : Literal, l.value = value ∧ c.Spans l.chars d ∧ pos = c.pos.advance [l.quote] := by
  unfold readQuoted at h
  split at h
  · cases h
  · rename_i quote tail hrest
    split at h
    · rename_i hquote
      simp only at h
      split at h
      · cases h
      · rename_i next after hclosing
        cases h
        have hopening : c.Spans [quote] (c.skip 1) := .of_rest hrest
        have hinside : (c.skip 1).Spans _ ((c.skip 1).skipRun (· != quote)) := .skipRun _ _
        -- the run of the value was left by its quote
        have hnext : next = quote := by simpa using eq_false_of_skipRun hclosing
        subst hnext
        have hend : Spans _ [next] _ := .of_rest hclosing
        refine ⟨⟨next, (c.skip 1).run (· != next), hquote, fun hmem => ?_⟩, rfl, ?_, hopening.pos⟩
        · simpa using List.mem_takeWhile_imp hmem
        · exact hopening.trans (hinside.trans hend)
    · cases h

/-- An attribute behind the space before it. -/
theorem written_of_readAttribute {a : RawAttribute} (before : Separator) {b : Cursor}
    (hbefore : b.Spans before.chars c) (h : c.readAttribute = .ok (a, d)) :
    ∃ t : AttributeText, b.Spans t.chars d ∧
      a = ⟨t.name, t.value.value, b.pos.advance t.opening⟩ := by
  have hname : c.Spans _ (c.skipRun isNameChar) := .skipRun c _
  unfold readAttribute at h
  simp only at h
  split at h
  · cases h
  · rename_i tail hsign
    split at h
    · cases h
    · rename_i value pos done hquoted
      cases h
      obtain ⟨l, rfl, hliteral, rfl⟩ := written_of_readQuoted hquoted
      have hgap := (c.skipRun isNameChar).spans_space
      have hequals : Spans _ ['='] ((c.skipRun isNameChar).skipSpace.skip 1) := .of_rest hsign
      have hopening := hbefore.trans (hname.trans (hgap.trans (hequals.trans (spans_space _))))
      refine ⟨⟨before, c.run isNameChar, (c.skipRun isNameChar).space,
        ((c.skipRun isNameChar).skipSpace.skip 1).space, l⟩, ?_, ?_⟩
      · have hall := hopening.trans hliteral
        simpa [AttributeText.chars] using hall
      · rw [hopening.pos, ← Position.advance_append]
        simp [AttributeText.opening]
  · split at h <;> cases h

/-- Where an attribute begins there is space before it, also before the first one. -/
theorem space_ne_nil {fresh : Bool} {first : Char} {tail : List Char}
    (hspaced : fresh = true → ∀ x, c.rest.head? = some x → isNameStart x = false)
    (hrest : c.skipSpace.rest = first :: tail) (hfirst : isNameStart first = true)
    (hunspaced : ¬ (c.run isSpace = [] ∧ fresh = false)) : c.space.chars ≠ [] := by
  intro hnone
  have hfresh : fresh = true := by
    cases fresh with
    | true => rfl
    | false => exact absurd ⟨hnone, rfl⟩ hunspaced
  have hhere := (spans_space c).rest
  rw [hnone, List.nil_append, hrest] at hhere
  have hnot := hspaced hfresh first (by rw [hhere]; rfl)
  rw [hfirst] at hnot
  cases hnot

/-- Attributes and the end of their tag. -/
theorem written_of_readAttributes {fresh : Bool} {r : List RawAttribute × Bool}
    (h : c.readAttributes fresh = .ok (r, d))
    (hspaced : fresh = true → ∀ x, c.rest.head? = some x → isNameStart x = false)
    {before : List Char} (hc : c.pos = .behind before) :
    ∃ (attributes : List AttributeText) (after : Space),
      r.1 = AttributeText.placed before attributes ∧
      c.Spans (attributes.flatMap AttributeText.chars ++ (after.chars ++ tagClosing r.2)) d := by
  fun_induction readAttributes fresh c generalizing r d before with
  | case1 => cases h
  | case2 =>
    rename_i hrest
    cases h
    have hbracket : Spans _ ['>'] _ := .of_rest hrest
    exact ⟨[], space _, rfl, (spans_space _).trans hbracket⟩
  | case3 => cases h
  | case4 =>
    rename_i hrest _ _ hclosing
    cases h
    have hslash : Spans _ ['/'] _ := .of_rest hrest
    have hbracket : Spans _ ['>'] _ := .of_rest hclosing
    exact ⟨[], space _, rfl, (spans_space _).trans (hslash.trans hbracket)⟩
  | case5 => cases h
  | case6 => cases h
  | case7 => cases h
  | case8 => cases h
  | case9 fresh c =>
    rename_i first _ _ _ hrest hfirst hunspaced _ _ hattribute _ _ _ _ hmore ih
    cases h
    have hspace := space_ne_nil hspaced hrest hfirst hunspaced
    obtain ⟨t, hspans, rfl⟩ :=
      written_of_readAttribute ⟨c.space, hspace⟩ (spans_space c) hattribute
    obtain ⟨attributes, after, hplaced, hend⟩ :=
      ih hmore (absurd · Bool.false_ne_true) (hspans.pos_eq_behind hc)
    refine ⟨t :: attributes, after, ?_, ?_⟩
    · rw [AttributeText.placed, ← hplaced, Position.behind_append, hc]
    · have hall := hspans.trans hend
      rwa [List.flatMap_cons, List.append_assoc]
  | case10 => cases h

theorem map_name_placed (before : List Char) (attributes : List AttributeText) :
    (AttributeText.placed before attributes).map (·.name) = attributes.map (·.name) := by
  induction attributes generalizing before with
  | nil => rfl
  | cons a more ih => rw [AttributeText.placed, List.map_cons, List.map_cons, ih]

/-- What ends the name of a start tag begins no attribute. -/
theorem isNameStart_of_ends {x : Char} {tail : List Char} (hrest : c.rest = x :: tail)
    (hends : isSpace x = true ∨ x = '>' ∨ x = '/') :
    ∀ y, c.rest.head? = some y → isNameStart y = false := by
  intro y hy
  rw [hrest] at hy
  cases hy
  rcases hends with hspace | rfl | rfl
  · rw [← Bool.not_eq_true]
    intro hstart
    rw [isSpace_of_isNameStart hstart] at hspace
    cases hspace
  · rfl
  · rfl

/-- A start tag without its bracket. -/
theorem written_of_readStartTag {token : Token} {first : Char} {tail : List Char}
    (hrest : c.rest = first :: tail) (hfirst : isNameStart first = true)
    {before : List Char} (hc : c.pos = .behind before) (h : c.readStartTag = .ok (token, d)) :
    ∃ t : StartTagText, IsName t.name ∧ (∀ a ∈ t.attributes, IsName a.name) ∧
      token = .startTag t.name (AttributeText.placed (before ++ t.name) t.attributes)
        t.selfClosing ∧
      c.Spans (t.name ++ (t.attributes.flatMap AttributeText.chars ++
        (t.after.chars ++ tagClosing t.selfClosing))) d := by
  have hlegible := (legible_of_readStartTag hrest hfirst h).1
  unfold readStartTag at h
  simp only at h
  split at h
  · cases h
  · rename_i next _ hnext
    split at h
    · rename_i hends
      split at h
      · cases h
      · rename_i hattributes
        cases h
        have hname : c.Spans _ (c.skipRun isNameChar) := .skipRun c _
        obtain ⟨attributes, after, rfl, hspans⟩ := written_of_readAttributes hattributes
          (fun _ => isNameStart_of_ends hnext hends) (hname.pos_eq_behind hc)
        refine ⟨⟨_, attributes, after, _⟩, hlegible.1, ?_, rfl, hname.trans hspans⟩
        have hnames : ∀ name ∈ attributes.map (·.name), IsName name := by
          rw [← map_name_placed]
          intro name hmem
          obtain ⟨a, ha, rfl⟩ := List.mem_map.mp hmem
          exact hlegible.2 a ha
        exact fun a ha => hnames _ (List.mem_map_of_mem ha)
    · cases h

/-! ## Tokens -/

theorem exists_rest_of_looksAt {word : String} (h : c.looksAt word = true) :
    ∃ tail, c.rest = word.toList ++ tail := by
  obtain ⟨tail, htail⟩ := List.isPrefixOf_iff_prefix.mp h
  exact ⟨tail, htail.symm⟩

theorem spans_of_looksAtDoctype (h : c.looksAtDoctype = true) :
    (c.rest.take 8).map Char.toUpper = "!DOCTYPE".toList ∧ c.Spans (c.rest.take 8) (c.skip 8) := by
  have hkeyword : (c.rest.take 8).map Char.toUpper = "!DOCTYPE".toList := by
    simpa [looksAtDoctype] using h
  have hlength : (c.rest.take 8).length = 8 := by
    have := congrArg List.length hkeyword
    rwa [List.length_map] at this
  have hspans := Spans.of_rest (List.take_append_drop 8 c.rest).symm
  rw [hlength] at hspans
  exact ⟨hkeyword, hspans⟩

/-- **What a piece of markup was read from**, with its bracket. -/
theorem written_of_readMarkup {token : Token} {b : Cursor} (hbracket : b.Spans ['<'] c)
    {before : List Char} (hb : b.pos = .behind before) (h : c.readMarkup = .ok (token, d)) :
    ∃ piece, Token.Written before token piece ∧ b.Spans piece d := by
  unfold readMarkup at h
  split at h
  · rename_i hlooks
    obtain ⟨tail, hrest⟩ := exists_rest_of_looksAt hlooks
    obtain ⟨body, rfl, hbody, hspans⟩ := written_of_readComment h
    have hword : c.Spans "!--".toList (c.skip 3) := .of_rest hrest
    exact ⟨_, .comment hbody, hbracket.trans (hword.trans hspans)⟩
  · split at h
    · rename_i hlooks
      obtain ⟨tail, hrest⟩ := exists_rest_of_looksAt hlooks
      obtain ⟨body, rfl, hbody, hspans⟩ := written_of_readCdata h
      have hword : c.Spans "![CDATA[".toList (c.skip 8) := .of_rest hrest
      exact ⟨_, .cdata hbody, hbracket.trans (hword.trans hspans)⟩
    · split at h
      · rename_i hlooks
        obtain ⟨body, rfl, hbody, hspans⟩ := written_of_readDoctype h
        obtain ⟨hkeyword, hword⟩ := spans_of_looksAtDoctype hlooks
        exact ⟨_, .doctype hkeyword hbody, hbracket.trans (hword.trans hspans)⟩
      · split at h
        · cases h
        · cases h
        · rename_i hrest
          obtain ⟨name, body, gap, rfl, hlegible, hspans⟩ := written_of_readInstruction h
          have hmark : c.Spans ['?'] (c.skip 1) := .of_rest hrest
          exact ⟨_, .instruction gap hlegible, hbracket.trans (hmark.trans hspans)⟩
        · rename_i hrest
          obtain ⟨name, gap, rfl, hname, hspans⟩ := written_of_readEndTag h
          have hslash : c.Spans ['/'] (c.skip 1) := .of_rest hrest
          exact ⟨_, .endTag ⟨name, gap⟩ hname, hbracket.trans (hslash.trans hspans)⟩
        · rename_i hrest
          split at h
          · rename_i hfirst
            obtain ⟨t, hname, hattributes, rfl, hspans⟩ :=
              written_of_readStartTag hrest hfirst (hbracket.pos_eq_behind hb) h
            rw [List.append_assoc]
            exact ⟨_, .startTag t hname hattributes, hbracket.trans hspans⟩
          · cases h

/-- **What a token was read from.** -/
theorem written_of_readToken {token : Token} (hne : c.rest ≠ []) {before : List Char}
    (hc : c.pos = .behind before) (h : c.readToken = .ok (token, d)) :
    ∃ piece, Token.Written before token piece ∧ c.Spans piece d := by
  have hlegible := legible_of_readToken hne h
  unfold readToken at h
  split at h
  · rename_i hrest
    have hbracket : c.Spans ['<'] (c.skip 1) := .of_rest hrest
    exact written_of_readMarkup hbracket hc h
  · cases h
    exact ⟨_, .text hlegible.1 hlegible.2, .skipRun c _⟩

end Cursor

end Markup

end SvgTidy
