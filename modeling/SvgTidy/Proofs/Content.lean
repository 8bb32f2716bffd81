import SvgTidy.Proofs.ReferenceSpelling
import SvgTidy.Proofs.WrittenForests

/-!
# What a document is written for

`Content` is what an author means before any of it is written: attributes may repeat a name, texts may
stand side by side, and blanks may stand around them. One piece of content is written in many ways;
`Renders` relates it to all of them. They differ in the space inside of tags, in the quotes, in the
characters that stand as references, and in the tags of elements without children.

`normal` is what reading is to make of it, however it was written: texts side by side are one, which
is trimmed unless its element keeps white space, and the first attribute of a name holds.

Principal results: `Renders.bracket` — what is not text is written in brackets, which end the text
before it; `normalAll_cons` — its tree ends the pending text likewise.
-/

namespace SvgTidy

open Markup

/-- A piece of content. -/
inductive Content where
  | element (name : String) (attributes : List Attribute) (children : List Content)
  | text (value : String)
  | comment (value : String)
  | cdata (value : String)
  | instruction (i : Instruction)

namespace Content

def isText : Content → Bool
  | .text _ => true
  | _ => false

/-- Names are names, and no body holds what would end it. -/
inductive Valid : Content → Prop where
  | element {name : String} {attributes : List Attribute} {children : List Content}
      (hname : IsName name.toList) (hattributes : ∀ a ∈ attributes, IsName a.name.toList)
      (hchildren : ∀ c ∈ children, Valid c) : Valid (.element name attributes children)
  | text (value : String) : Valid (.text value)
  | comment {value : String} (hbody : ¬ "--".toList <:+: value.toList)
      (hend : value.toList.getLast? ≠ some '-') : Valid (.comment value)
  | cdata {value : String} (hbody : ¬ "]]>".toList <:+: value.toList) : Valid (.cdata value)
  | instruction {i : Instruction} (hname : i.name.toList ≠ [])
      (hchars : ∀ c ∈ i.name.toList, isSpace c = false ∧ c ≠ '?')
      (hbody : ¬ "?>".toList <:+: i.value.toList)
      (hstart : ∀ c, i.value.toList.head? = some c → isSpace c = false) : Valid (.instruction i)

theorem Valid.children {name : String} {attributes : List Attribute} {children : List Content}
    (h : Valid (.element name attributes children)) : ∀ c ∈ children, c.Valid := by
  cases h with
  | element _ _ hchildren => exact hchildren

/-! ## Ways to write it -/

/-- The text of an attribute is written for a name and a value. -/
def WritesAttribute (t : AttributeText) (a : Attribute) : Prop :=
  t.name = a.name.toList ∧ Spells t.value.quote a.value.toList t.value.value

mutual

/-- A text is written for a piece of content. -/
def Renders : Content → List Char → Prop
  | .element name attributes children, source =>
    ∃ opening : StartTagText, opening.name = name.toList ∧
      List.Forall₂ WritesAttribute opening.attributes attributes ∧
      (opening.selfClosing = true ∧ children = [] ∧ source = opening.chars ∨
        opening.selfClosing = false ∧ ∃ (inner : List Char) (closing : EndTagText),
          RendersAll children inner ∧ closing.name = name.toList ∧
            source = opening.chars ++ (inner ++ closing.chars))
  | .text value, source => Spells '<' value.toList source
  | .comment value, source => source = "<!--".toList ++ value.toList ++ "-->".toList
  | .cdata value, source => source = "<![CDATA[".toList ++ value.toList ++ "]]>".toList
  | .instruction i, source =>
    ∃ gap : Space, (i.value.toList ≠ [] → gap.chars ≠ []) ∧
      source = "<?".toList ++ i.name.toList ++ gap.chars ++ i.value.toList ++ "?>".toList

/-- A text is written for pieces of content, one right after the other. -/
def RendersAll : List Content → List Char → Prop
  | [], source => source = []
  | c :: others, source =>
    ∃ first more, Renders c first ∧ RendersAll others more ∧ source = first ++ more

end

/-- A whole text is written for pieces of content, with space between them. -/
def RendersForest : List Content → List Char → Prop
  | [], source => ∃ space : Space, source = space.chars
  | c :: others, source =>
    ∃ (space : Space) (first more : List Char), Renders c first ∧ RendersForest others more ∧
      source = space.chars ++ (first ++ more)

/-- Whatever is not text is written in brackets. -/
theorem Renders.bracket {c : Content} {source : List Char} (h : c.Renders source)
    (hc : c.isText = false) : ∃ tail, source = '<' :: tail := by
  cases c with
  | element name attributes children =>
    obtain ⟨opening, -, -, ⟨-, -, rfl⟩ | ⟨-, inner, closing, -, -, rfl⟩⟩ := h
    · exact ⟨_, rfl⟩
    · exact ⟨_, rfl⟩
  | text _ => cases hc
  | comment value => exact ⟨_, h⟩
  | cdata value => exact ⟨_, h⟩
  | instruction i =>
    obtain ⟨gap, -, rfl⟩ := h
    exact ⟨_, rfl⟩

/-- What is escaped is spelled, in text and between quotes. -/
theorem spells_escapeText {mark : Char} (hmark : mark ∈ ['<', '"']) (text : List Char) :
    Spells mark text (escapeText text) := by
  induction text with
  | nil => exact .nil
  | cons c text ih =>
    have hc : Spelled mark c (escapeChar c) := by
      unfold escapeChar
      split
      · exact .predefined (by decide : ("amp".toList, ['&']) ∈ EntityTable.predefined)
      · exact .predefined (by decide : ("lt".toList, ['<']) ∈ EntityTable.predefined)
      · exact .predefined (by decide : ("gt".toList, ['>']) ∈ EntityTable.predefined)
      · exact .predefined (by decide : ("apos".toList, ['\'']) ∈ EntityTable.predefined)
      · exact .predefined (by decide : ("quot".toList, ['"']) ∈ EntityTable.predefined)
      · refine .literal ?_ (by assumption)
        rintro rfl
        simp_all
    exact .cons hc ih

theorem exists_writesAttribute (attributes : List Attribute) :
    ∃ texts, List.Forall₂ WritesAttribute texts attributes := by
  induction attributes with
  | nil => exact ⟨[], .nil⟩
  | cons a attributes ih =>
    obtain ⟨texts, htexts⟩ := ih
    have hclosed : '"' ∉ escapeText a.value.toList := by
      rw [escapeText, List.mem_flatMap]
      rintro ⟨c, -, hc⟩
      exact not_mem_escapeChar (by decide) c hc
    have hspells : Spells '"' a.value.toList (escapeText a.value.toList) :=
      spells_escapeText (by decide) _
    let value : Literal := ⟨'"', escapeText a.value.toList, .inl rfl, hclosed⟩
    let text : AttributeText := ⟨.single, a.name.toList, .none, .none, value⟩
    exact ⟨text :: texts, .cons ⟨rfl, hspells⟩ htexts⟩

mutual

/-- Any content can be written. -/
theorem exists_renders : ∀ c : Content, ∃ source, c.Renders source
  | .element name attributes children => by
    obtain ⟨inner, hinner⟩ := exists_rendersAll children
    obtain ⟨texts, htexts⟩ := exists_writesAttribute attributes
    let opening : StartTagText := ⟨name.toList, texts, .none, false⟩
    exact ⟨_, opening, rfl, htexts, .inr ⟨rfl, inner, ⟨name.toList, .none⟩, hinner, rfl, rfl⟩⟩
  | .text value => ⟨_, spells_escapeText (by decide) value.toList⟩
  | .comment _ => ⟨_, rfl⟩
  | .cdata _ => ⟨_, rfl⟩
  | .instruction _ => ⟨_, Separator.single.toSpace, fun _ => Separator.single.ne_nil, rfl⟩

theorem exists_rendersAll : ∀ contents : List Content, ∃ source, RendersAll contents source
  | [] => ⟨[], rfl⟩
  | c :: others => by
    obtain ⟨first, hfirst⟩ := exists_renders c
    obtain ⟨more, hmore⟩ := exists_rendersAll others
    exact ⟨_, first, more, hfirst, hmore, rfl⟩

end

/-- **Any forest can be written.** -/
theorem exists_rendersForest (forest : List Content) : ∃ source, RendersForest forest source := by
  induction forest with
  | nil => exact ⟨_, .none, rfl⟩
  | cons c others ih =>
    obtain ⟨first, hfirst⟩ := exists_renders c
    obtain ⟨more, hmore⟩ := ih
    exact ⟨_, .none, first, more, hfirst, hmore, rfl⟩

/-! ## What is read of it -/

mutual

/-- The tree of a piece of content. -/
def normal : Content → Tree
  | .element name attributes children =>
    .node Document.root (.element { name, attributes := .ofList attributes })
      (normalAll (isTextElement name) [] children)
  | .text value => .node Document.root (.text value) []
  | .comment value => .node Document.root (.comment value) []
  | .cdata value => .node Document.root (.cdata value) []
  | .instruction i => .node Document.root (.instruction i) []

/-- The trees of pieces of content in an element that keeps white space or does not. The text that
came right before them is still pending. -/
def normalAll (keeps : Bool) (pending : List Char) : List Content → List Tree
  | [] => textNodes keeps pending
  | .text value :: others => normalAll keeps (pending ++ value.toList) others
  | c :: others => textNodes keeps pending ++ normal c :: normalAll keeps [] others

end

/-- What is not text ends the text before it. -/
theorem normalAll_cons {c : Content} (hc : c.isText = false) (keeps : Bool) (pending : List Char)
    (others : List Content) : normalAll keeps pending (c :: others) =
      textNodes keeps pending ++ c.normal :: normalAll keeps [] others := by
  cases c with
  | text _ => cases hc
  | _ => rw [normalAll]; nofun

theorem kind_textNodes {keeps : Bool} {text : List Char} :
    ∀ t ∈ textNodes keeps text, t.data.kind = .text := by
  intro t ht
  unfold textNodes at ht
  by_cases hkept : (if keeps then text else Text.trim text) = []
  · simp only [hkept, if_true, List.not_mem_nil] at ht
  · simp only [hkept, if_false, List.mem_singleton] at ht
    rw [ht]
    rfl

theorem kind_normal (c : Content) : c.normal.data.kind ≠ .doctype := by
  cases c <;> (rw [normal]; nofun)

/-- Content declares no entities. -/
theorem kind_normalAll (keeps : Bool) (contents : List Content) : ∀ (pending : List Char),
    ∀ t ∈ normalAll keeps pending contents, t.data.kind ≠ .doctype := by
  induction contents with
  | nil =>
    intro pending t ht
    rw [normalAll] at ht
    rw [kind_textNodes t ht]
    nofun
  | cons c others ih =>
    intro pending t ht
    cases hc : c.isText with
    | true =>
      obtain ⟨value, rfl⟩ : ∃ value, c = .text value := by
        cases c <;> first | exact ⟨_, rfl⟩ | cases hc
      rw [normalAll] at ht
      exact ih _ t ht
    | false =>
      rw [normalAll_cons hc] at ht
      rcases List.mem_append.mp ht with ht | ht
      · rw [kind_textNodes t ht]
        nofun
      · rcases List.mem_cons.mp ht with rfl | ht
        · exact kind_normal c
        · exact ih [] t ht

end Content

end SvgTidy
