import SvgTidy.Proofs.ReadableTrees
import SvgTidy.Proofs.ReadingSteps
import SvgTidy.Proofs.TokenSpelling
import SvgTidy.Proofs.TrimmedTexts

/-!
# What is written is read again

Trees that fit, without two texts side by side, are read from the text that a layout writes for them,
whatever the layout, as long as it indents by blanks. `Completes` runs along the text: reading the
rest of it, wherever it stands, ends with a given document.

A text token takes in the blanks on both of its sides, also those before the tag that follows. The
induction over a list of trees therefore gives two statements at once: that the whole is read, blanks
in front included, and that it is read from its first bracket on if no text comes first.

Principal results: `completes_trees` — the induction; `assemble_text` — a whole text.
-/

namespace SvgTidy.Markup

/-- Reading the rest of a text, wherever it stands, ends with this document. -/
def Completes (s : Assembly) (text : List Char) (doc : Document) : Prop :=
  ∀ pos last, resume s ⟨text, pos, last⟩ = .ok doc

theorem startsMarkup_tagEnd (element : Element) (text : List Char) :
    StartsMarkup (Layout.tagEnd element ++ text) := by
  simp [StartsMarkup, Layout.tagEnd]

variable {s next : Assembly} {source rest : List Char} {doc : Document}

theorem completes_nil (h : s.opened = []) : Completes s [] s.doc := by
  intro pos last
  rw [resume_nil rfl, if_pos h]

theorem Completes.of_reads {token : Token → Prop} (h : Completes next rest doc)
    (hreads : Reads source token rest) (hne : source ≠ [])
    (hstep : ∀ t start stop, token t → s.step ⟨t, start, stop⟩ = .ok next) :
    Completes s source doc := by
  intro pos last
  obtain ⟨t, ⟨restAfter, posAfter, lastAfter⟩, hread, ht, rfl⟩ := hreads ⟨source, pos, last⟩ rfl
  rw [resume_token hne hread, hstep t _ _ ht]
  exact h posAfter lastAfter

/-! ## Tags of elements -/

/-- A name and a value as written, and the attribute they are read as. -/
def StandsFor (table : EntityTable) (spelling : List Char × List Char) (a : Attribute) : Prop :=
  spelling.1 = a.name.toList ∧ expand table spelling.2 = some a.value.toList

/-- A start tag that is read as an element. -/
structure StartTagText.Spells (t : StartTagText) (table : EntityTable) (element : Element) :
    Prop where
  name : t.name = element.name.toList
  isName : IsName t.name
  areNames : ∀ a ∈ t.attributes, IsName a.name
  attributes : ∃ all, List.Forall₂ (StandsFor table) (t.attributes.map (·.spelling)) all ∧
    .ofList all = element.attributes

namespace Layout

/-- An attribute as every layout writes it. -/
def attributeText (a : Attribute) : AttributeText where
  before := .single
  name := a.name.toList
  afterName := .none
  beforeValue := .none
  value := ⟨'"', escapeValue a.value.toList, .inl rfl, not_mem_escapeValue _⟩

/-- A start tag as every layout writes it. -/
def startTagText (element : Element) (selfClosing : Bool) : StartTagText where
  name := element.name.toList
  attributes := element.attributes.toList.map attributeText
  after := .none
  selfClosing

theorem chars_startTagText (element : Element) (selfClosing : Bool) :
    (startTagText element selfClosing).chars = Layout.tagHead element ++ tagClosing selfClosing := by
  have hattribute : AttributeText.chars ∘ attributeText = Layout.tagAttribute := by
    funext a
    simp [AttributeText.chars, attributeText, Literal.chars, Layout.tagAttribute, Space.none,
      Separator.single]
  simp [StartTagText.chars, startTagText, List.flatMap_map, ← hattribute, Layout.tagHead, Space.none,
    Function.comp_def]

theorem spells_startTagText {table : EntityTable} (h : table.KeepsPredefined) {element : Element}
    (hlegible : (NodeData.element element).Legible) (selfClosing : Bool) :
    (startTagText element selfClosing).Spells table element := by
  obtain ⟨hname, hattributes⟩ := hlegible
  refine ⟨rfl, hname, fun a ha => ?_, element.attributes.toList, ?_, Attributes.ofList_toList _⟩
  · obtain ⟨a, hmem, rfl⟩ := List.mem_map.mp ha
    exact hattributes a hmem
  · rw [startTagText, List.map_map, List.forall₂_map_left_iff]
    exact List.forall₂_same.mpr fun a _ => ⟨rfl, expand_escapeValue fun c _ _ => h.spares c⟩

/-- An end tag as every layout writes it. -/
def endTagText (element : Element) : EndTagText where
  name := element.name.toList
  after := .none

theorem chars_endTagText (element : Element) :
    (endTagText element).chars = Layout.tagEnd element := by
  simp [EndTagText.chars, endTagText, Layout.tagEnd, Space.none]

end Layout

/-! ## Steps of assembly -/

/-- The node that a run of text makes right below an element, if it makes one. -/
def textNodes (keeps : Bool) (text : List Char) : List Tree :=
  let kept := if keeps then text else Text.trim text
  if kept = [] then [] else [.node Document.root (.text (String.ofList kept)) []]

@[simp] theorem textNodes_nil (keeps : Bool) : textNodes keeps [] = [] := by
  cases keeps <;> rfl

namespace Assembly

theorem decodeAt_of_expand {raw decoded : List Char} (h : expand s.entities raw = some decoded)
    (pos : Position) : s.decodeAt raw pos = .ok decoded := by
  rw [decodeAt, decode, h]

theorem foldlM_takeAttribute {written : List RawAttribute} {attributes : List Attribute}
    (h : List.Forall₂ (StandsFor s.entities) (written.map (·.spelling)) attributes)
    (known : Attributes) :
    written.foldlM s.takeAttribute known = .ok (attributes.foldl Attributes.take known) := by
  induction written generalizing attributes known with
  | nil =>
    cases h
    rfl
  | cons raw written ih =>
    cases h with
    | cons hfirst hmore =>
      rename_i a attributes
      have hname : raw.name = a.name.toList := hfirst.1
      have hvalue : expand s.entities raw.value = some a.value.toList := hfirst.2
      have htake : s.takeAttribute known raw = .ok (known.take a) := by
        rw [takeAttribute, Attributes.take, hname, String.ofList_toList,
          decodeAt_of_expand hvalue raw.pos]
        split
        · rfl
        · simp only [String.ofList_toList]
      rw [List.foldlM_cons, htake, List.foldl_cons]
      exact ih hmore _

theorem startTag_spelled {element : Element} {attributes : List Attribute}
    (hfirst : .ofList attributes = element.attributes) {written : List RawAttribute}
    (h : List.Forall₂ (StandsFor s.entities) (written.map (·.spelling)) attributes) :
    s.startTag element.name.toList written false = .ok (s.descend element) ∧
      ∀ id, s.startTag element.name.toList written true =
        .ok (s.plantAll [.node id (.element element) []]) := by
  have hattributes : s.attributesOf written = .ok element.attributes := by
    rw [attributesOf_eq, foldlM_takeAttribute h, ← hfirst]
    rfl
  constructor
  · simp only [startTag, hattributes, String.ofList_toList]
    rfl
  · intro id
    simp only [startTag, hattributes, String.ofList_toList]
    rfl

/-- Blanks are dropped, unless the innermost open element keeps them. -/
theorem text_blank {parent : NodeData} (hwithin : s.Within parent)
    (hkeeps : parent.keepsSpace = false) {gap : List Char} (hgap : Text.Blank gap)
    (pos : Position) : s.text gap pos = .ok s := by
  have hdecode := decodeAt_of_expand (s := s) (expand_plain (hgap.not_mem (c := '&') (by decide))) pos
  unfold text
  cases parent with
  | element e =>
    obtain ⟨id, outer, hopened⟩ := hwithin
    simp only [hopened, hdecode, String.ofList_toList, Text.trim_blank hgap]
    rw [if_neg (by simpa [NodeData.keepsSpace] using hkeeps)]
  | _ =>
    have hopened : s.opened = [] := hwithin
    have hall : gap.all Text.isBlank = true := List.all_eq_true.mpr hgap
    simp only [hopened, hall, if_true]

/-- A run of text is taken in as the node that it makes. -/
theorem text_run {element : Element} (hwithin : s.Within (.element element))
    {raw decoded : List Char} (hdecode : expand s.entities raw = some decoded)
    (hsome : isTextElement element.name = true → decoded ≠ []) (pos : Position) :
    s.text raw pos = .ok (s.plantAll (textNodes (isTextElement element.name) decoded)) := by
  obtain ⟨open_, outer, hopened⟩ := hwithin
  have hdecode := decodeAt_of_expand hdecode pos
  unfold text
  cases hkeeps : isTextElement element.name with
  | true =>
    have hnodes : textNodes true decoded =
        [.node Document.root (.text (String.ofList decoded)) []] := if_neg (hsome hkeeps)
    simp only [hopened, hdecode, String.ofList_toList, hkeeps, if_true, hnodes]
    rfl
  | false =>
    simp only [hopened, hdecode, String.ofList_toList, hkeeps, Bool.false_eq_true, if_false]
    cases htrim : Text.trim decoded with
    | nil => simp [textNodes, htrim]
    | cons c others =>
      simp only [textNodes, htrim, Bool.false_eq_true, if_false, List.cons_ne_nil]
      rfl

/-- A text is taken in without the blanks around it, which are none if they would be kept. -/
theorem text_spelled {element : Element} (hwithin : s.Within (.element element))
    (hs : s.entities.KeepsPredefined) {value : String}
    (hadmits : (NodeData.element element).Admits (.text value)) (hvalue : value.toList ≠ [])
    {before after : List Char} (hbefore : Text.Blank before) (hafter : Text.Blank after)
    (hkeeps : isTextElement element.name = true → before = [] ∧ after = []) (pos : Position)
    (id : NodeId) :
    s.text (before ++ escapeText value.toList ++ after) pos =
      .ok (s.plantAll [.node id (.text value) []]) := by
  have hdecode : expand s.entities (before ++ escapeText value.toList ++ after) =
      some (before ++ value.toList ++ after) := by
    rw [List.append_assoc, expand_plain_append (hbefore.not_mem (c := '&') (by decide)),
      expand_escapeText fun c _ => hs.spares c, expand_plain (hafter.not_mem (c := '&') (by decide))]
    simp
  have hnodes : textNodes (isTextElement element.name) (before ++ value.toList ++ after) =
      [.node Document.root (.text value) []] := by
    unfold textNodes
    cases hkeep : isTextElement element.name with
    | true =>
      obtain ⟨rfl, rfl⟩ := hkeeps hkeep
      simp [hvalue]
    | false =>
      have htrimmed := hadmits.resolve_left (by rw [hkeep]; exact Bool.false_ne_true)
      simp only [Bool.false_eq_true, if_false, Text.trim_around hbefore hafter htrimmed, hvalue,
        String.ofList_toList]
  rw [text_run hwithin hdecode (fun _ => by simp [hvalue]) pos, hnodes]
  rfl

end Assembly

namespace Completes

variable {parent : NodeData}

/-- Blanks before markup are passed over, unless they would be kept. -/
theorem skip_blank (h : Completes s rest doc) (hwithin : s.Within parent) {gap : List Char}
    (hgap : Text.Blank gap) (hkeeps : parent.keepsSpace = true → gap = [])
    (hrest : StartsMarkup rest) : Completes s (gap ++ rest) doc := by
  by_cases hnil : gap = []
  · rwa [hnil, List.nil_append]
  · have hdropped : parent.keepsSpace = false := by
      rw [← Bool.not_eq_true]
      exact fun hk => hnil (hkeeps hk)
    refine h.of_reads (reads_text hnil (hgap.not_mem (by decide)) hrest) (by simp [hnil]) ?_
    rintro _ start stop rfl
    exact Assembly.text_blank hwithin hdropped hgap start

theorem text {element : Element} {value : String} {id : NodeId}
    (h : Completes (s.plantAll [.node id (.text value) []]) rest doc)
    (hwithin : s.Within (.element element)) (hs : s.entities.KeepsPredefined)
    (hadmits : (NodeData.element element).Admits (.text value)) (hvalue : value.toList ≠ [])
    {before after : List Char} (hbefore : Text.Blank before) (hafter : Text.Blank after)
    (hkeeps : isTextElement element.name = true → before = [] ∧ after = [])
    (hrest : StartsMarkup rest) :
    Completes s (before ++ escapeText value.toList ++ after ++ rest) doc := by
  have hescaped : escapeText value.toList ≠ [] := by
    obtain ⟨c, others, hc⟩ := List.exists_cons_of_ne_nil hvalue
    rw [hc, escapeText, List.flatMap_cons]
    unfold escapeChar
    split <;> simp
  have hbracket : '<' ∉ before ++ escapeText value.toList ++ after := by
    simp only [List.mem_append, not_or]
    exact ⟨⟨hbefore.not_mem (by decide), not_mem_escapeText _⟩, hafter.not_mem (by decide)⟩
  refine h.of_reads (reads_text (by simp [hescaped]) hbracket hrest) (by simp [hescaped]) ?_
  rintro _ start stop rfl
  exact Assembly.text_spelled hwithin hs hadmits hvalue hbefore hafter hkeeps start id

/-- A start tag, whatever makes up the content, and the end tag. -/
theorem tags {element : Element} {id : NodeId} {children : List Tree} {content : List Char}
    {opening : StartTagText} (closing : EndTagText)
    (h : Completes (s.plantAll [.node id (.element element) children]) rest doc)
    (hopening : opening.Spells s.entities element) (hpaired : opening.selfClosing = false)
    (hclosing : closing.name = element.name.toList)
    (hchildren : ∀ d ∈ children.map Tree.data, d.kind ≠ .doctype)
    (hcontent : Completes ((s.descend element).plantAll children) (closing.chars ++ rest) doc →
      Completes (s.descend element) content doc) :
    Completes s (opening.chars ++ content) doc := by
  have hisName : IsName element.name.toList := hopening.name ▸ hopening.isName
  have hend : Completes ((s.descend element).plantAll children) (closing.chars ++ rest) doc := by
    refine h.of_reads (reads_endTag closing (hclosing ▸ hisName)) (by simp [EndTagText.chars]) ?_
    rintro _ start stop rfl
    rw [← Assembly.plantAll_element s id element hchildren, hclosing]
    simp only [Assembly.step, Assembly.endTag, Assembly.plantAll, Assembly.descend, if_true]
  obtain ⟨all, hall, hfirst⟩ := hopening.attributes
  refine (hcontent hend).of_reads (reads_startTag opening hopening.isName hopening.areNames)
    (by simp [StartTagText.chars]) ?_
  rintro _ start stop ⟨written, rfl, hwritten⟩
  rw [hopening.name, hpaired]
  exact (Assembly.startTag_spelled hfirst (hwritten ▸ hall)).1

/-- A tag that closes itself. -/
theorem tag {element : Element} {id : NodeId} {opening : StartTagText}
    (h : Completes (s.plantAll [.node id (.element element) []]) rest doc)
    (hopening : opening.Spells s.entities element) (hclosed : opening.selfClosing = true) :
    Completes s (opening.chars ++ rest) doc := by
  obtain ⟨all, hall, hfirst⟩ := hopening.attributes
  refine h.of_reads (reads_startTag opening hopening.isName hopening.areNames)
    (by simp [StartTagText.chars]) ?_
  rintro _ start stop ⟨written, rfl, hwritten⟩
  rw [hopening.name, hclosed]
  exact (Assembly.startTag_spelled hfirst (hwritten ▸ hall)).2 id

theorem element {element : Element} {id : NodeId} {children : List Tree} {content : List Char}
    (h : Completes (s.plantAll [.node id (.element element) children]) rest doc)
    (hlegible : (NodeData.element element).Legible) (hs : s.entities.KeepsPredefined)
    (hchildren : ∀ d ∈ children.map Tree.data, (NodeData.element element).Admits d)
    (hcontent : Completes ((s.descend element).plantAll children)
      (Layout.tagEnd element ++ rest) doc → Completes (s.descend element) content doc) :
    Completes s (Layout.tagHead element ++ '>' :: content) doc := by
  have hread := h.tags (Layout.endTagText element) (Layout.spells_startTagText hs hlegible false)
    rfl rfl (Assembly.Ready.doctype_free hchildren) (by rwa [Layout.chars_endTagText])
  rw [Layout.chars_startTagText, List.append_assoc] at hread
  exact hread

theorem selfClosing {element : Element} {id : NodeId}
    (h : Completes (s.plantAll [.node id (.element element) []]) rest doc)
    (hlegible : (NodeData.element element).Legible) (hs : s.entities.KeepsPredefined) :
    Completes s (Layout.tagHead element ++ ("/>".toList ++ rest)) doc := by
  have hread := h.tag (Layout.spells_startTagText hs hlegible true) rfl
  rw [Layout.chars_startTagText, List.append_assoc] at hread
  exact hread

theorem comment {value : String} {id : NodeId}
    (h : Completes (s.plantAll [.node id (.comment value) []]) rest doc)
    (hvalue : Closed "--".toList value.toList) :
    Completes s ("<!--".toList ++ value.toList ++ "-->".toList ++ rest) doc := by
  refine h.of_reads (reads_comment hvalue) (by simp) ?_
  rintro _ start stop rfl
  simp only [Assembly.step, String.ofList_toList]
  rfl

theorem cdata {value : String} {id : NodeId}
    (h : Completes (s.plantAll [.node id (.cdata value) []]) rest doc)
    (hvalue : Closed "]]>".toList value.toList) :
    Completes s ("<![CDATA[".toList ++ value.toList ++ "]]>".toList ++ rest) doc := by
  refine h.of_reads (reads_cdata hvalue) (by simp) ?_
  rintro _ start stop rfl
  simp only [Assembly.step, String.ofList_toList]
  rfl

theorem instruction {i : Instruction} {id : NodeId} (gap : Space)
    (h : Completes (s.plantAll [.node id (.instruction i) []]) rest doc)
    (hlegible : (NodeData.instruction i).Legible) (hgap : i.value.toList ≠ [] → gap.chars ≠ []) :
    Completes s
      ("<?".toList ++ i.name.toList ++ gap.chars ++ i.value.toList ++ "?>".toList ++ rest) doc := by
  obtain ⟨hname, hchars, hspace, hbody⟩ := hlegible
  refine h.of_reads (reads_instruction gap hgap hname hchars hspace hbody) (by simp) ?_
  rintro _ start stop rfl
  simp only [Assembly.step, String.ofList_toList]
  rfl

/-- A node that is neither element nor text. -/
theorem leaf {data : NodeData} {id : NodeId}
    (h : Completes (s.plantAll [.node id data []]) rest doc) (hlegible : data.Legible)
    (hready : s.Ready parent [data]) (helement : data.kind ≠ .element) (htext : data.kind ≠ .text) :
    Completes s (Layout.leaf data ++ rest) doc := by
  cases data with
  | root => exact hlegible.elim
  | element _ => exact absurd rfl helement
  | text _ => exact absurd rfl htext
  | cdata value => exact h.cdata hlegible
  | comment value => exact h.comment hlegible
  | instruction i =>
    show Completes s ("<?".toList ++ i.name.toList
      ++ (if i.value = "" then [] else ' ' :: i.value.toList) ++ "?>".toList ++ rest) doc
    by_cases hempty : i.value = ""
    · have hread := h.instruction .none hlegible (by simp [hempty])
      simpa [hempty, Space.none] using hread
    · have hread := h.instruction Separator.single.toSpace hlegible (by simp [Separator.single])
      simpa [hempty, Separator.single] using hread
  | doctype value =>
    obtain ⟨-, hstage⟩ := hready.doctype value List.mem_cons_self
    show Completes s ("<!DOCTYPE".toList ++ value.toList ++ ['>'] ++ rest) doc
    refine h.of_reads (reads_doctype hlegible) (by simp) ?_
    rintro _ start stop rfl
    simp only [Assembly.step, Assembly.doctype, hstage, if_true, String.ofList_toList]
    rfl

end Completes

/-! ## The induction -/

/-- What a layout puts between nodes: blanks, and nothing where white space is kept. -/
structure Gap (verbatim : Bool) (gap : List Char) : Prop where
  blank : Text.Blank gap
  nil_of_verbatim : verbatim = true → gap = []

theorem Gap.nil (verbatim : Bool) : Gap verbatim [] :=
  ⟨.nil, fun _ => rfl⟩

theorem Gap.append {verbatim : Bool} {s t : List Char} (hs : Gap verbatim s) (ht : Gap verbatim t) :
    Gap verbatim (s ++ t) :=
  ⟨hs.blank.append ht.blank, fun h => by rw [hs.nil_of_verbatim h, ht.nil_of_verbatim h]; rfl⟩

theorem blank_chars (ending : LineEnding) : Text.Blank ending.chars := by
  have hall : ending.chars.all Text.isBlank = true := by cases ending <;> decide
  exact List.all_eq_true.mp hall

theorem gap_lineEnd (l : Layout) (verbatim : Bool) : Gap verbatim (l.lineEnd verbatim) := by
  constructor
  · intro c hc
    unfold Layout.lineEnd at hc
    split at hc
    · exact blank_chars _ c hc
    · simp at hc
  · rintro rfl
    simp [Layout.lineEnd]

section Induction

variable {l : Layout} (hindent : Text.Blank l.indent.unit)
include hindent

theorem gap_lineStart (verbatim : Bool) (depth : Nat) :
    Gap verbatim (l.lineStart verbatim depth) := by
  constructor
  · intro c hc
    unfold Layout.lineStart at hc
    split at hc
    · simp only [List.mem_flatten, List.mem_replicate] at hc
      obtain ⟨_, ⟨-, rfl⟩, hc⟩ := hc
      exact hindent c hc
    · simp at hc
  · rintro rfl
    simp [Layout.lineStart]

mutual

/-- After the indentation a tree begins with a bracket, and is read from there on. -/
theorem completes_tree : ∀ (t : Tree) {s : Assembly} {parent : NodeData} (verbatim : Bool)
    (depth : Nat) {rest : List Char} {doc : Document}, t.Readable → s.Ready parent [t.data] →
    t.data.kind ≠ .text →
    Completes (s.plantAll [t]) (l.lineEnd verbatim ++ rest) doc →
    ∃ inner, l.tree verbatim depth t rest = l.lineStart verbatim depth ++ '<' :: inner ∧
      Completes s ('<' :: inner) doc
  | .node id data children, s, parent, verbatim, depth, rest, doc, ht, hready, htext, h => by
    have ihAll := @completes_trees children
    obtain ⟨hfits, hspaced⟩ := ht.here
    have hlegible := hfits.legible
    have hadmits := hfits.admits
    cases data with
    | root => exact hlegible.elim
    | text _ => exact absurd rfl htext
    | element e =>
      cases children with
      | nil =>
        cases hshort : l.shortTags with
        | true =>
          have hread := h.selfClosing hlegible hready.entities
          refine ⟨_, ?_, hread⟩
          simp [Layout.tree, Layout.childless, hshort, Layout.tagHead]
        | false =>
          have hread := h.element hlegible hready.entities hadmits fun hend => hend
          refine ⟨_, ?_, hread⟩
          simp [Layout.tree, Layout.childless, hshort, Layout.tagHead, Layout.tagEnd]
      | cons child others =>
        have hinner := hready.enter hadmits
        have hread := h.element hlegible hready.entities hadmits fun hend =>
          (ihAll (verbatim || isTextElement e.name) (depth + 1) ht.children hinner hspaced
            (fun hkeeps => by simp [show isTextElement e.name = true from hkeeps])
            (gap_lineStart hindent (verbatim || isTextElement e.name) depth)
            (startsMarkup_tagEnd e _) hend).1 _ (gap_lineEnd l (verbatim || isTextElement e.name))
        refine ⟨_, ?_, hread⟩
        simp [Layout.tree, Layout.trees, Layout.tagHead, Layout.tagEnd]
    | _ =>
      obtain rfl : children = [] := List.map_eq_nil_iff.mp (hfits.eq_nil_of_leaf rfl)
      have hread := h.leaf hlegible hready nofun nofun
      exact ⟨_, List.append_assoc _ _ _, hread⟩

/-- Trees are read with any gap before them, and from the first bracket on if no text comes first. -/
theorem completes_trees : ∀ (trees : List Tree) {s : Assembly} {parent : NodeData} (verbatim : Bool)
    (depth : Nat) {tail rest : List Char} {doc : Document}, (∀ t ∈ trees, t.Readable) →
    s.Ready parent (trees.map Tree.data) → NodeData.Spaced (trees.map Tree.data) →
    (parent.keepsSpace = true → verbatim = true) → Gap verbatim tail → StartsMarkup rest →
    Completes (s.plantAll trees) rest doc →
    (∀ gap, Gap verbatim gap →
      Completes s (gap ++ l.trees verbatim depth trees (tail ++ rest)) doc) ∧
    ((∀ t, trees.head? = some t → t.data.kind ≠ .text) →
      ∃ gap inner, l.trees verbatim depth trees (tail ++ rest) = gap ++ inner ∧
        Gap verbatim gap ∧ StartsMarkup inner ∧ Completes s inner doc)
  | [], s, parent, verbatim, depth, tail, rest, doc, _, hready, _, hkeeps, htail, hrest, h => by
    refine ⟨fun gap hgap => ?_, fun _ => ⟨tail, rest, rfl, htail, hrest, h⟩⟩
    have hboth := hgap.append htail
    have hread := h.skip_blank hready.within hboth.blank
      (fun hk => hboth.nil_of_verbatim (hkeeps hk)) hrest
    rwa [List.append_assoc] at hread
  | t :: others, s, parent, verbatim, depth, tail, rest, doc, hall, hready, hspaced, hkeeps, htail,
      hrest, h => by
    have ht := hall t List.mem_cons_self
    obtain ⟨hapart, hspaced⟩ := List.isChain_cons.mp hspaced
    obtain ⟨hwhole, hmarkup⟩ := completes_trees others verbatim depth
      (fun x hx => hall x (List.mem_cons_of_mem _ hx)) hready.next hspaced hkeeps htail hrest h
    by_cases htext : t.data.kind = .text
    · refine ⟨fun gap hgap => ?_, fun hhead => absurd htext (hhead t rfl)⟩
      -- the text takes in the blanks up to the markup after it
      obtain ⟨after, inner, hinner, hafter, hstarts, hread⟩ := hmarkup fun x hx =>
        (hapart x.data (by rw [List.head?_map, hx]; rfl)).resolve_left (not_not.mpr htext)
      obtain ⟨hfits, -⟩ := ht.here
      obtain ⟨id, data, children⟩ := t
      cases data with
      | text value =>
        obtain rfl : children = [] := List.map_eq_nil_iff.mp (hfits.eq_nil_of_leaf rfl)
        have hadmits := hready.admits (.text value) List.mem_cons_self
        have hbefore := hgap.append (gap_lineStart hindent verbatim depth)
        have hbehind := (gap_lineEnd l verbatim).append hafter
        cases parent with
        | element e =>
          have hread := hread.text hready.within hready.entities hadmits hfits.legible
            hbefore.blank hbehind.blank (fun hk => ⟨hbefore.nil_of_verbatim (hkeeps hk),
              hbehind.nil_of_verbatim (hkeeps hk)⟩) hstarts
          have htree : l.trees verbatim depth (.node id (.text value) [] :: others) (tail ++ rest) =
              l.lineStart verbatim depth ++ escapeText value.toList ++
                (l.lineEnd verbatim ++ (after ++ inner)) := by
            rw [Layout.trees, hinner]
            rfl
          rw [htree]
          simpa using hread
        | _ => exact hadmits.elim
      | _ => cases htext
    · obtain ⟨inner, hinner, hread⟩ := completes_tree t verbatim depth ht hready.first htext
        (hwhole _ (gap_lineEnd l verbatim))
      have hstart := gap_lineStart hindent verbatim depth
      refine ⟨fun gap hgap => ?_, fun _ => ⟨_, _, hinner, hstart, startsMarkup_cons _, hread⟩⟩
      have hboth := hgap.append hstart
      have hread := hread.skip_blank hready.within hboth.blank
        (fun hk => hboth.nil_of_verbatim (hkeeps hk)) (startsMarkup_cons _)
      rwa [List.append_assoc, ← hinner] at hread

end

end Induction

/-! ## A whole text -/

/-- What it takes for trees to be read from the top level of a text: they fit, the first doctype comes
first, and no doctype redeclares a predefined entity. -/
structure ReadableForest (trees : List Tree) : Prop where
  readable : ∀ t ∈ trees, t.Readable
  admits : ∀ data ∈ trees.map Tree.data, NodeData.root.Admits data
  order : NodeData.DoctypeFirst (trees.map Tree.data)
  keeps : ∀ body, .doctype body ∈ trees.map Tree.data →
    EntityTable.KeepsPredefined (.ofDoctype body.toList)

theorem ReadableForest.ready {trees : List Tree} (h : ReadableForest trees) :
    Assembly.start.Ready .root (trees.map Tree.data) :=
  ⟨rfl, h.admits, nofun, fun body hbody => ⟨h.keeps body hbody, rfl⟩, h.order⟩

theorem ReadableForest.text_free {trees : List Tree} (h : ReadableForest trees) :
    ∀ data ∈ trees.map Tree.data, data.kind ≠ .text := by
  intro data hdata hkind
  have := h.admits data hdata
  cases data with
  | text _ => exact this
  | _ => cases hkind

mutual

theorem tree_append (l : Layout) : ∀ (t : Tree) (verbatim : Bool) (depth : Nat)
    (first rest : List Char), l.tree verbatim depth t (first ++ rest) =
      l.tree verbatim depth t first ++ rest
  | .node _ data children, verbatim, depth, first, rest => by
    have ih := @trees_append l children
    cases data with
    | root => rfl
    | element e =>
      cases children with
      | nil => simp [Layout.tree]
      | cons child others =>
        simp only [Layout.trees] at ih
        simp only [Layout.tree, List.append_assoc, List.cons_append, ← ih]
    | _ => simp [Layout.tree]

theorem trees_append (l : Layout) : ∀ (trees : List Tree) (verbatim : Bool) (depth : Nat)
    (first rest : List Char), l.trees verbatim depth trees (first ++ rest) =
      l.trees verbatim depth trees first ++ rest
  | [], _, _, _, _ => rfl
  | t :: others, verbatim, depth, first, rest => by
    rw [Layout.trees, trees_append l others, tree_append l t]
    rfl

end

theorem ofText_eq {text : List Char} (h : text.head? ≠ some '\uFEFF') :
    Cursor.ofText text = ⟨text, .start, .start⟩ := by
  unfold Cursor.ofText
  split
  · exact absurd rfl h
  · rfl

/-- **Reading undoes writing.** Trees that fit are read from the text that any layout with blank
indentation writes for them, and the document holds them in document order. -/
theorem assemble_text {l : Layout} (hindent : Text.Blank l.indent.unit) {trees : List Tree}
    (h : ReadableForest trees) : assemble (l.text trees) = .ok (Document.ofForest trees) := by
  obtain ⟨tail, htail, htext⟩ : ∃ tail : List Char, Text.Blank tail ∧
      l.text trees = l.trees false 0 trees (tail ++ []) := by
    unfold Layout.text
    simp only
    split
    · refine ⟨l.lineEnding.chars, blank_chars _, ?_⟩
      rw [List.append_nil, ← List.nil_append l.lineEnding.chars, trees_append, List.nil_append]
    · exact ⟨[], .nil, rfl⟩
  have hspaced : NodeData.Spaced (trees.map Tree.data) :=
    (List.pairwise_of_forall_mem_list fun a ha _ _ => .inl (h.text_free a ha)).isChain
  obtain ⟨hwhole, hmarkup⟩ := completes_trees hindent trees false 0 h.readable h.ready hspaced
    (fun hk => by cases hk) ⟨htail, fun hk => by cases hk⟩ startsMarkup_nil (completes_nil rfl)
  have hread := hwhole [] (.nil false)
  obtain ⟨gap, inner, hinner, hgap, hstarts, -⟩ := hmarkup fun t ht =>
    h.text_free t.data (List.mem_map_of_mem (List.mem_of_head? ht))
  have hhead : (l.text trees).head? ≠ some '\uFEFF' := by
    rw [htext, hinner, List.head?_append]
    cases hfirst : gap.head? with
    | some c =>
      rintro heq
      cases heq
      exact absurd (hgap.blank _ (List.mem_of_head? hfirst)) (by decide)
    | none =>
      intro heq
      exact absurd (hstarts _ heq) (by decide)
  rw [resume_ofText, ofText_eq hhead, htext]
  exact hread _ _

end SvgTidy.Markup
