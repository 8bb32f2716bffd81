import SvgTidy.Proofs.Content

/-!
# Reading does not depend on the form

Whatever way a forest of valid content is written, reading it succeeds and gives the document of its
normal form. The induction runs over the content. Below an element it carries the text that has been
written since the last bracket, because only there it becomes a node, and then as a whole.

Principal results: `completes_content`, `completes_contents` — one piece of content, and several below
an element; `read_rendered` — a whole text.
-/

namespace SvgTidy

namespace Markup

theorem Space.blank (space : Space) : Text.Blank space.chars := by
  intro c hc
  have hspace := space.isSpace c hc
  simp only [Markup.isSpace, Bool.or_eq_true, beq_iff_eq] at hspace
  rcases hspace with ((rfl | rfl) | rfl) | rfl <;> decide

variable {table : EntityTable}

theorem areNames_of_writes {texts : List AttributeText} {attributes : List Attribute}
    (hwritten : List.Forall₂ Content.WritesAttribute texts attributes)
    (hnames : ∀ a ∈ attributes, IsName a.name.toList) : ∀ t ∈ texts, IsName t.name := by
  induction hwritten with
  | nil => nofun
  | cons hfirst _ ih =>
    intro t ht
    rcases List.mem_cons.mp ht with rfl | ht
    · rw [hfirst.1]
      exact hnames _ List.mem_cons_self
    · exact ih (fun a ha => hnames a (List.mem_cons_of_mem _ ha)) t ht

/-- A start tag written for a name and attributes is read as the element that has them. -/
theorem spells_of_writes (hs : table.KeepsPredefined) {opening : StartTagText} {name : String}
    {attributes : List Attribute} (hname : IsName name.toList)
    (hnames : ∀ a ∈ attributes, IsName a.name.toList) (hopening : opening.name = name.toList)
    (hwritten : List.Forall₂ Content.WritesAttribute opening.attributes attributes) :
    opening.Spells table { name, attributes := .ofList attributes } := by
  refine ⟨hopening, hopening ▸ hname, areNames_of_writes hwritten hnames, attributes, ?_, rfl⟩
  rw [List.forall₂_map_left_iff]
  exact hwritten.imp fun _ _ hwrites => ⟨hwrites.1, hwrites.2.expand_eq hs⟩

theorem Completes.run {s : Assembly} {element : Element} {pending raw rest : List Char}
    {doc : Document}
    (h : Completes (s.plantAll (textNodes (isTextElement element.name) pending)) rest doc)
    (hwithin : s.Within (.element element)) (hs : s.entities.KeepsPredefined)
    (hraw : Spells '<' pending raw) (hrest : StartsMarkup rest) : Completes s (raw ++ rest) doc := by
  by_cases hnil : raw = []
  · rw [hraw.eq_nil_iff.mp hnil, textNodes_nil] at h
    rwa [hnil]
  · refine h.of_reads (reads_text hnil hraw.not_mem_bracket hrest) (by simp [hnil]) ?_
    rintro _ start stop rfl
    exact Assembly.text_run hwithin (hraw.expand_eq hs) (fun _ => mt hraw.eq_nil_iff.mpr hnil) start

/-- Trees without a doctype leave the entities as they are. -/
theorem Assembly.keepsPredefined_plantAll {s : Assembly} (hs : s.entities.KeepsPredefined)
    {trees : List Tree} (h : ∀ t ∈ trees, t.data.kind ≠ .doctype) :
    (s.plantAll trees).entities.KeepsPredefined := by
  have hentities : (s.plantAll trees).entities = s.entities := by
    refine foldl_entitiesAfter (fun d hd => ?_) s.entities
    obtain ⟨t, ht, rfl⟩ := List.mem_map.mp hd
    exact h t ht
  rwa [hentities]

theorem Content.kind_singleton (c : Content) : ∀ t ∈ [c.normal], t.data.kind ≠ .doctype := by
  intro t ht
  rw [List.mem_singleton.mp ht]
  exact c.kind_normal

/-! ## The induction -/

mutual

/-- A piece of content is read wherever it stands. Text is not, because what it makes depends on the
text around it. -/
theorem completes_content : ∀ (c : Content) {s : Assembly} {source rest : List Char}
    {doc : Document}, c.Valid → c.isText = false → s.entities.KeepsPredefined → c.Renders source →
    Completes (s.plantAll [c.normal]) rest doc → Completes s (source ++ rest) doc
  | .element name attributes children, s, source, rest, doc, hvalid, _, hs, hsource, h => by
    have ihAll := @completes_contents children
    obtain ⟨opening, hopening, hwritten, hform⟩ := hsource
    cases hvalid with
    | element hname hnames hchildren =>
      have hspells := spells_of_writes hs hname hnames hopening hwritten
      rw [Content.normal] at h
      rcases hform with ⟨hclosed, rfl, rfl⟩ | ⟨hpaired, inner, closing, hinner, hclosing, rfl⟩
      · rw [Content.normalAll, textNodes_nil] at h
        exact h.tag hspells hclosed
      · have hfree : ∀ d ∈ (Content.normalAll (isTextElement name) [] children).map Tree.data,
            d.kind ≠ .doctype := by
          intro d hd
          obtain ⟨t, ht, rfl⟩ := List.mem_map.mp hd
          exact Content.kind_normalAll _ _ _ t ht
        have hread := h.tags closing hspells hpaired hclosing hfree fun hend =>
          ihAll hchildren ⟨_, _, rfl⟩ hs .nil hinner (by simp [StartsMarkup, EndTagText.chars]) hend
        simpa only [List.append_assoc, List.nil_append] using hread
  | .text _, _, _, _, _, _, htext, _, _, _ => by cases htext
  | .comment value, s, source, rest, doc, hvalid, _, hs, hsource, h => by
    cases hvalid with
    | comment hbody hend =>
      rw [Content.normal] at h
      rw [show source = _ from hsource]
      exact h.comment ((closed_comment_iff _).mpr ⟨hbody, hend⟩)
  | .cdata value, s, source, rest, doc, hvalid, _, hs, hsource, h => by
    cases hvalid with
    | cdata hbody =>
      rw [Content.normal] at h
      rw [show source = _ from hsource]
      exact h.cdata ((closed_cdata_iff _).mpr hbody)
  | .instruction i, s, source, rest, doc, hvalid, _, hs, hsource, h => by
    obtain ⟨gap, hgap, rfl⟩ := hsource
    cases hvalid with
    | instruction hname hchars hbody hstart =>
      rw [Content.normal] at h
      refine h.instruction gap ⟨hname, fun c hc => ?_, hstart, (closed_instruction_iff _).mpr hbody⟩
        hgap
      obtain ⟨hspace, hmark⟩ := hchars c hc
      simp [Cursor.isInstructionNameChar, hspace, hmark]

/-- Pieces of content below an element are read with the text that came right before them. -/
theorem completes_contents : ∀ (contents : List Content) {s : Assembly} {element : Element}
    {pending raw source rest : List Char} {doc : Document}, (∀ c ∈ contents, c.Valid) →
    s.Within (.element element) → s.entities.KeepsPredefined → Spells '<' pending raw →
    Content.RendersAll contents source → StartsMarkup rest →
    Completes (s.plantAll (Content.normalAll (isTextElement element.name) pending contents))
      rest doc →
    Completes s (raw ++ (source ++ rest)) doc
  | [], s, element, pending, raw, source, rest, doc, _, hwithin, hs, hraw, hsource, hrest, h => by
    obtain rfl : source = [] := hsource
    rw [Content.normalAll] at h
    exact h.run hwithin hs hraw hrest
  | c :: others, s, element, pending, raw, source, rest, doc, hvalid, hwithin, hs, hraw, hsource,
      hrest, h => by
    have ih := @completes_content c
    obtain ⟨first, more, hfirst, hmore, rfl⟩ := hsource
    have hothers : ∀ x ∈ others, x.Valid := fun x hx => hvalid x (List.mem_cons_of_mem _ hx)
    cases htext : c.isText with
    | true =>
      cases c with
      | text value =>
        rw [Content.normalAll] at h
        have hread := completes_contents others hothers hwithin hs (hraw.append hfirst) hmore hrest h
        simpa only [List.append_assoc] using hread
      | _ => cases htext
    | false =>
      rw [Content.normalAll_cons htext, Assembly.plantAll_append, ← List.singleton_append,
        Assembly.plantAll_append] at h
      have hsRun : (s.plantAll
          (textNodes (isTextElement element.name) pending)).entities.KeepsPredefined :=
        Assembly.keepsPredefined_plantAll hs fun t ht => by
          rw [Content.kind_textNodes t ht]
          nofun
      have hsNode := Assembly.keepsPredefined_plantAll hsRun (Content.kind_singleton c)
      have hbehind := completes_contents others hothers ((hwithin.plantAll _).plantAll _) hsNode .nil
        hmore hrest h
      have hread := ih (hvalid c List.mem_cons_self) htext hsRun hfirst hbehind
      obtain ⟨tail, htail⟩ := hfirst.bracket htext
      have hstarts : StartsMarkup (first ++ ([] ++ (more ++ rest))) := by
        rw [htail]
        exact startsMarkup_cons _
      simpa only [List.append_assoc, List.nil_append] using hread.run hwithin hs hraw hstarts

end

/-- Pieces of content at the top level are read with the space between them. -/
theorem completes_forest {forest : List Content} (hvalid : ∀ c ∈ forest, c.Valid)
    (htop : ∀ c ∈ forest, c.isText = false) {s : Assembly} (hwithin : s.Within .root)
    (hs : s.entities.KeepsPredefined) {source : List Char}
    (h : Content.RendersForest forest source) :
    Completes s source (s.plantAll (Content.normalAll false [] forest)).doc := by
  induction forest generalizing s source with
  | nil =>
    obtain ⟨space, rfl⟩ := h
    have hread := (completes_nil hwithin).skip_blank hwithin space.blank nofun startsMarkup_nil
    simpa [Content.normalAll] using hread
  | cons c others ih =>
    obtain ⟨space, first, more, hfirst, hmore, rfl⟩ := h
    have htext := htop c List.mem_cons_self
    have hsNode := Assembly.keepsPredefined_plantAll hs (Content.kind_singleton c)
    have hbehind := ih (fun x hx => hvalid x (List.mem_cons_of_mem _ hx))
      (fun x hx => htop x (List.mem_cons_of_mem _ hx)) (hwithin.plantAll _) hsNode hmore
    have hread := completes_content c (hvalid c List.mem_cons_self) htext hs hfirst hbehind
    obtain ⟨tail, htail⟩ := hfirst.bracket htext
    have hstarts : StartsMarkup (first ++ more) := by
      rw [htail]
      exact startsMarkup_cons _
    have hwhole := hread.skip_blank hwithin space.blank nofun hstarts
    rw [← Assembly.plantAll_append] at hwhole
    rw [Content.normalAll_cons htext, textNodes_nil]
    exact hwhole

/-- No byte order mark is taken for the space or the bracket that comes first. -/
theorem head?_of_rendersForest {forest : List Content} (htop : ∀ c ∈ forest, c.isText = false)
    {source : List Char} (h : Content.RendersForest forest source) :
    source.head? ≠ some '\uFEFF' := by
  have hspaced (space : Space) {b : List Char} (hb : b.head? ≠ some '\uFEFF') :
      (space.chars ++ b).head? ≠ some '\uFEFF' := by
    cases hfirst : space.chars with
    | nil => exact hb
    | cons c others =>
      intro hmark
      cases hmark
      exact absurd (space.isSpace _ (hfirst ▸ List.mem_cons_self)) (by decide)
  cases forest with
  | nil =>
    obtain ⟨space, rfl⟩ := h
    have hmark := hspaced space (b := []) nofun
    rwa [List.append_nil] at hmark
  | cons c others =>
    obtain ⟨space, first, more, hfirst, -, rfl⟩ := h
    obtain ⟨tail, rfl⟩ := hfirst.bracket (htop c List.mem_cons_self)
    exact hspaced space nofun

end Markup

namespace Document

open Markup

/-- **Reading does not depend on the form.** A forest of valid content, without text at the top level,
is read from whatever is written for it, and gives the document of its normal form. -/
theorem read_rendered {forest : List Content} (hvalid : ∀ c ∈ forest, c.Valid)
    (htop : ∀ c ∈ forest, c.isText = false) {source : String}
    (h : Content.RendersForest forest source.toList) (path : Option String) :
    read source path = .ok (.ofForest (Content.normalAll false [] forest)) := by
  refine read_of_assemble ?_ path
  have hread := completes_forest hvalid htop (s := .start) rfl nofun h
  rw [resume_ofText, ofText_eq (head?_of_rendersForest htop h)]
  exact hread _ _

/-- A group with an attribute given twice and two texts side by side. -/
def spacedGroup : Content :=
  .element "g" [⟨"x", "<"⟩, ⟨"x", "2"⟩] [.text "A", .text " &\n", .element "b" [] []]

theorem valid_spacedGroup : spacedGroup.Valid := by
  have hname {first : Char} (hfirst : isNameStart first = true) : IsName [first] :=
    ⟨first, [], rfl, hfirst, fun _ hc => absurd hc List.not_mem_nil⟩
  have hleaf : (Content.element "b" [] []).Valid :=
    .element (hname (by decide)) (fun _ h => absurd h List.not_mem_nil)
      fun _ h => absurd h List.not_mem_nil
  refine .element (hname (by decide)) ?_ ?_
  · simpa using hname (by decide)
  · simpa using ⟨.text _, .text _, hleaf⟩

/-- One way to write it, with a reference in base sixteen, one in base ten and one by name. -/
theorem renders_spacedGroup : Content.RendersForest [spacedGroup]
    "\n<g\tx = '&#x3C;' x=\"2\" >&#065; &amp;\n<b /></g >".toList := by
  have hone {c : Char} (hc : isSpace c = true) : ∀ x ∈ [c], isSpace x = true := by simpa using hc
  have hthree : IsDigit 16 3 '3' := ⟨by decide, .inl rfl⟩
  have htwelve : IsDigit 16 12 'C' := ⟨by decide, .inr rfl⟩
  have hzero : IsDigit 10 0 '0' := ⟨by decide, .inl rfl⟩
  have hsix : IsDigit 10 6 '6' := ⟨by decide, .inl rfl⟩
  have hfive : IsDigit 10 5 '5' := ⟨by decide, .inl rfl⟩
  have hbracket : Numeral 16 '<'.toNat ['3', 'C'] := .snoc (.digit hthree) htwelve
  have hsingle : Spells '\'' ['<'] "&#x3C;".toList :=
    .cons (.hexadecimal (by decide) hbracket) .nil
  have hdouble : Spells '"' ['2'] ['2'] := .cons (.literal (by decide) (by decide)) .nil
  have hcode : Numeral 10 'A'.toNat ['0', '6', '5'] := .snoc (.snoc (.digit hzero) hsix) hfive
  have hletter : Spells '<' ['A'] "&#065;".toList := .cons (.decimal (by decide) hcode) .nil
  have hampersand : Spelled '<' '&' "&amp;".toList :=
    .predefined (by decide : ("amp".toList, ['&']) ∈ EntityTable.predefined)
  have hsecond : Spells '<' [' ', '&', '\n'] " &amp;\n".toList :=
    .cons (.literal (by decide) (by decide))
      (.cons hampersand (.cons (.literal (by decide) (by decide)) .nil))
  let blank : Space := ⟨[' '], hone (by decide)⟩
  let single : AttributeText := ⟨⟨⟨['\t'], hone (by decide)⟩, nofun⟩, ['x'], blank, blank,
    ⟨'\'', "&#x3C;".toList, .inr rfl, by decide⟩⟩
  let double : AttributeText := ⟨.single, ['x'], .none, .none, ⟨'"', ['2'], .inl rfl, by decide⟩⟩
  have hleaf : (Content.element "b" [] []).Renders "<b />".toList :=
    ⟨⟨['b'], [], blank, true⟩, rfl, .nil, .inl ⟨rfl, rfl, rfl⟩⟩
  have hinside : Content.RendersAll [.text "A", .text " &\n", .element "b" [] []]
      "&#065; &amp;\n<b />".toList :=
    ⟨_, _, hletter, ⟨_, _, hsecond, ⟨_, _, hleaf, rfl, rfl⟩, rfl⟩, rfl⟩
  have hgroup : spacedGroup.Renders
      "<g\tx = '&#x3C;' x=\"2\" >&#065; &amp;\n<b /></g >".toList :=
    ⟨⟨['g'], [single, double], blank, false⟩, rfl, .cons ⟨rfl, hsingle⟩ (.cons ⟨rfl, hdouble⟩ .nil),
      .inr ⟨rfl, _, ⟨['g'], blank⟩, hinside, rfl, rfl⟩⟩
  exact ⟨⟨['\n'], hone (by decide)⟩, _, [], hgroup, ⟨.none, rfl⟩, rfl⟩

theorem read_rendered_spacedGroup :
    (∀ c ∈ [spacedGroup], c.Valid) ∧ (∀ c ∈ [spacedGroup], c.isText = false) ∧
      Content.RendersForest [spacedGroup]
        "\n<g\tx = '&#x3C;' x=\"2\" >&#065; &amp;\n<b /></g >".toList ∧
      read "\n<g\tx = '&#x3C;' x=\"2\" >&#065; &amp;\n<b /></g >" none =
        .ok (.ofForest (Content.normalAll false [] [spacedGroup])) := by
  have hvalid : ∀ c ∈ [spacedGroup], c.Valid := by simpa using valid_spacedGroup
  have htop : ∀ c ∈ [spacedGroup], c.isText = false := by simp [spacedGroup, Content.isText]
  exact ⟨hvalid, htop, renders_spacedGroup, read_rendered hvalid htop renders_spacedGroup none⟩

end Document

end SvgTidy
