import SvgTidy.Proofs.ReadableTrees
import SvgTidy.Proofs.ReadingSteps
import SvgTidy.Proofs.TrimmedTexts

/-!
# What reading can give

A document that was read holds trees that can be written: planted in document order, with names and
bodies that fit, texts trimmed where they would be trimmed again, and no two of them side by side.
`Growing` follows the open elements, innermost first, each with the trees it holds so far; a start tag
pushes one, an end tag closes the innermost into the one around it.

Principal results: `Growing.leaf`, `Growing.push`, `Growing.close` — the three ways of growing;
`exists_forest_of_assemble` — the document that a text gives is planted from trees that fit.
-/

namespace SvgTidy.Markup

/-- Trees that fit below a node, in an order that reading can give. -/
structure Rows (parent : NodeData) (trees : List Tree) : Prop where
  readable : ∀ t ∈ trees, t.Readable
  admits : ∀ data ∈ trees.map Tree.data, parent.Admits data
  spaced : NodeData.Spaced (trees.map Tree.data)
  order : NodeData.DoctypeFirst (trees.map Tree.data)

namespace Rows

variable {parent : NodeData} {trees : List Tree}

theorem nil (parent : NodeData) : Rows parent [] :=
  ⟨nofun, nofun, .nil, .nil⟩

theorem concat (h : Rows parent trees) {t : Tree} (ht : t.Readable) (hadmits : parent.Admits t.data)
    (htext : t.data.kind = .text → ∀ last, trees.getLast? = some last → last.data.kind ≠ .text)
    (hdoctype : t.data.kind = .doctype →
      ∀ data ∈ trees.map Tree.data, data.kind ≠ .element ∧ data.kind ≠ .doctype) :
    Rows parent (trees ++ [t]) := by
  refine ⟨fun x hx => ?_, fun data hdata => ?_, ?_, ?_⟩
  · rcases List.mem_append.mp hx with hx | hx
    · exact h.readable x hx
    · exact List.mem_singleton.mp hx ▸ ht
  · rw [List.map_append] at hdata
    rcases List.mem_append.mp hdata with hdata | hdata
    · exact h.admits data hdata
    · exact List.mem_singleton.mp hdata ▸ hadmits
  · rw [List.map_append]
    refine h.spaced.append (List.isChain_singleton _) fun last hlast first hfirst => ?_
    cases hfirst
    by_cases hkind : t.data.kind = .text
    · rw [List.getLast?_map] at hlast
      obtain ⟨tree, htree, rfl⟩ := Option.map_eq_some_iff.mp hlast
      exact .inl (htext hkind tree htree)
    · exact .inr hkind
  · rw [List.map_append]
    refine List.pairwise_append.mpr ⟨h.order, List.pairwise_singleton _ _, fun a ha b hb hkind => ?_⟩
    cases List.mem_singleton.mp hb
    exact hdoctype hkind a ha

end Rows

/-- The node that takes in what comes next, the open elements being given. -/
def currentOf : List OpenElement → NodeId
  | [] => Document.root
  | element :: _ => element.id

/-- The document so far, from the open elements: the payload of the innermost and the trees right
below it. -/
inductive Growing : List OpenElement → Document → NodeData → List Tree → Prop where
  | top {trees : List Tree} (h : Rows .root trees) : Growing [] (.ofForest trees) .root trees
  | inner {outer : List OpenElement} {before : Document} {around : NodeData} {siblings : List Tree}
      {element : Element} {trees : List Tree} (houter : Growing outer before around siblings)
      (hlegible : (NodeData.element element).Legible) (h : Rows (.element element) trees) :
      Growing (⟨before.fresh, element.name.toList⟩ :: outer)
        ((before.grow (currentOf outer) (.element element)).plantAll before.fresh trees)
        (.element element) trees

namespace Growing

variable {opened : List OpenElement} {doc : Document} {parent : NodeData} {trees : List Tree}

theorem rows (h : Growing opened doc parent trees) : Rows parent trees := by
  cases h with
  | top h => exact h
  | inner _ _ h => exact h

theorem admits_section (h : Growing opened doc parent trees) {data : NodeData}
    (htext : data.kind ≠ .text) (hdoctype : data.kind ≠ .doctype) : parent.Admits data := by
  cases h <;> cases data <;> trivial

theorem eq_ofForest (h : Growing [] doc parent trees) :
    parent = .root ∧ doc = .ofForest trees := by
  cases h with
  | top _ => exact ⟨rfl, rfl⟩

/-- A node without children is the last one below the innermost open element. -/
theorem leaf (h : Growing opened doc parent trees) {data : NodeData}
    (hrows : Rows parent (trees ++ [.node (currentOf opened) data []])) :
    Growing opened (doc.grow (currentOf opened) data) parent
      (trees ++ [.node (currentOf opened) data []]) := by
  cases h with
  | top _ =>
    rw [currentOf, Document.ofForest, ← Document.plantAll_leaf _ Document.root]
    exact .top hrows
  | inner houter hlegible _ =>
    rw [currentOf, ← Document.plantAll_leaf]
    exact .inner houter hlegible hrows

theorem push (h : Growing opened doc parent trees) {element : Element}
    (hlegible : (NodeData.element element).Legible) :
    Growing (⟨doc.fresh, element.name.toList⟩ :: opened)
      (doc.grow (currentOf opened) (.element element)) (.element element) [] :=
  .inner h hlegible (.nil _)

theorem close {o : OpenElement} {outer : List OpenElement}
    (h : Growing (o :: outer) doc parent trees) :
    ∃ around siblings element, parent = .element element ∧ o.name = element.name.toList ∧
      Growing outer doc around (siblings ++ [.node o.id parent trees]) := by
  cases h with
  | inner houter hlegible hrows =>
    rename_i before around siblings element
    have hreadable : (Tree.node before.fresh (.element element) trees).Readable :=
      .node ⟨⟨hlegible, hrows.admits⟩, hrows.spaced⟩ hrows.readable
    have hsiblings : Rows around (siblings ++ [.node before.fresh (.element element) trees]) :=
      houter.rows.concat hreadable (houter.admits_section nofun nofun) nofun nofun
    refine ⟨around, siblings, element, rfl, rfl, ?_⟩
    cases houter with
    | top _ =>
      have := Growing.top hsiblings
      rw [Document.ofForest, Document.plantAll_append] at this
      exact this
    | inner houter hlegible _ =>
      have := Growing.inner houter hlegible hsiblings
      rw [Document.plantAll_append] at this
      exact this

end Growing

/-! ## Decoded text is not empty -/

/-- No name stands for nothing at all. -/
def EntityTable.Substantial (table : EntityTable) : Prop :=
  ∀ entry ∈ table, entry.2 ≠ []

theorem EntityTable.value_ne_nil_of_declaration? {text rest : List Char}
    {entry : List Char × List Char} (h : declaration? text = some (entry, rest)) :
    entry.2 ≠ [] := by
  unfold declaration? at h
  simp only at h
  split at h
  · split at h
    · cases h
    · split at h
      · cases h
      · split at h
        · split at h
          · rename_i hwell
            cases h
            exact hwell.2.1
          · cases h
        · cases h
  · cases h

theorem EntityTable.substantial_declarations (text : List Char) :
    Substantial (declarations text) := by
  fun_induction declarations text with
  | case1 text entry rest h _ ih =>
    intro x hx
    rcases List.mem_cons.mp hx with rfl | hx
    · exact value_ne_nil_of_declaration? h
    · exact ih x hx
  | case2 => exact nofun
  | case3 _ _ _ ih => exact ih

theorem EntityTable.substantial_ofDoctype (body : List Char) : Substantial (ofDoctype body) :=
  fun entry hentry => substantial_declarations _ entry (List.mem_reverse.mp hentry)

theorem replacement?_ne_nil {table : EntityTable} (htable : table.Substantial) {name : List Char}
    {replaced : List Char} (h : replacement? table name = some replaced) : replaced ≠ [] := by
  unfold replacement? at h
  split at h
  · obtain ⟨c, -, rfl⟩ := Option.map_eq_some_iff.mp h
    exact List.cons_ne_nil _ _
  · have hpredefined : ∀ entry ∈ EntityTable.predefined, entry.2 ≠ [] := by
      decide
    obtain ⟨l, r, hsplit, -⟩ := List.lookup_eq_some_iff.mp h
    have hmem : (name, replaced) ∈ table ++ EntityTable.predefined := by
      rw [hsplit]
      simp
    rcases List.mem_append.mp hmem with hmem | hmem
    · exact htable _ hmem
    · exact hpredefined _ hmem

theorem expand_ne_nil {table : EntityTable} (htable : table.Substantial) {raw text : List Char}
    (hraw : raw ≠ []) (h : expand table raw = some text) : text ≠ [] := by
  unfold expand at h
  split at h
  · exact absurd rfl hraw
  · split at h
    · split at h
      · rename_i hreplaced _
        cases h
        simp [replacement?_ne_nil htable hreplaced]
      · cases h
    · cases h
  · obtain ⟨_, -, rfl⟩ := Option.map_eq_some_iff.mp h
    exact List.cons_ne_nil _ _

/-! ## Along the text -/

theorem isName_of_attributesOf {s : Assembly} {written : List RawAttribute} {attributes : Attributes}
    (hwritten : ∀ a ∈ written, IsName a.name) (h : s.attributesOf written = .ok attributes) :
    ∀ a ∈ attributes.toList, IsName a.name.toList := by
  rw [Assembly.attributesOf_eq] at h
  refine foldlM_induct (I := fun done known => (∀ a ∈ done, IsName a.name) →
    ∀ a ∈ known.toList, IsName a.name.toList) ?_ ?_ h hwritten
  · intro done known a next hknown htake hdone
    have hknown := hknown fun b hb => hdone b (List.mem_append_left _ hb)
    unfold Assembly.takeAttribute at htake
    split at htake
    · cases htake
      exact hknown
    · rename_i hnew
      split at htake <;> cases htake
      intro x hx
      rw [Attributes.toList_set_of_not_contains (by simpa using hnew)] at hx
      rcases List.mem_append.mp hx with hx | hx
      · exact hknown x hx
      · rw [List.mem_singleton.mp hx]
        simpa using hdone a (List.mem_append_right _ (List.mem_singleton_self a))
  · intro _ a ha
    simp [Attributes.empty] at ha

/-- The document so far holds trees that fit, and what that takes of the rest of the state: a text may
come next only where none came last, and nothing is known yet before the first doctype or element. -/
structure Grown (s : Assembly) (c : Cursor) (parent : NodeData) (trees : List Tree) : Prop where
  growing : Growing s.opened s.doc parent trees
  text : ∀ last, trees.getLast? = some last → last.data.kind = .text → StartsMarkup c.rest
  start : s.stage = .start → s.opened = [] ∧
    ∀ data ∈ trees.map Tree.data, data.kind ≠ .element ∧ data.kind ≠ .doctype
  entities : s.entities.Substantial

namespace Grown

variable {s : Assembly} {c d : Cursor} {parent : NodeData} {trees : List Tree}

theorem readable_leaf {data : NodeData} (id : NodeId) (hlegible : data.Legible) :
    (Tree.node id data []).Readable :=
  .node ⟨⟨hlegible, nofun⟩, .nil⟩ nofun

/-- Something that is neither text nor doctype comes last. -/
theorem grow (h : Grown s c parent trees) {data : NodeData} (hlegible : data.Legible)
    (hadmits : parent.Admits data) (htext : data.kind ≠ .text) (hdoctype : data.kind ≠ .doctype)
    (helement : data.kind ≠ .element) :
    Grown (s.grow data) d parent (trees ++ [.node (currentOf s.opened) data []]) := by
  refine ⟨h.growing.leaf (h.growing.rows.concat (readable_leaf _ hlegible) hadmits
    (absurd · htext) (absurd · hdoctype)), fun last hlast hkind => ?_, fun hstage => ?_, h.entities⟩
  · rw [List.getLast?_append, List.getLast?_singleton, Option.some_or] at hlast
    cases hlast
    exact absurd hkind htext
  · obtain ⟨hopened, hnone⟩ := h.start hstage
    refine ⟨hopened, fun x hx => ?_⟩
    rw [List.map_append] at hx
    rcases List.mem_append.mp hx with hx | hx
    · exact hnone x hx
    · cases List.mem_singleton.mp hx
      exact ⟨helement, hdoctype⟩

/-- A text comes last. Nothing but markup or the end follows it. -/
theorem growText (h : Grown s c parent trees) {element : Element}
    (hparent : parent = .element element)
    {value : List Char} (hvalue : value ≠ [])
    (hadmits : isTextElement element.name = true ∨ Text.trim value = value)
    (hbefore : ¬ StartsMarkup c.rest) (hafter : StartsMarkup d.rest) :
    Grown (s.grow (.text (String.ofList value))) d parent
      (trees ++ [.node (currentOf s.opened) (.text (String.ofList value)) []]) := by
  have hlegible : (NodeData.text (String.ofList value)).Legible := by
    simpa [NodeData.Legible] using hvalue
  refine ⟨h.growing.leaf (h.growing.rows.concat (readable_leaf _ hlegible) ?_
    (fun _ last hlast hkind => hbefore (h.text last hlast hkind)) nofun),
    fun _ _ _ => hafter, fun hstage => ?_, h.entities⟩
  · subst hparent
    show isTextElement element.name = true ∨
      Text.trim (String.ofList value).toList = (String.ofList value).toList
    rwa [String.toList_ofList]
  · obtain ⟨hopened, hnone⟩ := h.start hstage
    refine ⟨hopened, fun x hx => ?_⟩
    rw [List.map_append] at hx
    rcases List.mem_append.mp hx with hx | hx
    · exact hnone x hx
    · cases List.mem_singleton.mp hx
      exact ⟨nofun, nofun⟩

theorem text_step (h : Grown s c parent trees) {raw : List Char} {pos : Position} {next : Assembly}
    (hraw : raw ≠ []) (hbefore : ¬ StartsMarkup c.rest) (hafter : StartsMarkup d.rest)
    (hnext : s.text raw pos = .ok next) : ∃ parent trees, Grown next d parent trees := by
  have hsame : ∃ parent trees, Grown s d parent trees :=
    ⟨parent, trees, h.growing, fun _ _ _ => hafter, h.start, h.entities⟩
  unfold Assembly.text at hnext
  split at hnext
  · split at hnext <;> cases hnext
    exact hsame
  · rename_i o outer hopened
    have hgrowing := h.growing
    rw [hopened] at hgrowing
    obtain ⟨-, -, element, hparent, hname, -⟩ := hgrowing.close
    split at hnext
    · cases hnext
    · rename_i text hdecode
      have htext : text ≠ [] := by
        unfold Assembly.decodeAt decode at hdecode
        split at hdecode
        · rename_i hexpand
          split at hexpand
          · rename_i hexpanded
            cases hexpand
            cases hdecode
            exact expand_ne_nil h.entities hraw hexpanded
          · cases hexpand
        · cases hdecode
      rw [hname, String.ofList_toList] at hnext
      split at hnext
      · rename_i hkeeps
        cases hnext
        exact ⟨_, _, h.growText hparent htext (.inl hkeeps) hbefore hafter⟩
      · split at hnext
        · cases hnext
          exact hsame
        · rename_i hne
          cases hnext
          exact ⟨_, _, h.growText hparent hne (.inr (Text.trim_trim text)) hbefore hafter⟩

theorem startTag_step (h : Grown s c parent trees) {name : List Char} {written : List RawAttribute}
    {selfClosing : Bool} {next : Assembly}
    (hlegible : (Token.startTag name written selfClosing).Legible)
    (hnext : s.startTag name written selfClosing = .ok next) :
    ∃ parent trees, Grown next d parent trees := by
  unfold Assembly.startTag at hnext
  split at hnext
  · cases hnext
  · rename_i attributes hattributes
    have hnames := isName_of_attributesOf hlegible.2 hattributes
    have helement : (NodeData.element ⟨String.ofList name, attributes⟩).Legible :=
      ⟨by simpa using hlegible.1, hnames⟩
    cases hnext
    cases selfClosing with
    | true =>
      have hrows := h.growing.rows.concat (readable_leaf (currentOf s.opened) helement)
        (h.growing.admits_section (fun hkind => by cases hkind) fun hkind => by cases hkind)
        (fun hkind => by cases hkind) fun hkind => by cases hkind
      refine ⟨_, _, h.growing.leaf hrows, fun last hlast hkind => ?_, fun hstage => (by cases hstage),
        h.entities⟩
      rw [List.getLast?_append, List.getLast?_singleton, Option.some_or] at hlast
      cases hlast
      cases hkind
    | false =>
      have hpush := h.growing.push helement
      simp only [String.toList_ofList] at hpush
      exact ⟨_, _, hpush, fun _ hlast => (by cases hlast), fun hstage => (by cases hstage),
        h.entities⟩

theorem endTag_step (h : Grown s c parent trees) {name : List Char} {pos : Position}
    {next : Assembly} (hnext : s.endTag name pos = .ok next) :
    ∃ parent trees, Grown next d parent trees := by
  unfold Assembly.endTag at hnext
  split at hnext
  · cases hnext
  · rename_i o outer hopened
    split at hnext
    · cases hnext
      have hgrowing := h.growing
      rw [hopened] at hgrowing
      obtain ⟨around, siblings, element, rfl, -, hclosed⟩ := hgrowing.close
      refine ⟨_, _, hclosed, fun last hlast hkind => ?_, fun hstage => ?_, h.entities⟩
      · rw [List.getLast?_append, List.getLast?_singleton, Option.some_or] at hlast
        cases hlast
        cases hkind
      · have := (h.start hstage).1
        rw [hopened] at this
        cases this
    · split at hnext <;> cases hnext

theorem doctype_step (h : Grown s c parent trees) {body : List Char} {pos : Position}
    {next : Assembly} (hlegible : (Token.doctype body).Legible)
    (hnext : s.doctype body pos = .ok next) : ∃ parent trees, Grown next d parent trees := by
  unfold Assembly.doctype at hnext
  split at hnext
  · rename_i hstage
    cases hnext
    obtain ⟨hopened, hnone⟩ := h.start hstage
    have hbody : (NodeData.doctype (String.ofList body)).Legible := by
      simpa [NodeData.Legible] using hlegible
    have hadmits : parent.Admits (.doctype (String.ofList body)) := by
      have hgrowing := h.growing
      rw [hopened] at hgrowing
      rw [hgrowing.eq_ofForest.1]
      trivial
    have hrows := h.growing.rows.concat (readable_leaf (currentOf s.opened) hbody) hadmits nofun
      fun _ => hnone
    refine ⟨_, _, h.growing.leaf hrows, fun last hlast hkind => ?_, nofun,
      EntityTable.substantial_ofDoctype body⟩
    rw [List.getLast?_append, List.getLast?_singleton, Option.some_or] at hlast
    cases hlast
    cases hkind
  · cases hnext

theorem step (h : Grown s c parent trees) {token : Token} {next : Assembly} (hc : c.rest ≠ [])
    (hread : c.readToken = .ok (token, d)) (hnext : s.step ⟨token, c.pos, d.last⟩ = .ok next) :
    ∃ parent trees, Grown next d parent trees := by
  have hlegible := Cursor.legible_of_readToken hc hread
  cases token with
  | text raw =>
    obtain ⟨hbefore, hafter⟩ := Cursor.startsMarkup_of_readToken_text hc hread
    exact h.text_step hlegible.1 hbefore hafter hnext
  | startTag name written selfClosing => exact h.startTag_step hlegible hnext
  | endTag name => exact h.endTag_step hnext
  | doctype body => exact h.doctype_step hlegible hnext
  | comment body =>
    cases hnext
    exact ⟨_, _, h.grow (by simpa [NodeData.Legible] using hlegible)
      (h.growing.admits_section nofun nofun) nofun nofun nofun⟩
  | cdata body =>
    cases hnext
    exact ⟨_, _, h.grow (by simpa [NodeData.Legible] using hlegible)
      (h.growing.admits_section nofun nofun) nofun nofun nofun⟩
  | instruction name body =>
    cases hnext
    exact ⟨_, _, h.grow (by simpa [NodeData.Legible] using hlegible)
      (h.growing.admits_section nofun nofun) nofun nofun nofun⟩

end Grown

/-- **The document that a text gives is planted from trees that fit**, in document order. -/
theorem exists_forest_of_assemble {text : List Char} {doc : Document}
    (h : assemble text = .ok doc) :
    ∃ trees, doc = .ofForest trees ∧ Rows .root trees := by
  rw [resume_ofText] at h
  have hstart : ∃ parent trees, Grown .start (.ofText text) parent trees :=
    ⟨.root, [], .top (.nil _), nofun, fun _ => ⟨rfl, nofun⟩, nofun⟩
  obtain ⟨last, d, ⟨parent, trees, hgrown⟩, hopened, rfl⟩ :=
    resume_induct (I := fun s c => ∃ parent trees, Grown s c parent trees)
      (fun _ _ _ _ _ hc hread hI hnext => by
        obtain ⟨parent, trees, hgrown⟩ := hI
        exact hgrown.step hc hread hnext) _ _ hstart h
  have hgrowing := hgrown.growing
  rw [hopened] at hgrowing
  obtain ⟨rfl, hdoc⟩ := hgrowing.eq_ofForest
  exact ⟨trees, hdoc, hgrowing.rows⟩

end SvgTidy.Markup
