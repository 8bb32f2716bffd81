import SvgTidy.Proofs.AcceptedTexts

/-!
# What references decode to

What a document holds is the text between its tags with the references expanded, under the one table
that its doctype declares. A predefined name is looked up there first. A table that gives such a name
another meaning is no error: the name is decoded to that meaning, and of what the two escapes write
with the name, nothing is undone.

Principal results: `decodes_predefined_iff` — a predefined name keeps its character exactly under the
tables that spare it; `expand_escapeText_iff`, `expand_escapeValue_iff` — the escapes are undone
exactly under the tables that spare all they write; `Document.read_predefined` — for every text that
is read.
-/

namespace SvgTidy

namespace Markup

open EntityTable

variable {table : EntityTable}

/-! ## A reference inside a text -/

/-- A reference that begins before an ampersand ends before it, for no name holds one. -/
theorem reference_before {before after name rest : List Char}
    (hname : ∀ c ∈ name, endsName c = false)
    (h : before ++ '&' :: after = name ++ ';' :: rest) :
    ∃ between, before = name ++ ';' :: between ∧ rest = between ++ '&' :: after := by
  rcases List.append_eq_append_iff.mp h with ⟨more, rfl, hmore⟩ | ⟨more, rfl, hmore⟩
  · cases more with
    | nil => cases hmore
    | cons c more =>
      cases hmore
      have hends := hname '&' (by simp)
      cases hends
  · cases more with
    | nil => cases hmore
    | cons c between =>
      cases hmore
      exact ⟨between, rfl, rfl⟩

/-- **An ampersand parts a text that expands**: what stands before it expands by itself. -/
theorem expand_parts {before after text : List Char}
    (h : expand table (before ++ '&' :: after) = some text) :
    ∃ front back, expand table before = some front ∧ expand table ('&' :: after) = some back ∧
      text = front ++ back := by
  induction before using reference_induction generalizing text with
  | nil => exact ⟨[], text, by rw [expand], h, rfl⟩
  | plain c before hc ih =>
    rw [List.cons_append, expand_cons hc, Option.map_eq_some_iff] at h
    obtain ⟨expanded, hexpand, rfl⟩ := h
    obtain ⟨front, back, hfront, hback, rfl⟩ := ih hexpand
    exact ⟨c :: front, back, by rw [expand_cons hc, hfront]; rfl, hback, rfl⟩
  | reference name between hname ih =>
    rw [List.cons_append, List.append_assoc, List.cons_append, expand_reference hname] at h
    split at h
    · rename_i replaced expanded hreplace hexpand
      cases h
      obtain ⟨front, back, hfront, hback, rfl⟩ := ih hexpand
      refine ⟨replaced ++ front, back, ?_, hback, (List.append_assoc ..).symm⟩
      rw [expand_reference hname, hreplace, hfront]
    · cases h
  | stray before hstray =>
    -- the reference would have to end before the ampersand
    have hresolves : Resolves table ('&' :: before ++ '&' :: after) :=
      (resolves_iff _ _).mpr (by rw [h]; rfl)
    obtain ⟨name, rest, heq, hname, -⟩ := hresolves [] _ rfl
    obtain ⟨between, hbetween, -⟩ := reference_before hname heq
    exact absurd hbetween (hstray name between hname)

/-- References to the name are replaced by the characters, wherever they stand in a text that
expands. -/
def Decodes (table : EntityTable) (name replaced : List Char) : Prop :=
  ∀ before after text, expand table (before ++ '&' :: (name ++ ';' :: after)) = some text →
    ∃ front back, expand table before = some front ∧ expand table after = some back ∧
      text = front ++ replaced ++ back

variable {name : List Char} {c : Char}

/-- **A predefined name is decoded to what the table says of it, else to its character**, and to
nothing else. -/
theorem decodes_iff (hname : (name, [c]) ∈ predefined) {replaced : List Char} :
    Decodes table name replaced ↔ (table.lookup name).getD [c] = replaced := by
  have hmem : name ∈ predefined.map (·.1) := List.mem_map.mpr ⟨_, hname, rfl⟩
  have hresolve : table.resolve? name = some ((table.lookup name).getD [c]) :=
    resolve?_predefined hname
  constructor
  · intro h
    have halone := expand_named hmem hresolve []
    rw [expand, Option.map_some, List.append_nil] at halone
    obtain ⟨front, back, hfront, hback, heq⟩ := h [] [] _ halone
    rw [expand, Option.some.injEq] at hfront hback
    rw [heq, ← hfront, ← hback, List.nil_append, List.append_nil]
  · rintro rfl before after text h
    obtain ⟨front, back, hfront, hback, rfl⟩ := expand_parts h
    rw [expand_named hmem hresolve, Option.map_eq_some_iff] at hback
    obtain ⟨behind, hbehind, rfl⟩ := hback
    exact ⟨front, behind, hfront, hbehind, (List.append_assoc ..).symm⟩

theorem spares_iff (hname : (name, [c]) ∈ predefined) :
    table.Spares c ↔ (table.lookup name).getD [c] = [c] := by
  have hinjective : ∀ a ∈ predefined, ∀ b ∈ predefined, a.2 = b.2 → a.1 = b.1 := by decide
  constructor
  · intro h
    cases hvalue : table.lookup name with
    | none => rfl
    | some value => exact h name hname value hvalue
  · intro h other hother value hvalue
    obtain rfl : other = name := hinjective _ hother _ hname rfl
    rwa [hvalue, Option.getD_some] at h

/-- **A predefined name keeps its character exactly under the tables that spare it.** -/
theorem decodes_predefined_iff (hname : (name, [c]) ∈ predefined) :
    Decodes table name [c] ↔ table.Spares c := by
  rw [decodes_iff hname, spares_iff hname]

/-! ## Undoing the escapes -/

theorem escapeChar_predefined (hname : (name, [c]) ∈ predefined) :
    escapeChar c = '&' :: (name ++ [';']) := by
  have hall : ∀ entry ∈ predefined, escapeText entry.2 = '&' :: (entry.1 ++ [';']) := by decide
  have hsingle := hall _ hname
  rwa [escapeText, List.flatMap_singleton] at hsingle

/-- A character whose escape is undone is spared. -/
theorem spares_of_expand_escapeChar (h : expand table (escapeChar c) = some [c]) :
    table.Spares c := by
  intro name hname value hvalue
  have hresolve : table.resolve? name = some value := by
    rw [resolve?_predefined hname, hvalue, Option.getD_some]
  have hnamed := expand_named (List.mem_map.mpr ⟨_, hname, rfl⟩) hresolve []
  rw [← escapeChar_predefined hname, h, expand] at hnamed
  simpa using hnamed.symm

/-- **The escaping of text is undone exactly under the tables that spare every character.** -/
theorem expand_escapeText_iff :
    (∀ text, expand table (escapeText text) = some text) ↔ ∀ c, table.Spares c := by
  constructor
  · intro h c
    have hsingle := h [c]
    rw [escapeText, List.flatMap_singleton] at hsingle
    exact spares_of_expand_escapeChar hsingle
  · intro h text
    have hrest : expand table (escapeText text ++ []) = (expand table []).map (text ++ ·) :=
      expand_escapeText (fun c _ => h c) []
    rw [List.append_nil, expand] at hrest
    simpa using hrest

/-- **The escaping of values, exactly under those that spare every character but the apostrophe**,
which a value in double quotes holds as it is. -/
theorem expand_escapeValue_iff :
    (∀ value, expand table (escapeValue value) = some value) ↔
      ∀ c, c ≠ '\'' → table.Spares c := by
  constructor
  · intro h c hc
    have hsingle := h [c]
    rw [escapeValue, List.flatMap_singleton, escapeValueChar, if_neg hc] at hsingle
    exact spares_of_expand_escapeChar hsingle
  · exact fun h value => expand_escapeValue fun c _ hc => h c hc

/-! ## The elements of a document and their start tags -/

/-- The name and the attributes of a start tag. -/
def Token.startTag? : Token → Option (List Char × List RawAttribute)
  | .startTag name written _ => some (name, written)
  | _ => none

/-- The first attribute of a name is so without the last one, unless it is the last one. -/
theorem RawAttribute.First.of_concat {written : List RawAttribute} {a last : RawAttribute}
    (h : a.First (written ++ [last])) :
    a.First written ∨ a = last ∧ ∀ b ∈ written, b.name ≠ last.name := by
  obtain ⟨before, after, hsplit, hfirst⟩ := h
  cases after using List.reverseRecOn with
  | nil =>
    obtain ⟨rfl, heq⟩ := List.append_inj' hsplit rfl
    cases heq
    exact .inr ⟨rfl, hfirst⟩
  | append_singleton after other =>
    rw [← List.cons_append, ← List.append_assoc] at hsplit
    obtain ⟨rfl, -⟩ := List.append_inj' hsplit rfl
    exact .inl ⟨before, after, rfl, hfirst⟩

/-- An element has the name of a start tag and, for every attribute that is the first of its name,
what the value expands to. -/
structure Bears (table : EntityTable) (tag : List Char × List RawAttribute) (element : Element) :
    Prop where
  name : element.name = String.ofList tag.1
  value : ∀ a : RawAttribute, a.First tag.2 → ∃ value, expand table a.value = some value ∧
    element.attribute? (String.ofList a.name) = some (String.ofList value)

end Markup

/-- The elements of a document, the oldest first. -/
def Document.elementsMade (doc : Document) : List Element :=
  (List.range doc.nodes.size).filterMap fun index => doc.element? ⟨index⟩

theorem Document.elementsMade_grow (doc : Document) (parent : NodeId) (data : NodeData) :
    (doc.grow parent data).elementsMade = doc.elementsMade ++ data.element?.toList := by
  have hold : ∀ index ∈ List.range doc.nodes.size,
      (doc.grow parent data).element? ⟨index⟩ = doc.element? ⟨index⟩ := by
    intro index hindex
    have hne : (⟨index⟩ : NodeId) ≠ doc.fresh := fun heq =>
      Nat.ne_of_lt (List.mem_range.mp hindex) (congrArg NodeId.index heq)
    rw [element?, data?_grow, if_neg hne, element?]
  have hnew : (doc.grow parent data).element? ⟨doc.nodes.size⟩ = data.element? := by
    have hself : (⟨doc.nodes.size⟩ : NodeId) = doc.fresh := rfl
    rw [element?, data?_grow, if_pos hself, Option.bind_some]
  rw [elementsMade, size_grow, List.range_succ, List.filterMap_append, List.filterMap_congr hold,
    ← elementsMade, List.filterMap_cons, hnew]
  cases data.element? <;> rfl

namespace Markup

namespace Assembly

variable {s : Assembly} {known next : Attributes}

theorem get?_takeAttribute {a : RawAttribute} (hnext : s.takeAttribute known a = .ok next)
    {name value : String} (h : known.get? name = some value) : next.get? name = some value := by
  unfold takeAttribute at hnext
  split at hnext
  · cases hnext
    exact h
  · rename_i hnew
    split at hnext
    · cases hnext
      rw [Attributes.get?_set, if_neg ?_]
      · exact h
      · rintro rfl
        exact hnew (by rw [Attributes.contains_eq_isSome_get?, h, Option.isSome_some])
    · cases hnext

/-- An attribute with a new name is taken in with what its value expands to. -/
theorem takeAttribute_new {a : RawAttribute} (hnext : s.takeAttribute known a = .ok next)
    (hnew : known.contains (String.ofList a.name) = false) :
    ∃ value, expand s.entities a.value = some value ∧
      next.get? (String.ofList a.name) = some (String.ofList value) := by
  rw [takeAttribute, hnew, if_neg Bool.false_ne_true] at hnext
  split at hnext
  · rename_i value hdecode
    cases hnext
    exact ⟨value, expand_of_decodeAt hdecode, by rw [Attributes.get?_set, if_pos rfl]⟩
  · cases hnext

/-- **The element of a start tag bears it.** -/
theorem bears_of_attributesOf {name : List Char} {written : List RawAttribute}
    {attributes : Attributes} (h : s.attributesOf written = .ok attributes) :
    Bears s.entities (name, written) { name := String.ofList name, attributes } := by
  rw [attributesOf_eq] at h
  refine ⟨rfl, (foldlM_induct (I := fun done known => Knows done known ∧
    ∀ a : RawAttribute, a.First done → ∃ value, expand s.entities a.value = some value ∧
      known.get? (String.ofList a.name) = some (String.ofList value)) ?_ ⟨.nil, ?_⟩ h).2⟩
  · rintro done known a next ⟨hknows, hvalues⟩ hnext
    refine ⟨hknows.takeAttribute hnext, fun b hb => ?_⟩
    rcases hb.of_concat with hb | ⟨rfl, hnew⟩
    · obtain ⟨value, hvalue, hget⟩ := hvalues b hb
      exact ⟨value, hvalue, get?_takeAttribute hnext hget⟩
    · refine takeAttribute_new hnext ?_
      rw [← Bool.not_eq_true, hknows b.name]
      rintro ⟨c, hc, hname⟩
      exact hnew c hc hname
  · rintro a ⟨before, after, hnil, -⟩
    simp at hnil

end Assembly

/-- The elements of the document bear the start tags before it, in order. -/
def Records (before : List Token) (s : Assembly) : Prop :=
  List.Forall₂ (Bears s.entities) (before.filterMap Token.startTag?) s.doc.elementsMade

namespace Records

variable {before : List Token} {s next : Assembly}

theorem start : Records [] .start :=
  .nil

/-- A token that is neither a start tag nor a doctype. -/
theorem flat (h : Records before s) {token : Token} (htag : token.startTag? = none)
    (hentities : next.entities = s.entities) (hdoc : next.doc = s.doc ∨
      ∃ data, data.element? = none ∧ next.doc = s.doc.grow s.current data) :
    Records (before ++ [token]) next := by
  have helements : next.doc.elementsMade = s.doc.elementsMade := by
    rcases hdoc with hdoc | ⟨data, hdata, hdoc⟩
    · rw [hdoc]
    · rw [hdoc, Document.elementsMade_grow, hdata, Option.toList_none, List.append_nil]
  rw [Records, hentities, helements, List.filterMap_append, List.filterMap_cons, htag]
  rwa [List.filterMap_nil, List.append_nil]

theorem text (h : Records before s) {raw : List Char} {pos : Position}
    (hnext : s.text raw pos = .ok next) : Records (before ++ [.text raw]) next := by
  unfold Assembly.text at hnext
  split at hnext
  · split at hnext <;> cases hnext
    exact h.flat rfl rfl (.inl rfl)
  · split at hnext
    · cases hnext
    · split at hnext
      · cases hnext
        exact h.flat rfl rfl (.inr ⟨_, rfl, rfl⟩)
      · split at hnext <;> cases hnext
        · exact h.flat rfl rfl (.inl rfl)
        · exact h.flat rfl rfl (.inr ⟨_, rfl, rfl⟩)

theorem startTag (h : Records before s) {name : List Char} {written : List RawAttribute}
    {selfClosing : Bool} (hnext : s.startTag name written selfClosing = .ok next) :
    Records (before ++ [.startTag name written selfClosing]) next := by
  unfold Assembly.startTag at hnext
  split at hnext
  · cases hnext
  · rename_i attributes hattributes
    cases hnext
    show List.Forall₂ (Bears s.entities) _ (s.doc.grow s.current _).elementsMade
    rw [List.filterMap_append, Document.elementsMade_grow]
    exact List.rel_append h (.cons (Assembly.bears_of_attributesOf hattributes) .nil)

theorem endTag (h : Records before s) {name : List Char} {pos : Position}
    (hnext : s.endTag name pos = .ok next) : Records (before ++ [.endTag name]) next := by
  unfold Assembly.endTag at hnext
  split at hnext
  · cases hnext
  · split at hnext
    · cases hnext
      exact h.flat rfl rfl (.inl rfl)
    · split at hnext <;> cases hnext

/-- A doctype changes the table, but no start tag has been expanded under the one before. -/
theorem doctype (h : Records before s) (htracks : Tracks before s) {body : List Char}
    {pos : Position} (hnext : s.doctype body pos = .ok next) :
    Records (before ++ [.doctype body]) next := by
  unfold Assembly.doctype at hnext
  split at hnext
  · rename_i hstage
    cases hnext
    have hnone : before.filterMap Token.startTag? = [] := by
      rw [List.filterMap_eq_nil_iff]
      intro token htoken
      have hroot := (htracks.fresh.mp hstage token htoken).1
      cases token <;> first | rfl | exact absurd trivial hroot
    have hempty : s.doc.elementsMade = [] := by
      rw [Records, hnone] at h
      exact List.forall₂_nil_left_iff.mp h
    show List.Forall₂ _ _ (s.doc.grow s.current _).elementsMade
    rw [List.filterMap_append, hnone, Document.elementsMade_grow, hempty]
    exact .nil
  · cases hnext

/-- **A token that is taken in is recorded.** -/
theorem step (h : Records before s) (htracks : Tracks before s) {placed : PlacedToken}
    (hnext : s.step placed = .ok next) : Records (before ++ [placed.token]) next := by
  obtain ⟨token, start, stop⟩ := placed
  cases token with
  | text raw => exact h.text hnext
  | startTag name written selfClosing => exact h.startTag hnext
  | endTag name => exact h.endTag hnext
  | doctype body => exact h.doctype htracks hnext
  | comment | cdata | instruction =>
    cases hnext
    exact h.flat rfl rfl (.inr ⟨_, rfl, rfl⟩)

/-- And so are all tokens of a run. -/
theorem run {tokens : List PlacedToken} {last : Assembly}
    (h : tokens.foldlM Assembly.step .start = .ok last) :
    Records (tokens.map PlacedToken.token) last := by
  refine (foldlM_induct (I := fun done s => Records (done.map PlacedToken.token) s ∧
    Tracks (done.map PlacedToken.token) s) ?_ ⟨.start, .start⟩ h).1
  rintro done s placed next ⟨hrecords, htracks⟩ hnext
  rw [List.map_append]
  exact ⟨hrecords.step htracks hnext, (htracks.step_ok hnext).1⟩

end Records

theorem exists_run_of_assemble {text : List Char} {doc : Document} (h : assemble text = .ok doc) :
    ∃ last, (tokenize text).1.foldlM Assembly.step .start = .ok last ∧ last.doc = doc := by
  unfold assemble at h
  simp only at h
  split at h
  · cases h
  · rename_i last hlast
    refine ⟨last, hlast, ?_⟩
    split at h
    · cases h
    · split at h <;> cases h
      rfl

/-- **The elements of a document that was read bear its start tags, in order, under the entities that
it declares.** -/
theorem bears_of_assemble {text : List Char} {doc : Document} (h : assemble text = .ok doc) :
    List.Forall₂ (Bears (declaredBy (tokensOf text))) ((tokensOf text).filterMap Token.startTag?)
      doc.elementsMade := by
  obtain ⟨last, hlast, rfl⟩ := exists_run_of_assemble h
  have hrecords := Records.run hlast
  have htracks := Tracks.run (stands_of_mem_tokens (.ofText text)) .start .nil
  rw [← tokenize, hlast] at htracks
  have hentities : last.entities = declaredBy (tokensOf text) := htracks.2.entities
  rwa [Records, hentities] at hrecords

end Markup

namespace Document

open Markup EntityTable

/-- **Predefined names in a document that was read.** Its text and its attribute values are expanded
under the entities that its doctype declares. There a predefined name is decoded to what the doctype
says of it, else to its character; so it keeps the character, and an escape is undone, exactly if the
doctype leaves the name or names their meaning. -/
theorem read_predefined {source : String} {path : Option String} {doc : Document}
    (h : read source path = .ok doc) :
    let tokens := tokensOf source.toList
    let table := declaredBy tokens
    (∃ places, doc.Arranged tokens places ∧
      ∀ k i raw, places[k]? = some i → tokens[i]? = some (.text raw) →
        ∃ text, expand table raw = some text ∧
          ∃ kept ∈ [text, Text.trim text], doc.value? ⟨k + 1⟩ = some (String.ofList kept)) ∧
    List.Forall₂ (Bears table) (tokens.filterMap Token.startTag?) doc.elementsMade ∧
    (∀ name c, (name, [c]) ∈ predefined →
      Decodes table name ((table.lookup name).getD [c]) ∧
        (Decodes table name [c] ↔ table.Spares c)) ∧
    ((∀ text, expand table (escapeText text) = some text) ↔ ∀ c, table.Spares c) ∧
    ((∀ value, expand table (escapeValue value) = some value) ↔
      ∀ c, c ≠ '\'' → table.Spares c) := by
  intro tokens table
  have hassemble := assemble_of_read h
  have hjudges := assemble_judges source.toList
  rw [hassemble] at hjudges
  obtain ⟨⟨-, hconforms⟩, places, hplaces⟩ := hjudges
  refine ⟨⟨places, hplaces, fun k i raw hk hraw => ?_⟩, bears_of_assemble hassemble,
    fun name c hname => ⟨(decodes_iff hname).mpr rfl, decodes_predefined_iff hname⟩,
    expand_escapeText_iff, expand_escapeValue_iff⟩
  obtain ⟨token, tags, data, htoken, -, hmakes, hdata, -⟩ := hplaces.node k i hk
  cases hraw.symm.trans htoken
  have htable {tag : OpenTag} {outer : List OpenTag} (hinside : Opened (tokens.take i) (tag :: outer)) :
      table = declaredBy (tokens.take i) :=
    declaredBy_inside hconforms.doctype (List.take_append_drop i tokens).symm hinside
  cases hmakes with
  | kept hinside htext _ =>
    exact ⟨_, htable hinside ▸ htext, _, List.mem_cons_self, by rw [value?, hdata]; rfl⟩
  | trimmed hinside htext _ _ =>
    exact ⟨_, htable hinside ▸ htext, _, List.mem_cons_of_mem _ List.mem_cons_self,
      by rw [value?, hdata]; rfl⟩

/-- A drawing whose doctype says of the name `lt` what would be its character if replacements were
expanded in turn. -/
def redeclaredDrawing : String :=
  "<!DOCTYPE svg [<!ENTITY lt '&#38;#60;'>]><svg>a &lt; b</svg>"

/-- It is that text here, so `gt` keeps its character but `lt` does not. -/
theorem read_predefined_redeclaredDrawing :
    ∃ doc, read redeclaredDrawing none = .ok doc ∧ doc.value? ⟨3⟩ = some "a &#38;#60; b" ∧
      let table := declaredBy (tokensOf redeclaredDrawing.toList)
      Decodes table "lt".toList "&#38;#60;".toList ∧ ¬ Decodes table "lt".toList ['<'] ∧
        Decodes table "gt".toList ['>'] ∧
        ¬ ∀ text, expand table (escapeText text) = some text := by
  have hvalue : (read redeclaredDrawing none).toOption.any
      (fun doc => doc.value? ⟨3⟩ = some "a &#38;#60; b") = true := by
    decide +kernel
  have htable : declaredBy (tokensOf redeclaredDrawing.toList) =
      [("lt".toList, "&#38;#60;".toList)] := by
    decide +kernel
  cases hread : read redeclaredDrawing none with
  | error diagnostic =>
    rw [hread] at hvalue
    cases hvalue
  | ok doc =>
    rw [hread] at hvalue
    obtain ⟨-, -, hnames, htext, -⟩ := read_predefined hread
    rw [htable] at hnames htext ⊢
    have hlt := hnames "lt".toList '<' (by decide)
    have hgt := hnames "gt".toList '>' (by decide)
    have hspares : ¬ EntityTable.Spares [("lt".toList, "&#38;#60;".toList)] '<' := fun h =>
      absurd (h "lt".toList (by decide) _ rfl) (by decide)
    exact ⟨doc, rfl, of_decide_eq_true hvalue, hlt.1, fun h => hspares (hlt.2.mp h), hgt.1,
      fun h => hspares (htext.mp h '<')⟩

end Document

end SvgTidy
