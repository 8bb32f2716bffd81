import SvgTidy.Proofs.AcceptedTexts
import SvgTidy.Proofs.PartialTokens
import SvgTidy.Proofs.Prologue
import SvgTidy.Proofs.ReadForests
import SvgTidy.Proofs.WrittenForests

/-!
# A document behind a doctype

A text without references makes the same trees wherever it stands and whatever was read before it.
`Behind` keeps two documents side by side that grow by the same tokens, the second of which began
with some trees.

Principal results: `Behind.step`, `resume_behind` — the rest of a text makes the same trees in both;
`read_doctype` — a doctype in front of a document adds one node, if its end is found.
-/

namespace SvgTidy

namespace Document

mutual

theorem plant_number (doc : Document) (parent : NodeId) :
    ∀ (next : Nat) (t : Tree), doc.plant parent (t.number next) = doc.plant parent t
  | next, .node _ data children => by
    rw [Tree.number, plant, plant, plantAll_numberAll]

/-- Planting does not heed the numbers that trees bring with them. -/
theorem plantAll_numberAll (doc : Document) (parent : NodeId) :
    ∀ (next : Nat) (trees : List Tree),
      doc.plantAll parent (Tree.numberAll next trees) = doc.plantAll parent trees
  | _, [] => rfl
  | next, t :: others => by
    rw [Tree.numberAll, plantAll, plantAll, plant_number, plantAll_numberAll]

end

theorem ofForest_append_forest (front trees : List Tree) :
    ofForest (front ++ (ofForest trees).forest) = ofForest (front ++ trees) := by
  rw [forest_ofForest, ofForest, plantAll_append, plantAll_numberAll, ← plantAll_append]
  rfl

/-- The first of all trees comes right after the root. -/
theorem data?_ofForest_cons (id : NodeId) (data : NodeData) (trees : List Tree) :
    (ofForest (.node id data [] :: trees)).data? ⟨1⟩ = some data := by
  have hroot := WellFormed.empty.knows_root
  have hknown : (empty.grow root data).knows ⟨1⟩ = true := by
    rw [knows_iff, size_grow]
    exact Nat.lt_succ_self 1
  have hgrown : (empty.grow root data).knows root = true := (Grows.grow hroot data).knows hroot
  show ((empty.grow root data).plantAll root trees).data? ⟨1⟩ = some data
  rw [(plantAll_spec _ hgrown trees).2.1.data? _ hknown, data?_grow]
  rfl

end Document

namespace Markup

/-- Two documents that grow by the same tokens, each with its open elements. The second holds some
trees more, in front of everything else. -/
inductive Behind (front : List Tree) :
    List OpenElement → Document → List OpenElement → Document → Prop where
  | top (trees : List Tree) : Behind front [] (.ofForest trees) [] (.ofForest (front ++ trees))
  | inner {outer outer' : List OpenElement} {before before' : Document}
      (houter : Behind front outer before outer' before') (name : List Char) (data : NodeData)
      (trees : List Tree) :
      Behind front
        (⟨before.fresh, name⟩ :: outer)
        ((before.grow (currentOf outer) data).plantAll before.fresh trees)
        (⟨before'.fresh, name⟩ :: outer')
        ((before'.grow (currentOf outer') data).plantAll before'.fresh trees)

namespace Behind

variable {front : List Tree} {opened opened' : List OpenElement} {doc doc' : Document}

theorem eq_ofForest (h : Behind front [] doc opened' doc') :
    opened' = [] ∧ ∃ trees, doc = .ofForest trees ∧ doc' = .ofForest (front ++ trees) := by
  cases h with
  | top trees => exact ⟨rfl, trees, rfl, rfl⟩

theorem leaf (h : Behind front opened doc opened' doc') (data : NodeData) :
    Behind front opened (doc.grow (currentOf opened) data) opened'
      (doc'.grow (currentOf opened') data) := by
  cases h with
  | top trees =>
    have htop : Behind front _ _ _ _ := .top (trees ++ [.node Document.root data []])
    rw [← List.append_assoc, Document.ofForest, Document.ofForest, Document.plantAll_leaf,
      Document.plantAll_leaf] at htop
    exact htop
  | inner houter name around trees =>
    have hinner := houter.inner name around (trees ++ [.node Document.root data []])
    rw [Document.plantAll_leaf, Document.plantAll_leaf] at hinner
    exact hinner

theorem push (h : Behind front opened doc opened' doc') (name : List Char) (data : NodeData) :
    Behind front
      (⟨doc.fresh, name⟩ :: opened) (doc.grow (currentOf opened) data)
      (⟨doc'.fresh, name⟩ :: opened') (doc'.grow (currentOf opened') data) :=
  h.inner name data []

theorem close {o : OpenElement} {outer : List OpenElement}
    (h : Behind front (o :: outer) doc opened' doc') :
    ∃ o' outer', opened' = o' :: outer' ∧ o'.name = o.name ∧ Behind front outer doc outer' doc' := by
  cases h with
  | @inner _ outer' before before' houter name data trees =>
    refine ⟨_, outer', rfl, rfl, ?_⟩
    cases houter with
    | top siblings =>
      have htop : Behind front _ _ _ _ := .top (siblings ++ [.node Document.root data trees])
      rw [← List.append_assoc, Document.ofForest, Document.ofForest, Document.plantAll_append,
        Document.plantAll_append] at htop
      exact htop
    | inner houter name' around siblings =>
      have hinner := houter.inner name' around (siblings ++ [.node Document.root data trees])
      rw [Document.plantAll_append, Document.plantAll_append] at hinner
      exact hinner

end Behind

/-! ## Tokens without references -/

/-- No ampersand stands where references are replaced. -/
def Token.Plain : Token → Prop
  | .text raw => '&' ∉ raw
  | .startTag _ written _ => ∀ a ∈ written, '&' ∉ a.value
  | _ => True

theorem Cursor.plain_of_readToken {c d : Cursor} {t : Token} (hc : '&' ∉ c.rest)
    (h : c.readToken = .ok (t, d)) : t.Plain ∧ '&' ∉ d.rest := by
  obtain ⟨read, hread, -⟩ := (readToken_reaches h).exists_read
  refine ⟨?_, fun hmem => hc (hread ▸ List.mem_append_right _ hmem)⟩
  cases t with
  | text raw =>
    intro hmem
    exact hc (readToken_text h ▸ List.mem_append_left _ hmem)
  | startTag name written selfClosing =>
    intro a ha hmem
    obtain ⟨before, after, -, hrest, -⟩ := readToken_surrounds h a ha
    exact hc (hrest ▸ List.mem_append_right _ (List.mem_append_left _ hmem))
  | _ => trivial

namespace Assembly

theorem decodeAt_plain (s : Assembly) {raw : List Char} (h : '&' ∉ raw) (pos : Position) :
    s.decodeAt raw pos = .ok raw :=
  decodeAt_of_expand (expand_plain h) pos

theorem attributesOf_plain (s s' : Assembly) {written : List RawAttribute}
    (h : ∀ a ∈ written, '&' ∉ a.value) : s'.attributesOf written = s.attributesOf written := by
  rw [attributesOf_eq, attributesOf_eq]
  generalize Attributes.empty = known
  induction written generalizing known with
  | nil => rfl
  | cons a written ih =>
    have hfirst : s'.takeAttribute known a = s.takeAttribute known a := by
      rw [takeAttribute, takeAttribute, decodeAt_plain s (h a List.mem_cons_self),
        decodeAt_plain s' (h a List.mem_cons_self)]
    rw [List.foldlM_cons, List.foldlM_cons, hfirst]
    cases s.takeAttribute known a with
    | error flaw => rfl
    | ok next => exact ih (fun b hb => h b (List.mem_cons_of_mem _ hb)) next

theorem text_plain {s : Assembly} {raw : List Char} (h : '&' ∉ raw) {element : OpenElement}
    {outer : List OpenElement} (hopened : s.opened = element :: outer) (pos : Position) :
    s.text raw pos = .ok
      (if isTextElement (String.ofList element.name) then s.grow (.text (String.ofList raw))
      else if Text.trim raw = [] then s
      else s.grow (.text (String.ofList (Text.trim raw)))) := by
  unfold Assembly.text
  simp only [hopened, decodeAt_plain s h]
  split
  · rfl
  · split
    · rename_i hnil
      rw [if_pos hnil]
    · rename_i hne
      rw [if_neg hne]

end Assembly

namespace Behind

variable {front : List Tree} {s s' next : Assembly}

theorem text (h : Behind front s.opened s.doc s'.opened s'.doc) {raw : List Char}
    (hraw : '&' ∉ raw) {pos : Position} (hnext : s.text raw pos = .ok next) :
    ∃ next', s'.text raw pos = .ok next' ∧
      Behind front next.opened next.doc next'.opened next'.doc := by
  cases hopened : s.opened with
  | nil =>
    rw [hopened] at h
    have hopened' := h.eq_ofForest.1
    unfold Assembly.text at hnext ⊢
    simp only [hopened, hopened'] at hnext ⊢
    split at hnext
    · rename_i hblank
      cases hnext
      rw [if_pos hblank]
      exact ⟨s', rfl, by rwa [hopened]⟩
    · cases hnext
  | cons element outer =>
    have hclose := h
    rw [hopened] at hclose
    obtain ⟨element', outer', hopened', hname, -⟩ := hclose.close
    rw [Assembly.text_plain hraw hopened] at hnext
    rw [Assembly.text_plain hraw hopened', hname]
    cases hnext
    refine ⟨_, rfl, ?_⟩
    split
    · exact h.leaf _
    · split
      · exact h
      · exact h.leaf _

theorem startTag (h : Behind front s.opened s.doc s'.opened s'.doc) {name : List Char}
    {written : List RawAttribute} (hwritten : ∀ a ∈ written, '&' ∉ a.value) {selfClosing : Bool}
    (hnext : s.startTag name written selfClosing = .ok next) :
    ∃ next', s'.startTag name written selfClosing = .ok next' ∧
      Behind front next.opened next.doc next'.opened next'.doc := by
  unfold Assembly.startTag at hnext ⊢
  rw [Assembly.attributesOf_plain s s' hwritten]
  split at hnext
  · cases hnext
  · rename_i attributes hattributes
    cases hnext
    refine ⟨_, rfl, ?_⟩
    cases selfClosing with
    | true => exact h.leaf _
    | false => exact h.push name _

theorem endTag (h : Behind front s.opened s.doc s'.opened s'.doc) {name : List Char}
    {pos : Position} (hnext : s.endTag name pos = .ok next) :
    ∃ next', s'.endTag name pos = .ok next' ∧
      Behind front next.opened next.doc next'.opened next'.doc := by
  unfold Assembly.endTag at hnext ⊢
  split at hnext
  · cases hnext
  · rename_i element outer hopened
    split at hnext
    · rename_i hname
      cases hnext
      rw [hopened] at h
      obtain ⟨element', outer', hopened', hname', hclose⟩ := h.close
      simp only [hopened']
      rw [if_pos (hname'.trans hname)]
      exact ⟨_, rfl, hclose⟩
    · split at hnext <;> cases hnext

/-- **A token adds the same to both documents**, if it holds no reference and is no doctype. -/
theorem step (h : Behind front s.opened s.doc s'.opened s'.doc) {t : Token} (hplain : t.Plain)
    (hdoctype : t.doctype? = none) {start stop : Position}
    (hnext : s.step ⟨t, start, stop⟩ = .ok next) :
    ∃ next', s'.step ⟨t, start, stop⟩ = .ok next' ∧
      Behind front next.opened next.doc next'.opened next'.doc := by
  cases t with
  | text raw => exact h.text hplain hnext
  | startTag name written selfClosing => exact h.startTag hplain hnext
  | endTag name => exact h.endTag hnext
  | comment body =>
    cases hnext
    exact ⟨_, rfl, h.leaf _⟩
  | cdata body =>
    cases hnext
    exact ⟨_, rfl, h.leaf _⟩
  | instruction name body =>
    cases hnext
    exact ⟨_, rfl, h.leaf _⟩
  | doctype body => cases hdoctype

/-- Where nothing is open in the first document, nothing is in the second, and that one has the trees
in front. -/
theorem finish (h : Behind front s.opened s.doc s'.opened s'.doc) {doc : Document} {c c' : Cursor}
    (hresume : (if s.opened = [] then .ok s.doc else
      .error ⟨.unclosedElement, c.endPos⟩ : Except Flaw Document) = .ok doc)
    (hresume' : resume s' c' =
      if s'.opened = [] then .ok s'.doc else .error ⟨.unclosedElement, c'.endPos⟩) :
    ∃ trees, doc = .ofForest trees ∧ resume s' c' = .ok (.ofForest (front ++ trees)) := by
  split at hresume
  · rename_i hopened
    cases hresume
    rw [hopened] at h
    obtain ⟨hopened', trees, htrees, htrees'⟩ := h.eq_ofForest
    rw [hresume', if_pos hopened', htrees']
    exact ⟨trees, htrees, rfl⟩
  · cases hresume

end Behind

/-- **What a text without references and doctypes makes, it also makes behind some trees.** -/
theorem resume_behind {front : List Tree} {s s' : Assembly} {c c' : Cursor} {doc : Document}
    (h : Behind front s.opened s.doc s'.opened s'.doc) (hrest : c.rest = c'.rest)
    (hamp : '&' ∉ c.rest) (hdoctype : ∀ placed ∈ c.tokens.1, placed.token.doctype? = none)
    (hresume : resume s c = .ok doc) :
    ∃ trees, doc = .ofForest trees ∧ resume s' c' = .ok (.ofForest (front ++ trees)) := by
  generalize hlength : c.rest.length = length
  induction length using Nat.strongRecOn generalizing s s' c c' with
  | ind length ih =>
    by_cases hc : c.rest = []
    · rw [resume_nil hc] at hresume
      exact h.finish hresume (resume_nil (hrest ▸ hc))
    · have hc' : c'.rest ≠ [] := hrest ▸ hc
      have hsame : c.rest = c'.rest ++ [] := by rw [hrest, List.append_nil]
      rcases Cursor.readToken_part hsame hc' with hpart | ⟨hmore, -⟩
      · generalize hread' : c'.readToken = part, hread : c.readToken = whole at hpart
        cases hpart with
        | short hmore => exact absurd rfl hmore
        | ended =>
          rw [resume_truncated hc hread] at hresume
          exact h.finish hresume (resume_truncated hc' hread')
        | faulty =>
          rw [resume_fault hc hread] at hresume
          cases hresume
        | @same t' t d' d halike hafter =>
          rw [List.append_nil] at hafter
          rw [resume_token hc hread] at hresume
          rw [Cursor.tokens_of_ok hc hread] at hdoctype
          split at hresume
          · cases hresume
          · rename_i next hnext
            obtain ⟨hplain, hamp'⟩ := Cursor.plain_of_readToken hamp hread
            obtain ⟨next', hnext', hbehind⟩ :=
              h.step hplain (hdoctype _ List.mem_cons_self) hnext
            rw [resume_token hc' hread', Assembly.step_alike halike hnext' _ _]
            have hshorter : d.rest.length < length := hlength ▸ Cursor.length_readToken_lt hc hread
            exact ih _ hshorter hbehind hafter hamp'
              (fun p hp => hdoctype p (List.mem_cons_of_mem _ hp)) hresume rfl
      · exact absurd rfl hmore

/-- The state after a doctype that comes first. -/
def afterDoctype (body : List Char) : Assembly :=
  { doc := .ofForest [.node Document.root (.doctype (String.ofList body)) []]
    opened := []
    entities := .ofDoctype body
    stage := .declared }

theorem step_doctype (body : List Char) (start stop : Position) :
    Assembly.start.step ⟨.doctype body, start, stop⟩ = .ok (afterDoctype body) := rfl

/-- The doctype at the front of a text, up to the end that the reader finds. -/
theorem readToken_doctype {c : Cursor} {text : List Char}
    (hc : c.rest = "<!DOCTYPE".toList ++ text) :
    match Cursor.doctypeBody? none 0 text with
    | none => ∃ pos, c.readToken = .error (.endOfText pos)
    | some body => ∃ d, c.readToken = .ok (.doctype body, d) := by
  obtain ⟨htoken, hinside⟩ := readToken_bracket (c := c) ("!DOCTYPE".toList ++ text) hc
  have hbehind : ((c.skip 1).skip 8).rest = text := by
    rw [Cursor.rest_skip, hinside]
    exact List.drop_left' rfl
  rw [htoken, (Cursor.readMarkup_of_bang hinside).2.2 rfl, Cursor.readDoctype, hbehind]
  cases Cursor.doctypeBody? none 0 text with
  | none => exact ⟨_, rfl⟩
  | some body => exact ⟨_, rfl⟩

end Markup

open Markup

namespace Document

/-- The first node comes from the first token, if that makes one. -/
theorem Arranged.first {doc : Document} {token : Token} {tokens : List Token} {places : List Nat}
    (h : doc.Arranged (token :: tokens) places) {made : NodeData} (hmade : Makes [] token made) :
    ∃ data, Makes [] token data ∧ doc.data? ⟨1⟩ = some data := by
  have hplace : 0 ∈ places := (h.made 0 token rfl).mpr ⟨made, hmade⟩
  obtain ⟨k, hk, hzero⟩ := List.getElem_of_mem hplace
  have hfirst : k = 0 := by
    by_contra hk0
    have hlt := List.pairwise_iff_getElem.mp h.increasing 0 k (by omega) hk (by omega)
    rw [hzero] at hlt
    exact absurd hlt (Nat.not_lt_zero _)
  subst hfirst
  obtain ⟨token', tags, data, htoken, -, hdata, hnode, -⟩ :=
    h.node 0 0 (by rw [List.getElem?_eq_getElem hk, hzero])
  cases htoken
  exact ⟨data, hdata, hnode⟩

/-- If a document begins with the node of this doctype, the reader has found its end. -/
theorem closed_of_read {body rest : List Char} {source : String} {path : Option String}
    {trees : List Tree} (hsource : source.toList = "<!DOCTYPE".toList ++ (body ++ '>' :: rest))
    (h : read source path = .ok (.ofForest (.node root (.doctype (String.ofList body)) [] :: trees))) :
    DoctypeClosed body := by
  generalize hdoc : ofForest (.node root (.doctype (String.ofList body)) [] :: trees) = doc at h
  have hnode : doc.data? ⟨1⟩ = some (.doctype (String.ofList body)) := hdoc ▸ data?_ofForest_cons _ _ _
  have hc : (Cursor.ofText source.toList).rest = "<!DOCTYPE".toList ++ (body ++ '>' :: rest) := by
    rw [hsource, ofText_eq (by simp)]
  have hne : (Cursor.ofText source.toList).rest ≠ [] := by simp [hc]
  have hfirst := readToken_doctype hc
  split at hfirst
  · obtain ⟨pos, hpos⟩ := hfirst
    have hempty := assemble_of_read h
    rw [resume_ofText, resume_truncated hne hpos] at hempty
    cases hempty
    cases hnode
  · rename_i found hfound
    obtain ⟨d, hd⟩ := hfirst
    have htokens : tokensOf source.toList = .doctype found :: d.tokens.1.map PlacedToken.token := by
      rw [tokensOf, tokenize, Cursor.tokens_of_ok hne hd, List.map_cons]
    have harranged := (read_judges source path).2
    rw [h, htokens] at harranged
    obtain ⟨places, harranged⟩ := harranged
    obtain ⟨data, hmakes, hdata⟩ := harranged.first (.doctype found)
    cases hmakes
    rw [hnode, Option.some.injEq, NodeData.doctype.injEq, String.ofList_inj] at hdata
    rw [← hdata] at hfound
    exact (doctypeBody?_append rest body none 0).mp hfound

/-- **A doctype in front of a document adds one node, if its end is found.** Its end is found unless
a comment or an instruction of its subset hides it. -/
theorem read_doctype (d : DoctypeDeclaration) {rest : String} {path : Option String}
    {doc : Document} (hread : read rest path = .ok doc) (hmark : rest.toList.head? ≠ some '\uFEFF')
    (hamp : '&' ∉ rest.toList) (hdoctype : ∀ token ∈ tokensOf rest.toList, token.doctype? = none)
    (path' : Option String) :
    (read (String.ofList (d.chars ++ rest.toList)) path' =
        .ok (.ofForest (.node root (.doctype (String.ofList d.body)) [] :: doc.forest)) ↔
      d.Skimmed) ∧
    ((∀ subset, d.subset = some subset → ∀ item ∈ subset.items, item.Unmarked) → d.Skimmed) := by
  have hsource : (String.ofList (d.chars ++ rest.toList)).toList =
      "<!DOCTYPE".toList ++ (d.body ++ '>' :: rest.toList) :=
    String.toList_ofList.trans (d.chars_append rest.toList)
  refine ⟨⟨fun h => d.closed_iff.mp (closed_of_read hsource h), fun h => ?_⟩,
    d.skimmed_of_unmarked⟩
  generalize String.ofList (d.chars ++ rest.toList) = source at hsource
  have hc : (Cursor.ofText source.toList).rest =
      "<!DOCTYPE".toList ++ d.body ++ ['>'] ++ rest.toList := by
    rw [hsource, ofText_eq (by simp), List.append_assoc, List.append_assoc, List.singleton_append]
  have hne : (Cursor.ofText source.toList).rest ≠ [] := by simp [hc]
  have hreads : Reads ("<!DOCTYPE".toList ++ d.body ++ ['>'] ++ rest.toList) (· = .doctype d.body)
      rest.toList := reads_doctype (d.closed_iff.mpr h)
  obtain ⟨t, c, htoken, rfl, hrest⟩ := hreads _ hc
  have hbegin : (Cursor.ofText rest.toList).rest = c.rest := by rw [ofText_eq hmark, hrest]
  have hbehind : Behind [.node root (.doctype (String.ofList d.body)) []] Assembly.start.opened
      Assembly.start.doc (afterDoctype d.body).opened (afterDoctype d.body).doc := .top []
  have hplain : '&' ∉ (Cursor.ofText rest.toList).rest := by rwa [ofText_eq hmark]
  obtain ⟨trees, rfl, hresume⟩ := resume_behind hbehind hbegin hplain
    (fun placed hplaced => hdoctype _ (List.mem_map_of_mem hplaced)) (assemble_of_read hread)
  refine read_of_assemble ?_ path'
  rw [resume_ofText, resume_token hne htoken, step_doctype]
  exact hresume.trans (congrArg Except.ok (ofForest_append_forest _ trees).symm)

/-- A doctype for a drawing, with a comment in its subset. -/
def commentedDoctype : DoctypeDeclaration where
  before := .single
  name := ⟨"svg".toList, by decide, by simp [isSpace]⟩
  external := none
  between := Separator.single.toSpace
  subset := some ⟨[.comment " x > y ".toList (by unfold Closed; decide)], .none⟩

theorem read_doctype_commented :
    commentedDoctype.chars = "<!DOCTYPE svg [<!-- x > y -->]>".toList ∧
      ∃ doc, read "<svg/>" none = .ok doc ∧
        read (String.ofList (commentedDoctype.chars ++ "<svg/>".toList)) none =
          .ok (.ofForest
            (.node root (.doctype (String.ofList commentedDoctype.body)) [] :: doc.forest)) := by
  have hsome : (read "<svg/>" none).toOption.isSome = true := by decide +kernel
  have hunmarked : ∀ subset, commentedDoctype.subset = some subset →
      ∀ item ∈ subset.items, item.Unmarked := by
    intro subset hsubset item hitem
    cases hsubset
    rw [List.mem_singleton.mp hitem]
    exact unmarked_of_all (by decide)
  have hdoctype : ∀ token ∈ tokensOf "<svg/>".toList, token.doctype? = none := by
    decide +kernel
  refine ⟨by decide, ?_⟩
  cases hread : read "<svg/>" none with
  | error diagnostic =>
    rw [hread] at hsome
    cases hsome
  | ok doc =>
    have hdoc := read_doctype commentedDoctype hread (by decide) (by decide) hdoctype none
    exact ⟨doc, rfl, hdoc.1.mpr (hdoc.2 hunmarked)⟩

/-- A lone apostrophe in a comment of the subset hides the end of the doctype, and with it all that
follows: the root is the only node. -/
example : (read "<!DOCTYPE svg [<!-- don't -->]><svg/>" none).toOption.map (·.nodes.size) =
    some 1 := by
  decide +kernel

end Document

end SvgTidy
