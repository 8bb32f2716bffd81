import SvgTidy.Proofs.DocumentOrder
import SvgTidy.Proofs.ReadForests

/-!
# What every document that was read has in common

The steps of reading leave out what no text can hold: text outside of elements and text of nothing but
white space, a second attribute of a name, a second doctype, bodies in which their closing mark
occurs. `Normal` puts together what follows for the document, by its identifiers alone: whoever
writes it out or refers to its nodes by their numbers may rely on it.

Principal results: `exists_rows` — every node of a document that was read, with the payloads right
below it; `normal_of_read` — the document is normal.
-/

namespace SvgTidy

namespace Tree

mutual

/-- The numbers in a numbered tree are consecutive. -/
theorem ids_number (next : Nat) : ∀ t : Tree,
    (t.number next).ids = (List.range' next t.ids.length).map NodeId.mk
  | .node _ _ children => by
    rw [number, ids, ids, idsAll_numberAll (next + 1) children, List.length_cons, List.range'_succ,
      List.map_cons]

theorem idsAll_numberAll (next : Nat) : ∀ trees : List Tree,
    idsAll (numberAll next trees) = (List.range' next (idsAll trees).length).map NodeId.mk
  | [] => rfl
  | t :: others => by
    rw [numberAll, idsAll, idsAll, ids_number next t, idsAll_numberAll _ others, List.length_append,
      ← List.map_append, List.range'_append_1]

end

/-- A condition all over a tree holds all over the tree of each of its nodes. -/
theorem Everywhere.exists_subtree {doc : Document} {P : NodeData → List NodeData → Prop} {t : Tree}
    (h : t.Everywhere P) (hshows : doc.Shows t) {id : NodeId} (hid : id ∈ t.ids) :
    ∃ s : Tree, s.id = id ∧ doc.Shows s ∧ s.Everywhere P := by
  induction h with
  | node here below ih =>
    rcases List.mem_cons.mp hid with rfl | hid
    · exact ⟨_, rfl, hshows, .node here below⟩
    · obtain ⟨t, ht, hid⟩ := mem_idsAll.mp hid
      exact ih t ht (hshows.subtrees t ht) hid

end Tree

namespace Document

open Markup
open SvgTidy.Tree (ids idsAll mem_idsAll idsAll_append)

variable {doc : Document} {id : NodeId} {source : String} {path : Option String}

/-! ## The nodes of a document that was read -/

theorem rows_forest (h : read source path = .ok doc) : Rows .root doc.forest := by
  obtain ⟨trees, rfl, hrows⟩ := exists_forest_of_assemble (assemble_of_read h)
  rw [forest_ofForest]
  refine ⟨Tree.everywhere_numberAll 1 hrows.readable, ?_, ?_, ?_⟩
  all_goals rw [Tree.map_data_numberAll]
  · exact hrows.admits
  · exact hrows.spaced
  · exact hrows.order

/-- **The numbers of the nodes are their places in document order.** -/
theorem descendants_root_of_read (h : read source path = .ok doc) :
    doc.descendants root = (List.range' 1 (doc.nodes.size - 1)).map NodeId.mk := by
  rw [(wellFormed_of_read h).descendants_root]
  obtain ⟨trees, rfl, -⟩ := exists_forest_of_assemble (assemble_of_read h)
  obtain ⟨hsize, -, -⟩ := plantAll_spec empty WellFormed.empty.knows_root trees
  have hone : empty.nodes.size = 1 := rfl
  rw [forest_ofForest, Tree.idsAll_numberAll, ofForest, hsize, hone, Nat.add_sub_cancel_left]

/-- Nothing that was read is detached. -/
theorem above_of_read (h : read source path = .ok doc) (hid : doc.knows id = true)
    (hne : id ≠ root) : doc.Above root id := by
  have hwell := wellFormed_of_read h
  rw [← hwell.mem_forest_iff, ← hwell.descendants_root, descendants_root_of_read h]
  obtain ⟨index⟩ := id
  have hsize : index < doc.nodes.size := knows_iff.mp hid
  have hpos : index ≠ 0 := fun hzero => hne (congrArg NodeId.mk hzero)
  apply List.mem_map_of_mem
  rw [List.mem_range'_1]
  omega

/-- **Every node of a document that was read**: its payload, the trees right below it, and what fits
there. -/
theorem exists_rows (h : read source path = .ok doc) (hid : doc.knows id = true) :
    ∃ (data : NodeData) (trees : List Tree), doc.data? id = some data ∧
      doc.children id = trees.map Tree.id ∧ (∀ t ∈ trees, doc.data? t.id = some t.data) ∧
      (id ≠ root → data.Legible) ∧
      (∀ below ∈ trees.map Tree.data, data.Admits below) ∧
      NodeData.Spaced (trees.map Tree.data) := by
  have hwell := wellFormed_of_read h
  have hrows := rows_forest h
  obtain ⟨hchildren, hshows, -⟩ := hwell.forest_spec
  by_cases hroot : id = root
  · subst hroot
    obtain ⟨data, hdata, hkind⟩ := Option.map_eq_some_iff.mp ((hwell.root_iff root).mpr rfl)
    cases data <;> cases hkind
    exact ⟨_, doc.forest, hdata, hchildren, fun t ht => (hshows t ht).data?, fun hne => absurd rfl hne,
      hrows.admits, hrows.spaced⟩
  · have habove := above_of_read h hid hroot
    obtain ⟨t, ht, hmem⟩ := mem_idsAll.mp (hwell.mem_forest_iff.mpr habove)
    obtain ⟨s, rfl, hs, heverywhere⟩ := (hrows.readable t ht).exists_subtree (hshows t ht) hmem
    obtain ⟨hfits, hspaced⟩ := heverywhere.here
    exact ⟨s.data, s.children, hs.data?, hs.children, fun t ht => (hs.subtrees t ht).data?,
      fun _ => hfits.legible, hfits.admits, hspaced⟩

theorem WellFormed.ne_root_of_data? (h : doc.WellFormed) {data : NodeData}
    (hdata : doc.data? id = some data) (hkind : data.kind ≠ .root) : id ≠ root := by
  rintro rfl
  have hroot := (h.root_iff root).mpr rfl
  rw [kind?, hdata, Option.map_some, Option.some.injEq] at hroot
  exact hkind hroot

/-- A payload that is not that of the root is legible. -/
theorem legible_of_read (h : read source path = .ok doc) {data : NodeData}
    (hdata : doc.data? id = some data) (hkind : data.kind ≠ .root) : data.Legible := by
  have hroot := (wellFormed_of_read h).ne_root_of_data? hdata hkind
  obtain ⟨data', _, hdata', -, -, hlegible, -⟩ := exists_rows h (knows_iff_data?.mpr ⟨_, hdata⟩)
  cases hdata.symm.trans hdata'
  exact hlegible hroot

/-- It lies right below a node that admits it. -/
theorem exists_parent_of_read (h : read source path = .ok doc) {data : NodeData}
    (hdata : doc.data? id = some data) (hkind : data.kind ≠ .root) :
    ∃ parent around, doc.parent? id = some parent ∧ doc.data? parent = some around ∧
      around.Admits data := by
  have hwell := wellFormed_of_read h
  have hroot := hwell.ne_root_of_data? hdata hkind
  have habove := above_of_read h (knows_iff_data?.mpr ⟨_, hdata⟩) hroot
  obtain ⟨parent, hparent, -⟩ := Relation.TransGen.head'_iff.mp habove
  obtain ⟨around, trees, haround, hchildren, hbelow, -, hadmits, -⟩ :=
    exists_rows h (hwell.knows_parent hparent)
  obtain ⟨t, ht, rfl⟩ := List.mem_map.mp (hchildren ▸ (hwell.linked _ _).mpr hparent)
  cases hdata.symm.trans (hbelow t ht)
  exact ⟨parent, around, hparent, haround, hadmits _ (List.mem_map_of_mem ht)⟩

/-! ## The doctype -/

/-- What is no element has nothing below it. -/
theorem ids_of_kind_ne {t : Tree} (ht : t.Readable) (hkind : t.data.kind ≠ .element) :
    t.ids = [t.id] := by
  obtain ⟨id, data, children⟩ := t
  obtain ⟨hfits, -⟩ := ht.here
  have hleaf : data.isContainer = false := by
    have hlegible : data.Legible := hfits.legible
    cases data with
    | root => cases hlegible
    | element _ => exact absurd rfl hkind
    | _ => rfl
  have hnone : children.map Tree.data = [] := hfits.eq_nil_of_leaf hleaf
  rw [List.map_eq_nil_iff] at hnone
  rw [hnone]
  rfl

section Doctype

variable (h : read source path = .ok doc) {top : NodeId}
  (hdoctype : doc.kind? top = some .doctype)
include h hdoctype

theorem parent?_of_doctype : doc.parent? top = some root := by
  obtain ⟨data, hdata, hkind⟩ := Option.map_eq_some_iff.mp hdoctype
  obtain ⟨parent, around, hparent, haround, hadmits⟩ :=
    exists_parent_of_read h hdata (by rw [hkind]; nofun)
  cases data <;> cases hkind
  have hroot : around = .root := by
    cases around <;> first | rfl | cases hadmits
  have hkind : doc.kind? parent = some .root := by
    rw [kind?, haround, hroot]
    rfl
  rw [hparent, ((wellFormed_of_read h).root_iff parent).mp hkind]

/-- The trees at the top level: before a doctype there are neither elements nor other doctypes, and
behind it there are no other doctypes. -/
theorem exists_forest_of_doctype : ∃ before t after, doc.forest = before ++ t :: after ∧
    t.id = top ∧ t.data.kind = .doctype ∧
    (∀ s ∈ before, s.data.kind ≠ .element ∧ s.data.kind ≠ .doctype) ∧
    ∀ s ∈ after, s.data.kind ≠ .doctype := by
  have hwell := wellFormed_of_read h
  obtain ⟨hchildren, hshows, -⟩ := hwell.forest_spec
  have hmem := (hwell.linked _ _).mpr (parent?_of_doctype h hdoctype)
  obtain ⟨t, ht, rfl⟩ := List.mem_map.mp (hchildren ▸ hmem)
  have hkind : t.data.kind = .doctype := by
    rw [kind?, (hshows t ht).data?] at hdoctype
    exact Option.some.inj hdoctype
  obtain ⟨before, after, hforest⟩ := List.append_of_mem ht
  have horder := (rows_forest h).order
  rw [hforest, List.map_append, List.map_cons, NodeData.DoctypeFirst, List.pairwise_append,
    List.pairwise_cons] at horder
  obtain ⟨-, ⟨hafter, -⟩, hbefore⟩ := horder
  refine ⟨before, t, after, hforest, rfl, hkind, fun s hs => ?_, fun s hs hother => ?_⟩
  · exact hbefore _ (List.mem_map_of_mem hs) _ List.mem_cons_self hkind
  · exact (hafter _ (List.mem_map_of_mem hs) hother).2 hkind

/-- **There is no other doctype.** -/
theorem eq_of_doctype {other : NodeId} (hother : doc.kind? other = some .doctype) :
    other = top := by
  have hwell := wellFormed_of_read h
  obtain ⟨before, t, after, hforest, rfl, -, hbefore, hafter⟩ := exists_forest_of_doctype h hdoctype
  obtain ⟨front, s, back, hsplit, rfl, hkind, -, -⟩ := exists_forest_of_doctype h hother
  have hs : s ∈ before ++ t :: after := by simp [← hforest, hsplit]
  rcases List.mem_append.mp hs with hs | hs
  · exact absurd hkind (hbefore s hs).2
  · rcases List.mem_cons.mp hs with rfl | hs
    · rfl
    · exact absurd hkind (hafter s hs)

/-- **The doctype comes before every element**, wherever that stands. -/
theorem precedes_of_doctype {element : NodeId} (helement : doc.kind? element = some .element) :
    doc.Precedes top element := by
  have hwell := wellFormed_of_read h
  have hrows := rows_forest h
  obtain ⟨-, hshows, -⟩ := hwell.forest_spec
  obtain ⟨before, t, after, hforest, rfl, hkind, hbefore, -⟩ := exists_forest_of_doctype h hdoctype
  -- an element is not found in a tree whose top is none
  have hnot {s : Tree} (hs : s ∈ doc.forest) (hmem : element ∈ s.ids) : s.data.kind = .element := by
    by_contra hne
    rw [ids_of_kind_ne (hrows.readable s hs) hne, List.mem_singleton] at hmem
    rw [hmem, kind?, (hshows s hs).data?] at helement
    exact hne (Option.some.inj helement)
  obtain ⟨data, hdata, hdatakind⟩ := Option.map_eq_some_iff.mp helement
  have hne := hwell.ne_root_of_data? hdata (by rw [hdatakind]; decide)
  have habove := above_of_read h (knows_iff_data?.mpr ⟨_, hdata⟩) hne
  obtain ⟨s, hs, hmem⟩ := mem_idsAll.mp (hwell.mem_forest_iff.mpr habove)
  have hselement := hnot hs hmem
  rw [hforest] at hs
  rcases List.mem_append.mp hs with hs | hs
  · exact absurd hselement (hbefore s hs).1
  · rcases List.mem_cons.mp hs with rfl | hs
    · rw [hkind] at hselement
      cases hselement
    · obtain ⟨front, back, hafter⟩ := List.append_of_mem (mem_idsAll.mpr ⟨s, hs, hmem⟩)
      have horder : doc.descendants root = (idsAll before ++ t.ids ++ front) ++ element :: back := by
        rw [hwell.descendants_root, hforest, idsAll_append, idsAll, hafter]
        simp
      refine precedes_of_split horder ?_
      simp [t.id_mem_ids]

end Doctype

/-! ## Texts -/

/-- **A text stands in an element**, and without blanks at its ends unless the element keeps them. -/
theorem exists_element_of_text (h : read source path = .ok doc) {value : String}
    (hdata : doc.data? id = some (.text value)) :
    value ≠ "" ∧ ∃ parent e, doc.parent? id = some parent ∧ doc.element? parent = some e ∧
      (isTextElement e.name = true ∨
        (∀ c, value.toList.head? = some c → Text.isBlank c = false) ∧
          ∀ c, value.toList.getLast? = some c → Text.isBlank c = false) := by
  have hlegible : value.toList ≠ [] := legible_of_read h hdata nofun
  obtain ⟨parent, around, hparent, haround, hadmits⟩ := exists_parent_of_read h hdata nofun
  refine ⟨fun hempty => hlegible (by rw [hempty]; rfl), parent, ?_⟩
  cases around with
  | element e =>
    refine ⟨e, hparent, ?_, ?_⟩
    · rw [element?, haround]
      rfl
    · rw [← Text.trim_eq_self_iff]
      exact hadmits
  | _ => cases hadmits

/-- **No two texts stand side by side.** -/
theorem kind?_ne_text_of_neighbour (h : read source path = .ok doc) {parent a b : NodeId}
    {before after : List NodeId} (hchildren : doc.children parent = before ++ a :: b :: after)
    (ha : doc.kind? a = some .text) : doc.kind? b ≠ some .text := by
  have hmem : a ∈ doc.children parent := by simp [hchildren]
  obtain ⟨-, trees, -, htrees, hbelow, -, -, hspaced⟩ := exists_rows h (knows_of_mem_children hmem)
  rw [htrees, List.map_eq_append_iff] at hchildren
  obtain ⟨front, rest, rfl, -, hfirst⟩ := hchildren
  obtain ⟨s, rest, rfl, rfl, hsecond⟩ := List.map_eq_cons_iff.mp hfirst
  obtain ⟨t, back, rfl, rfl, -⟩ := List.map_eq_cons_iff.mp hsecond
  have hs := hbelow s (by simp)
  have ht := hbelow t (by simp)
  rw [List.map_append, NodeData.Spaced, List.isChain_append] at hspaced
  have hpair : s.data.kind ≠ .text ∨ t.data.kind ≠ .text := hspaced.2.1.rel
  rw [kind?, hs, Option.map_some, Option.some.injEq] at ha
  rw [kind?, ht, Option.map_some, Ne, Option.some.injEq]
  exact hpair.resolve_left fun hne => hne ha

/-! ## All of it -/

/-- A document in the form that reading gives it. -/
structure Normal (doc : Document) : Prop where
  /-- Every node belongs to the tree, -/
  attached : ∀ id, doc.knows id = true → doc.isAttached id = true
  /-- and its number is its place in document order. -/
  numbered : doc.descendants root = (List.range' 1 (doc.nodes.size - 1)).map NodeId.mk
  text : ∀ id value, doc.data? id = some (.text value) →
    value ≠ "" ∧ ∃ parent e, doc.parent? id = some parent ∧ doc.element? parent = some e ∧
      (isTextElement e.name = true ∨
        (∀ c, value.toList.head? = some c → Text.isBlank c = false) ∧
          ∀ c, value.toList.getLast? = some c → Text.isBlank c = false)
  apart : ∀ parent before a b after, doc.children parent = before ++ a :: b :: after →
    doc.kind? a = some .text → doc.kind? b ≠ some .text
  attributes : ∀ id e, doc.element? id = some e → (e.attributes.toList.map (·.name)).Nodup
  doctype : ∀ id, doc.kind? id = some .doctype → doc.parent? id = some root ∧
    (∀ other, doc.kind? other = some .doctype → other = id) ∧
    ∀ element, doc.kind? element = some .element → doc.Precedes id element
  comment : ∀ id value, doc.data? id = some (.comment value) →
    ¬ "--".toList <:+: value.toList ∧ value.toList.getLast? ≠ some '-'
  cdata : ∀ id value, doc.data? id = some (.cdata value) → ¬ "]]>".toList <:+: value.toList
  instruction : ∀ id i, doc.data? id = some (.instruction i) →
    (i.name ≠ "" ∧ ∀ c ∈ i.name.toList, c ∉ [' ', '\t', '\r', '\n', '?']) ∧
    ¬ "?>".toList <:+: i.value.toList ∧
    ∀ c, i.value.toList.head? = some c → c ∉ [' ', '\t', '\r', '\n']

/-- **Every document that was read is normal.** -/
theorem normal_of_read (h : read source path = .ok doc) : doc.Normal where
  attached id hid := by
    rw [(wellFormed_of_read h).isAttached_iff]
    by_cases hroot : id = root
    · exact .inl hroot
    · exact .inr (above_of_read h hid hroot)
  numbered := descendants_root_of_read h
  text _ _ hdata := exists_element_of_text h hdata
  apart _ _ _ _ _ hchildren ha := kind?_ne_text_of_neighbour h hchildren ha
  attributes _ e _ := e.attributes.nodup
  doctype _ hkind := ⟨parent?_of_doctype h hkind, fun _ hother => eq_of_doctype h hkind hother,
    fun _ helement => precedes_of_doctype h hkind helement⟩
  comment _ value hdata := (closed_comment_iff value.toList).mp (legible_of_read h hdata nofun)
  cdata _ value hdata := (closed_cdata_iff value.toList).mp (legible_of_read h hdata nofun)
  instruction _ i hdata := by
    obtain ⟨hname, hchars, hvalue, hclosed⟩ :
      (Token.instruction i.name.toList i.value.toList).Legible := legible_of_read h hdata nofun
    refine ⟨⟨fun hempty => hname (by rw [hempty]; rfl), fun c hc => ?_⟩,
      (closed_instruction_iff _).mp hclosed, fun c hc => ?_⟩
    · have hchar := hchars c hc
      simpa [Cursor.isInstructionNameChar, isSpace, and_assoc] using hchar
    · have hspace := hvalue c hc
      simpa [isSpace, and_assoc] using hspace

/-- A text that breaks off in a comment, with white space, two elements at the top level and a name
that is given twice. -/
def raggedDrawing : String :=
  "<?xml version='1.0'?><!DOCTYPE svg><a b='1' b='2'> x <g> y </g></a> <svg/><!-- "

theorem normal_of_read_raggedDrawing :
    ∃ doc, read raggedDrawing none = .ok doc ∧ doc.Normal ∧ doc.nodes.size = 8 ∧
      doc.value? ⟨6⟩ = some "y" := by
  have hread : (read raggedDrawing none).toOption.any
      (fun doc => doc.nodes.size = 8 ∧ doc.value? ⟨6⟩ = some "y") = true := by
    decide +kernel
  cases hdoc : read raggedDrawing none with
  | error diagnostic =>
    rw [hdoc] at hread
    cases hread
  | ok doc =>
    rw [hdoc] at hread
    exact ⟨doc, rfl, normal_of_read hdoc, of_decide_eq_true hread⟩

end Document

end SvgTidy
