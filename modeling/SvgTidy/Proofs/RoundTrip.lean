import SvgTidy.Proofs.ReadForests
import SvgTidy.Proofs.WrittenForests

/-!
# Reading undoes writing

A document that was read is written, in whatever layout, as a text that reads as the same document:
the same nodes under the same identifiers, the same children in the same order, the same payloads.
The layout has to indent by blanks, and the doctype must leave the predefined entities alone, since
escaped text refers to them.

Principal result: `read_write`.
-/

namespace SvgTidy.Document

open Markup

variable {doc : Document}

/-- The entities that the doctypes of a document declare. -/
def declared (doc : Document) : EntityTable :=
  doc.nodes.toList.flatMap fun node =>
    match node.data with
    | .doctype body => EntityTable.ofDoctype body.toList
    | _ => []

theorem keepsPredefined_of_declared (h : doc.declared.KeepsPredefined) {id : NodeId} {body : String}
    (hdata : doc.data? id = some (.doctype body)) :
    EntityTable.KeepsPredefined (.ofDoctype body.toList) := by
  obtain ⟨node, hnode, hbody⟩ := Option.map_eq_some_iff.mp hdata
  have hmem : node ∈ doc.nodes.toList :=
    Array.mem_toList_iff.mpr (Array.mem_of_getElem? hnode)
  intro entry hentry
  refine h entry (List.mem_flatMap.mpr ⟨node, hmem, ?_⟩)
  rw [hbody]
  exact hentry

mutual

theorem tree_number (l : Layout) : ∀ (t : Tree) (next : Nat) (verbatim : Bool) (depth : Nat)
    (rest : List Char), l.tree verbatim depth (t.number next) rest = l.tree verbatim depth t rest
  | .node id data children, next, verbatim, depth, rest => by
    have ih := @trees_number l children
    cases data with
    | element e =>
      cases children with
      | nil => rfl
      | cons child others =>
        simp only [Tree.numberAll, Layout.trees] at ih
        simp only [Tree.number, Tree.numberAll, Layout.tree, ih]
    | _ => rfl

theorem trees_number (l : Layout) : ∀ (trees : List Tree) (next : Nat) (verbatim : Bool)
    (depth : Nat) (rest : List Char),
    l.trees verbatim depth (Tree.numberAll next trees) rest = l.trees verbatim depth trees rest
  | [], _, _, _, _ => rfl
  | t :: others, next, verbatim, depth, rest => by
    rw [Tree.numberAll, Layout.trees, Layout.trees, tree_number l t, trees_number l others]

end

/-- Identifiers are not written. -/
theorem text_numberAll (l : Layout) (next : Nat) (trees : List Tree) :
    l.text (Tree.numberAll next trees) = l.text trees := by
  rw [Layout.text, Layout.text, trees_number]

/-- The trees of a document that was read can be written, if its doctype lets them. -/
theorem exists_readableForest_of_read {source : String} {path : Option String}
    (h : read source path = .ok doc) (hkeeps : doc.declared.KeepsPredefined) :
    ∃ trees, doc = ofForest trees ∧ ReadableForest trees := by
  obtain ⟨trees, rfl, hrows⟩ := exists_forest_of_assemble (assemble_of_read h)
  refine ⟨trees, rfl, hrows.readable, hrows.admits, hrows.order, fun body hbody => ?_⟩
  obtain ⟨-, hshows, -⟩ := (wellFormed_of_read h).forest_spec
  rw [forest_ofForest] at hshows
  rw [← Tree.map_data_numberAll 1] at hbody
  obtain ⟨t, ht, hdata⟩ := List.mem_map.mp hbody
  exact keepsPredefined_of_declared hkeeps (hdata ▸ (hshows t ht).data?)

/-- **Reading undoes writing.** A document that was read is read again from what any layout with
blank indentation writes for it, provided that its doctype redeclares no predefined entity. -/
theorem read_write {source : String} {path : Option String} (h : read source path = .ok doc)
    (hkeeps : doc.declared.KeepsPredefined) {layout : Layout}
    (hindent : ∀ c ∈ layout.indent.unit, Text.isBlank c = true) (path' : Option String) :
    read (doc.write layout) path' = .ok doc := by
  obtain ⟨trees, rfl, htrees⟩ := exists_readableForest_of_read h hkeeps
  refine read_of_assemble ?_ path'
  rw [write, forest_ofForest, text_numberAll, String.toList_ofList]
  exact assemble_text hindent htrees

theorem read_write_drawing :
    ∃ doc, read "<?xml version='1.0'?><!DOCTYPE svg [<!ENTITY w 'a<b'>]><!--x--><svg t='&w;&#39;'>
        <text> &w; <b> c </b></text> d &amp;<![CDATA[]]]]><g/></svg>" none = .ok doc ∧
      doc.declared.KeepsPredefined ∧ (∀ c ∈ Indent.tab.unit, Text.isBlank c = true) ∧
      read (doc.write
        { pretty := true, indent := .tab, lineEnding := .crlf, finalNewline := true
          shortTags := false }) none = .ok doc := by
  have hok : (read "<?xml version='1.0'?><!DOCTYPE svg [<!ENTITY w 'a<b'>]><!--x--><svg t='&w;&#39;'>
        <text> &w; <b> c </b></text> d &amp;<![CDATA[]]]]><g/></svg>" none).toOption.any
      (fun doc => decide doc.declared.KeepsPredefined) = true := by
    decide +kernel
  have hindent : ∀ c ∈ Indent.tab.unit, Text.isBlank c = true :=
    List.all_eq_true.mp (by decide)
  generalize hread : read _ none = result at hok ⊢
  cases result with
  | error diagnostic => cases hok
  | ok doc =>
    have hkeeps : doc.declared.KeepsPredefined := of_decide_eq_true hok
    exact ⟨doc, rfl, hkeeps, hindent, read_write hread hkeeps hindent none⟩

end SvgTidy.Document
