import SvgTidy.Proofs.AdjacentTexts
import SvgTidy.Proofs.Convergence
import SvgTidy.Proofs.RoundTrip

/-!
# Tidying twice is tidying once

With any list of cleanups, the text that tidying gives is left as it is when it is tidied again with
the same options. After the passes over a document every tree is calm, and so is every tree of what is
read from its text: there, texts are joined and nodes have other numbers, neither of which matters to a
cleanup.

Principal results: `Document.read_swept` — what is written of a document after its passes is read;
`tidy_idempotent` — tidying again; it covers `minify`, whose output is always read.
-/

namespace SvgTidy

open Markup Pass

/-! ## Numbers do not matter -/

namespace Cleanup

variable {jobs : List Job} {fixed : Bool}

mutual

theorem calm_number (next : Nat) : ∀ {fixed : Bool} {t : Tree}, Calm jobs fixed t →
    Calm jobs fixed (t.number next)
  | _, .node _ _ children, .leaf hkind hsettled => .leaf hkind hsettled
  | _, .node _ _ children, .element hsettled hgives hpruned hbelow => by
    refine .element hsettled hgives ?_ (calm_numberAll (next + 1) hbelow)
    cases children <;> exact hpruned

theorem calm_numberAll (next : Nat) : ∀ {fixed : Bool} {trees : List Tree},
    (∀ t ∈ trees, Calm jobs fixed t) → ∀ t ∈ Tree.numberAll next trees, Calm jobs fixed t
  | _, [], _ => nofun
  | _, t :: others, h => by
    intro x hx
    rcases List.mem_cons.mp hx with rfl | hx
    · exact calm_number next (h t List.mem_cons_self)
    · exact calm_numberAll _ (fun y hy => h y (List.mem_cons_of_mem _ hy)) x hx

end

end Cleanup

/-! ## Texts -/

namespace Document

variable {cleanups : List Cleanup} {doc : Document} {source : String} {path : Option String}

/-- Whatever is read can be written. -/
theorem writable_of_read (h : read source path = .ok doc) : Writable doc.forest := by
  obtain ⟨trees, rfl, hrows⟩ := exists_forest_of_assemble (assemble_of_read h)
  have hfits : ∀ t ∈ trees, t.Everywhere NodeData.Fits := fun t ht =>
    (hrows.readable t ht).mono fun _ _ hboth => hboth.1
  rw [forest_ofForest]
  refine ⟨Tree.everywhere_numberAll 1 hfits, ?_, ?_⟩
  · rw [Tree.map_data_numberAll]
    exact hrows.admits
  · rw [Tree.map_data_numberAll]
    exact hrows.order

/-- The doctype that is left, if one is, redeclares no predefined entity. -/
theorem keepsPredefined_of_swept (hdoc : doc.WellFormed)
    (h : .removeDoctype ∈ cleanups ∨ doc.declared.KeepsPredefined) {body : String}
    (hbody : .doctype body ∈ (Cleanup.swept cleanups doc).map Tree.data) :
    EntityTable.KeepsPredefined (.ofDoctype body.toList) := by
  rcases h with hremove | hkeeps
  · obtain ⟨t, ht, hdata⟩ := List.mem_map.mp hbody
    have hjob : .removal ⟨Cleanup.selectsDoctype, fun _ _ _ => rfl, fun _ => rfl⟩ ∈
        Cleanup.jobsOf cleanups := List.mem_filterMap.mpr ⟨.removeDoctype, hremove, rfl⟩
    have hsettled := (Cleanup.calm_swept cleanups doc t ht).settled _ hjob
    rw [hdata] at hsettled
    cases hsettled
  · obtain ⟨-, hshows, -⟩ := hdoc.forest_spec
    obtain ⟨t, ht, hdata⟩ := List.mem_map.mp (Cleanup.doctype_mem_of_sweepAll _ _ hbody)
    exact keepsPredefined_of_declared hkeeps (hdata ▸ (hshows t ht).data?)

/-- What is written of a document after its passes is read, as what is left with its texts joined. -/
theorem read_text_swept (h : read source path = .ok doc)
    (hdoctype : .removeDoctype ∈ cleanups ∨ doc.declared.KeepsPredefined) {layout : Layout}
    (hindent : ∀ c ∈ layout.indent.unit, Text.isBlank c = true) (path' : Option String) :
    read (String.ofList (layout.text (Cleanup.swept cleanups doc))) path' =
      .ok (.ofForest (layout.joinAll false 0 (Cleanup.swept cleanups doc))) := by
  have hwritable : Writable (Cleanup.swept cleanups doc) := (writable_of_read h).sweepAll _
  have hforest := hwritable.readableForest
    (fun body hbody => keepsPredefined_of_swept (wellFormed_of_read h) hdoctype hbody) layout
  refine read_of_assemble ?_ path'
  rw [String.toList_ofList, ← Layout.text_joinAll hindent]
  exact assemble_text hindent hforest

/-- **What is written of a document after its passes is read**, and leaves later passes nothing to do.
-/
theorem read_swept (h : read source path = .ok doc)
    (hdoctype : .removeDoctype ∈ cleanups ∨ doc.declared.KeepsPredefined) {layout : Layout}
    (hindent : ∀ c ∈ layout.indent.unit, Text.isBlank c = true) (path' : Option String) :
    ∃ again, read (String.ofList (layout.text (Cleanup.swept cleanups doc))) path' = .ok again ∧
      layout.text (Cleanup.swept cleanups again) = layout.text (Cleanup.swept cleanups doc) := by
  have hcalm := Cleanup.calm_joinAll layout false 0 (Cleanup.calm_swept cleanups doc)
  refine ⟨.ofForest (layout.joinAll false 0 (Cleanup.swept cleanups doc)),
    read_text_swept h hdoctype hindent path', ?_⟩
  have hkept : Cleanup.swept cleanups (.ofForest (layout.joinAll false 0 _)) = _ :=
    Cleanup.swept_of_calm (by rw [forest_ofForest]; exact Cleanup.calm_numberAll 1 hcalm)
  rw [hkept, forest_ofForest, text_numberAll, Layout.text_joinAll hindent]

end Document

section Tidying

variable {S : Slots} {text : String} {options : Options S} {cleanups : List Cleanup} {doc : Document}

/-- A text that is read is tidied, and this is what is written. -/
theorem tidy_of_read (hplugins : options.plugins = cleanups.map Cleanup.plugin)
    (hdata : options.dataUri = none) (h : Document.read text options.path = .ok doc) :
    ∃ out, (tidy text options).1 = .ok out ∧
      out.data = String.ofList (options.layout.text (Cleanup.swept cleanups doc)) := by
  obtain ⟨passes, hresult, hforest⟩ :=
    Document.tidy_spec hplugins (Document.wellFormed_of_read h)
  unfold tidy
  rw [h]
  simp only
  rw [hresult, hdata]
  refine ⟨_, rfl, ?_⟩
  show String.ofList (options.layout.text (doc.tidy options).doc.forest) = _
  rw [hforest]

/-- A text that is tidied is read. -/
theorem exists_read_of_tidy {out : Output} (h : (tidy text options).1 = .ok out) :
    ∃ doc, Document.read text options.path = .ok doc := by
  unfold tidy at h
  split at h
  · cases h
  · rename_i doc hread
    exact ⟨doc, hread⟩

/-- Tidying again with any list of cleanups. -/
theorem tidy_tidy {out : Output} (hplugins : options.plugins = cleanups.map Cleanup.plugin)
    (hindent : ∀ c ∈ options.layout.indent.unit, Text.isBlank c = true)
    (hdata : options.dataUri = none) (h : (tidy text options).1 = .ok out)
    (hdoctype : .removeDoctype ∈ cleanups ∨
      ∀ doc, Document.read text options.path = .ok doc → doc.declared.KeepsPredefined) :
    (∃ doc, Document.read out.data options.path = .ok doc) ∧
      ∃ again, (tidy out.data options).1 = .ok again ∧ again.data = out.data := by
  obtain ⟨doc, hread⟩ := exists_read_of_tidy h
  obtain ⟨first, hfirst, hwritten⟩ := tidy_of_read hplugins hdata hread
  obtain rfl : first = out := Except.ok.inj (hfirst.symm.trans h)
  obtain ⟨again, hagain, hsame⟩ := Document.read_swept hread
    (hdoctype.imp_right fun hkeeps => hkeeps doc hread) hindent options.path
  rw [← hwritten] at hagain
  obtain ⟨second, hsecond, hlast⟩ := tidy_of_read hplugins hdata hagain
  exact ⟨⟨again, hagain⟩, second, hsecond, by rw [hlast, hsame, ← hwritten]⟩

end Tidying

/-- **Tidying twice is tidying once.** With any list of cleanups, one pass or several, and any layout
that indents by blanks, the text that tidying gives is given back when it is tidied again with the
same options, unless a doctype that redeclares predefined entities is kept. In particular what
`minify` gives is read, and `minify` gives it back. -/
theorem tidy_idempotent :
    (∀ {S : Slots} (text : String) (cleanups : List Cleanup) (options : Options S) (out : Output),
      options.plugins = cleanups.map Cleanup.plugin →
      (∀ c ∈ options.layout.indent.unit, Text.isBlank c = true) → options.dataUri = none →
      (tidy text options).1 = .ok out →
      (.removeDoctype ∈ cleanups ∨
        ∀ doc, Document.read text options.path = .ok doc → doc.declared.KeepsPredefined) →
      ∃ again, (tidy out.data options).1 = .ok again ∧ again.data = out.data) ∧
    ∀ text out : String, minify text = .ok out →
      (∃ doc, Document.read out none = .ok doc) ∧ minify out = .ok out := by
  refine ⟨fun text cleanups options out hplugins hindent hdata h hdoctype =>
    (tidy_tidy hplugins hindent hdata h hdoctype).2, fun text out h => ?_⟩
  unfold minify at h ⊢
  cases hfirst : (tidy text ({} : Options Slots.none)).1 with
  | error error =>
    rw [hfirst] at h
    cases h
  | ok first =>
    rw [hfirst] at h
    obtain rfl : first.data = out := Except.ok.inj h
    have hindent : ∀ c ∈ ({} : Options Slots.none).layout.indent.unit, Text.isBlank c = true :=
      List.all_eq_true.mp (by decide)
    have hplugins : ({} : Options Slots.none).plugins = Cleanup.preset.map Cleanup.plugin := rfl
    obtain ⟨hread, again, hagain, hsame⟩ :=
      tidy_tidy hplugins hindent rfl hfirst (.inl (by decide))
    refine ⟨hread, ?_⟩
    rw [hagain]
    exact congrArg Except.ok hsame

/-- A drawing with a doctype, a comment between texts, groups to dissolve and a colour to shorten. -/
def editedDrawing : String :=
  "<!DOCTYPE a [<!ENTITY w 'a<b'>]><a>b<!--x-->&w;<g><g/>c<g id='k' fill='#F00'/></g></a>"

/-- Several passes with some of the cleanups, and lines of their own for nodes. -/
def severalPasses : Options Slots.none where
  multipass := true
  plugins := [Cleanup.collapseGroups, .removeComments, .convertColors, .removeEmptyContainers].map
    Cleanup.plugin
  layout := { pretty := true, indent := .tab, lineEnding := .crlf, finalNewline := true }

theorem tidy_idempotent_editedDrawing :
    (∀ doc, Document.read editedDrawing none = .ok doc → doc.declared.KeepsPredefined) ∧
      (∃ out again, (tidy editedDrawing severalPasses).1 = .ok out ∧
        (tidy out.data severalPasses).1 = .ok again ∧ again.data = out.data) ∧
      ∃ out, minify editedDrawing = .ok out ∧ minify out = .ok out := by
  have hread : (Document.read editedDrawing none).toOption.all
      (fun doc => decide doc.declared.KeepsPredefined) = true := by
    decide +kernel
  have htidy : (tidy editedDrawing severalPasses).1.toOption.isSome = true := by decide +kernel
  have hminify : (minify editedDrawing).toOption.isSome = true := by decide +kernel
  have hkeeps : ∀ doc, Document.read editedDrawing none = .ok doc →
      doc.declared.KeepsPredefined := by
    intro doc hdoc
    rw [hdoc] at hread
    exact of_decide_eq_true hread
  refine ⟨hkeeps, ?_, ?_⟩
  · cases hout : (tidy editedDrawing severalPasses).1 with
    | error error =>
      rw [hout] at htidy
      cases htidy
    | ok out =>
      obtain ⟨again, hagain, hsame⟩ := tidy_idempotent.1 editedDrawing _ severalPasses out rfl
        (List.all_eq_true.mp (by decide)) rfl hout (.inr hkeeps)
      exact ⟨out, again, rfl, hagain, hsame⟩
  · cases hout : minify editedDrawing with
    | error error =>
      rw [hout] at hminify
      cases hminify
    | ok out => exact ⟨out, rfl, (tidy_idempotent.2 editedDrawing out hout).2⟩

end SvgTidy
