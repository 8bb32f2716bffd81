import SvgTidy.Proofs.ColorMeaning
import SvgTidy.Proofs.NodeFilters

/-!
# What shortening colours does to a document

A pass that shortens colours changes values in the elements that are attached. All else that a
document shows is the same (`Document.Updated`).

Principal result: `convertColors_preserves` — colours and styles mean what they meant, are no longer
and are not shortened again, and a pass changes nothing but their values.
-/

namespace SvgTidy

open Pass

namespace Document

variable {doc next : Document} {change : NodeData → NodeData}

/-- The payloads of attached nodes are changed, and nothing else is. -/
structure Updated (doc next : Document) (change : NodeData → NodeData) : Prop where
  data? : ∀ id, next.data? id =
    if doc.isAttached id then (doc.data? id).map change else doc.data? id
  parent? : ∀ id, next.parent? id = doc.parent? id
  children : ∀ id, next.children id = doc.children id

/-- Where something remains of every node, all are left, and where they were. -/
theorem Thinned.updated (h : doc.Thinned next fun _ data => some (change data))
    (hdoc : doc.WellFormed) (hroot : change .root = .root)
    (hdetached : ∀ id, doc.isAttached id = false → next.node? id = doc.node? id) :
    doc.Updated next change := by
  have hremaining (id : NodeId) :
      doc.remaining? (fun _ data => some (change data)) id = (doc.data? id).map change := by
    rw [remaining?]
    cases doc.data? id <;> rfl
  have hremains {id : NodeId} (hknown : doc.knows id = true) :
      (doc.remaining? (fun _ data => some (change data)) id).isSome = true := by
    obtain ⟨data, hdata⟩ := knows_iff_data?.mp hknown
    rw [hremaining, hdata]
    rfl
  have hleft {id : NodeId} (hid : doc.isAttached id = true) : next.isAttached id = true :=
    (h.attached_iff id).mpr ⟨hid, fun up hup _ =>
      hremains (hdoc.knows_of_mem_climb (hdoc.knows_of_isAttached hid) hup)⟩
  refine ⟨fun id => ?_, fun id => ?_, fun id => ?_⟩ <;> cases hid : doc.isAttached id
  case refine_1.false => rw [Document.data?, hdetached id hid]; rfl
  case refine_1.true =>
    by_cases htop : id = root
    · rw [htop, h.wellFormed.data?_root, hdoc.data?_root, if_pos rfl, Option.map_some, hroot]
    · rw [h.data? id (hleft hid) htop, hremaining, if_pos rfl]
  case refine_2.false => rw [Document.parent?, hdetached id hid]; rfl
  case refine_2.true => exact h.parent? id (hleft hid)
  case refine_3.false => rw [Document.children, hdetached id hid]; rfl
  case refine_3.true =>
    rw [h.children id (hleft hid)]
    exact List.filter_eq_self.mpr fun child hchild => hremains (hdoc.child_known id child hchild).1

end Document

namespace Cleanup

open ColorRules

/-- Only some attributes hold colours. -/
theorem ColorRules.convertValue_of_not_color (rules : ColorRules) {name : String}
    (hname : name ∉ colorProperties) (hstyle : name ≠ "style") (value : String) :
    rules.convertValue name value = value := by
  rw [convertValue, if_neg (by simpa using hname), if_neg hstyle]

/-- A pass that shortens colours changes values of attached elements. -/
theorem run_recolors {S : Slots} {σ : Type} (observe : Observer S σ) {rules : ColorRules}
    (hrules : rules.shortHex = true ∨ rules.shortName = true) (info : PassInfo) {doc : Document}
    (hdoc : doc.WellFormed) (context : Context S) (seen : σ) :
    ∃ next, run observe [(convertColors rules).plugin] info doc context seen = ⟨.ok (), next⟩ ∧
      doc.Updated next.doc (·.mapElement (·.mapValues rules.convertValue)) := by
  have hjobs : jobsOf [convertColors rules] = [.colors rules] := by
    rw [jobsOf, List.filterMap_cons_some (b := .colors rules)]
    · rfl
    · rw [job?, if_pos (by simpa using hrules)]
  have hlocal : ∀ job ∈ jobsOf [convertColors rules], job.isLocal = true := by
    rw [hjobs]
    exact List.forall_mem_singleton.mpr rfl
  obtain ⟨next, hrun, hthinned, hdetached⟩ := run_thins observe hlocal info hdoc context seen
  rw [hjobs] at hthinned
  exact ⟨next, hrun, hthinned.updated hdoc rfl hdetached⟩

/-- **Shortening colours keeps what they mean.** With any rules, a colour is the same one in its short
form, a style says the same, and both are no longer than before and stay as they are when they are
shortened again. A pass over a document, however this has come about, changes nothing but the values
of attributes that hold a colour or a style, in the elements that are attached. -/
theorem convertColors_preserves {rules : ColorRules}
    (hrules : rules.shortHex = true ∨ rules.shortName = true) :
    (∀ color, denote (rules.convert color) = denote (Text.trim color) ∧
      (rules.convert color).length ≤ color.length ∧
      rules.convert (rules.convert color) = rules.convert color) ∧
    (∀ style, meanings (rules.convertStyle style) = meanings style ∧
      (rules.convertStyle style).length ≤ style.length ∧
      rules.convertStyle (rules.convertStyle style) = rules.convertStyle style) ∧
    (∀ name, name ∉ colorProperties → name ≠ "style" → ∀ value,
      rules.convertValue name value = value) ∧
    ∀ {first doc : Document}, first.Initial → Document.History first doc →
      ∀ {S : Slots} {σ : Type} (observe : Observer S σ) (info : PassInfo) (context : Context S)
        (seen : σ), ∃ next,
        run observe [(convertColors rules).plugin] info doc context seen = ⟨.ok (), next⟩ ∧
          doc.Updated next.doc (·.mapElement (·.mapValues rules.convertValue)) := by
  refine ⟨fun color => ⟨denote_convert rules color, length_convert_le rules color, ?_⟩,
    fun style => ⟨meanings_convertStyle rules style, length_convertStyle_le rules style, ?_⟩,
    fun _ hname hstyle => rules.convertValue_of_not_color hname hstyle,
    fun hfirst hdoc _ _ observe info context seen =>
      run_recolors observe hrules info (hdoc.evolves hfirst.wellFormed).1 context seen⟩
  · rw [convert_merge, merge_self]
  · rw [convertStyle_merge, merge_self]

/-- A shape with a colour in digits, and a style with stray separators. -/
def painted : Document :=
  [.createElement { name := "rect" }, .append Document.root ⟨1⟩,
    .updateElement ⟨1⟩ (·.setAttribute "fill" " #FF0000"),
    .updateElement ⟨1⟩ (·.setAttribute "style" ";stroke : #aabbcc; ;color:#000080"),
    .updateElement ⟨1⟩ (·.setAttribute "id" "#ff0000")].foldl Call.apply .empty

theorem convertColors_preserves_painted :
    (({} : ColorRules).shortHex = true ∨ ({} : ColorRules).shortName = true) ∧
      denote (({} : ColorRules).convert " #FF0000".toList) = .rgb 255 0 0 ∧
      Document.Initial .empty ∧ Document.History .empty painted ∧
      ∃ next, run (S := Slots.none) .none [(convertColors {}).plugin] ⟨none, 0⟩ painted .empty () =
          ⟨.ok (), next⟩ ∧
        painted.Updated next.doc (·.mapElement (·.mapValues ({} : ColorRules).convertValue)) ∧
        next.doc.write {} =
          "<rect fill=\"red\" style=\"stroke:#abc;color:navy\" id=\"#ff0000\"/>" := by
  have hrules : ({} : ColorRules).shortHex = true ∨ ({} : ColorRules).shortName = true := .inl rfl
  have hhistory : Document.History .empty painted := .calls _ _
  obtain ⟨hcolor, -, -, hpass⟩ := convertColors_preserves hrules
  obtain ⟨next, hrun, hupdated⟩ :=
    hpass .empty hhistory (S := Slots.none) .none ⟨none, 0⟩ .empty ()
  have hwritten : (run (S := Slots.none) .none [(convertColors {}).plugin] ⟨none, 0⟩ painted .empty
      ()).state.doc.write {} =
        "<rect fill=\"red\" style=\"stroke:#abc;color:navy\" id=\"#ff0000\"/>" := by
    decide +kernel
  rw [hrun] at hwritten
  refine ⟨hrules, ?_, .empty, hhistory, next, hrun, hupdated, hwritten⟩
  rw [(hcolor _).1]
  decide +kernel

end Cleanup

end SvgTidy
