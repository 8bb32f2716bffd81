import SvgTidy.Proofs.NamespaceDeclarations

/-!
# What is left alone when editor data goes

`Document.Spares` says that a document has lost nothing but declarations of some namespaces and what
has a name that stands for one of them, for a given sense of what names stand for. In the sense of
the pass a name stands for such a namespace once an `svg` element that stays has bound it, up to the
end of the document (`Document.BoundBefore`). By the scopes of declarations it would do so only below
that element, and only down to where the name is bound anew (`Document.BoundInScope`).

Principal results: `removeEditorData_spares` — the pass removes no more than what was bound before;
`removeEditorData_reach` — this is more than what is bound in scope.
-/

namespace SvgTidy

open Cleanup Pass

namespace Document

variable {doc next : Document} {namespaces : List String} {id : NodeId}

/-- Some nodes and attributes of a document are gone, and all others are as they were. An element
goes only for its own name or with one above it that goes for its name, and an attribute only for its
name or because it declares one of the namespaces on an `svg` element. `foreign` says at which nodes
a name stands for one of them. -/
structure Spares (doc next : Document) (namespaces : List String)
    (foreign : NodeId → String → Prop) : Prop where
  nodes : ∀ id, doc.isAttached id = true → next.isAttached id = true ∨
    ∃ up ∈ doc.chain id, next.isAttached up = false ∧
      ∃ e part, doc.element? up = some e ∧ namespacePart? e.name = some part ∧ foreign up part
  data? : ∀ id, next.isAttached id = true → ∃ keep : Attribute → Bool,
    next.data? id = (doc.data? id).map (·.mapElement (·.filterAttributes keep)) ∧
    ∀ e, doc.element? id = some e → ∀ a ∈ e.attributes.toList, keep a = false →
      (e.is "svg" = true ∧ (boundName? a).isSome = true ∧ a.value ∈ namespaces) ∨
        ∃ part, namespacePart? a.name = some part ∧ foreign id part
  parent? : ∀ id, next.isAttached id = true → next.parent? id = doc.parent? id
  children : ∀ id, next.isAttached id = true → (next.children id).Sublist (doc.children id)
  detached : ∀ id, doc.isAttached id = false → next.isAttached id = false ∧
    next.node? id = doc.node? id

/-- The nearest declaration binds a name to one of some namespaces. -/
def BoundInScope (doc : Document) (namespaces : List String) (id : NodeId) (part : String) : Prop :=
  ∃ e, ∃ value ∈ namespaces, doc.declaration? id part = some (e, value)

/-- An `svg` element that stays, the node itself or one before it in document order, binds a name to
one of some namespaces. -/
def BoundBefore (doc next : Document) (namespaces : List String) (id : NodeId) (part : String) :
    Prop :=
  ∃ up e, next.isAttached up = true ∧ (up = id ∨ doc.Precedes up id) ∧ doc.element? up = some e ∧
    e.is "svg" = true ∧ ∃ value ∈ namespaces, e.declaration? part = some value

theorem Learned.boundBefore {names : List String}
    (h : doc.Learned namespaces (next.isAttached · = true) id names) {name : String}
    (huses : usesName names name = true) :
    ∃ part, namespacePart? name = some part ∧ doc.BoundBefore next namespaces id part := by
  obtain ⟨part, hmem, hname⟩ := usesName_iff.mp huses
  obtain ⟨up, e, hstays, hup, he, hbound⟩ := h.before part hmem
  obtain ⟨hsvg, hdeclaration⟩ := Element.mem_namesBound_iff.mp hbound
  exact ⟨part, hname, up, e, hstays, hup, he, hsvg, hdeclaration⟩

/-- What a pass leaves is what was there without what was bound before. -/
theorem Stripped.spares (h : doc.Stripped next namespaces) :
    doc.Spares next namespaces (doc.BoundBefore next namespaces) := by
  refine ⟨fun id hid => (h.gone id hid).imp_right ?_, fun id hid => ?_, h.parent?, h.children,
    h.detached⟩
  · rintro ⟨up, hup, hgoes, e, names, he, hnames, huses⟩
    obtain ⟨part, hpart, hbound⟩ := hnames.boundBefore huses
    exact ⟨up, hup, Bool.not_eq_true _ ▸ hgoes, e, part, he, hpart, hbound⟩
  · obtain ⟨data, names, hdata, hnames, hstays, hnext⟩ := h.retains id hid
    rw [hnext, hdata]
    cases data with
    | element e =>
      refine ⟨fun a => !(e.is "svg" && declares namespaces a) && !usesName names a.name, ?_, ?_⟩
      · exact congrArg (some ∘ NodeData.element)
          (Element.cleanElement_eq_filterAttributes (hstays e rfl))
      · intro e' he' a _ hgone
        have hsame : some e = some e' := by
          rw [← he', Document.element?, hdata]
          rfl
        cases hsame
        rw [Bool.and_eq_false_iff, Bool.not_eq_false', Bool.not_eq_false', Bool.and_eq_true,
          declares_iff] at hgone
        exact hgone.imp_right hnames.boundBefore
    | _ =>
      refine ⟨fun _ => true, rfl, fun e he => ?_⟩
      rw [Document.element?, hdata] at he
      cases he

end Document

namespace Cleanup

/-- **Nothing goes but editor data**, taken as the cleanup takes it. Whatever document has come
about, a pass of the cleanup alone removes declarations of drawing programs' namespaces from `svg`
elements, attributes and elements with a name that an `svg` element which it leaves has bound to one,
there or earlier in the document, and what is inside elements that it removes so. All other nodes and
attributes keep their values, their order and their parents. -/
theorem removeEditorData_spares {first doc : Document} (hfirst : first.Initial)
    (hdoc : Document.History first doc) (extra : List String) {S : Slots} {σ : Type}
    (observe : Observer S σ) (info : PassInfo) (context : Context S) (seen : σ) :
    ∃ next, run observe [(removeEditorData extra).plugin] info doc context seen = ⟨.ok (), next⟩ ∧
      doc.Spares next.doc (editorNamespaces ++ extra)
        (doc.BoundBefore next.doc (editorNamespaces ++ extra)) := by
  have hwell : doc.WellFormed := (hdoc.evolves hfirst.wellFormed).1
  obtain ⟨next, hrun, hstripped⟩ := run_strips observe extra info hwell context seen
  exact ⟨next, hrun, hstripped.spares⟩

/-- A drawing inside a drawing, and after it a group that binds the same name to something else. -/
def rebound : Document :=
  [.createElement { name := "svg" }, .append Document.root ⟨1⟩,
    .createElement { name := "svg" }, .append ⟨1⟩ ⟨2⟩,
    .updateElement ⟨2⟩ (·.setAttribute "xmlns:a" "https://boxy-svg.com"),
    .createElement { name := "g" }, .append ⟨1⟩ ⟨3⟩,
    .updateElement ⟨3⟩ (·.setAttribute "xmlns:a" "urn:a"),
    .updateElement ⟨3⟩ (·.setAttribute "a:b" "1")].foldl Call.apply .empty

theorem removeEditorData_spares_rebound :
    Document.Initial .empty ∧ Document.History .empty rebound ∧
      ∃ next,
        run (S := Slots.none) .none [(removeEditorData []).plugin] ⟨none, 0⟩ rebound .empty () =
          ⟨.ok (), next⟩ ∧
        rebound.Spares next.doc editorNamespaces (rebound.BoundBefore next.doc editorNamespaces) ∧
        next.doc.write {} = "<svg><svg/><g xmlns:a=\"urn:a\"/></svg>" := by
  have hhistory : Document.History .empty rebound := .calls _ _
  have hwritten : (run (S := Slots.none) .none [(removeEditorData []).plugin] ⟨none, 0⟩ rebound
      .empty ()).state.doc.write {} = "<svg><svg/><g xmlns:a=\"urn:a\"/></svg>" := by
    decide +kernel
  obtain ⟨next, hrun, hspares⟩ :=
    removeEditorData_spares .empty hhistory [] (S := Slots.none) .none ⟨none, 0⟩ .empty ()
  rw [List.append_nil] at hspares
  rw [hrun] at hwritten
  exact ⟨.empty, hhistory, next, hrun, hspares, hwritten⟩

-- the name in the group stands for another namespace, and the attribute goes all the same
theorem removeEditorData_reach :
    Document.Initial .empty ∧ Document.History .empty rebound ∧
      ∃ next,
        run (S := Slots.none) .none [(removeEditorData []).plugin] ⟨none, 0⟩ rebound .empty () =
          ⟨.ok (), next⟩ ∧
        ¬ rebound.Spares next.doc editorNamespaces (rebound.BoundInScope editorNamespaces) := by
  have hhistory : Document.History .empty rebound := .calls _ _
  obtain ⟨next, hrun, -⟩ :=
    run_strips (S := Slots.none) .none [] ⟨none, 0⟩ (hhistory.evolves .empty).1 .empty ()
  refine ⟨.empty, hhistory, next, hrun, fun hspares => ?_⟩
  have hattached : (run (S := Slots.none) .none [(removeEditorData []).plugin] ⟨none, 0⟩ rebound
      .empty ()).state.doc.isAttached ⟨3⟩ = true := by decide +kernel
  have hbefore : (rebound.element? ⟨3⟩).any (fun e => !e.is "svg" &&
      decide (⟨"a:b", "1"⟩ ∈ e.attributes.toList)) = true := by decide +kernel
  have hafter : ((run (S := Slots.none) .none [(removeEditorData []).plugin] ⟨none, 0⟩ rebound
      .empty ()).state.doc.element? ⟨3⟩).any (fun e =>
        decide (⟨"a:b", "1"⟩ ∈ e.attributes.toList)) = false := by
    decide +kernel
  have hscope : (rebound.declaration? ⟨3⟩ "a").map (·.2) = some "urn:a" := by decide +kernel
  rw [hrun] at hattached hafter
  obtain ⟨e, he, hgroup⟩ := (Option.any_eq_true _ _).mp hbefore
  rw [Bool.and_eq_true, Bool.not_eq_true', decide_eq_true_iff] at hgroup
  obtain ⟨keep, hnext, hgone⟩ := hspares.data? ⟨3⟩ hattached
  have hkeep : keep ⟨"a:b", "1"⟩ = false := by
    rw [Bool.eq_false_iff]
    intro hkeep
    obtain ⟨data, hdata, helement⟩ := Option.bind_eq_some_iff.mp he
    rw [hdata] at hnext
    have hleft : next.doc.element? ⟨3⟩ = some (e.filterAttributes keep) := by
      rw [Document.element?, hnext]
      cases data <;> cases helement
      rfl
    have hnone := (Option.any_eq_false _ _).mp hafter _ hleft
    rw [decide_eq_false_iff_not] at hnone
    exact hnone (List.mem_filter.mpr ⟨hgroup.2, hkeep⟩)
  rcases hgone e he _ hgroup.2 hkeep with ⟨hsvg, -⟩ | ⟨part, hpart, f, value, hvalue, hfound⟩
  · rw [hgroup.1] at hsvg
    cases hsvg
  · have hname : namespacePart? "a:b" = some "a" := by decide
    obtain rfl : "a" = part := Option.some.inj (hname.symm.trans hpart)
    rw [hfound, Option.map_some, Option.some.injEq] at hscope
    subst hscope
    exact absurd hvalue (by decide)

end Cleanup

end SvgTidy
