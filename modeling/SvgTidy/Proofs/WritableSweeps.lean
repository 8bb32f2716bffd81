import SvgTidy.Proofs.CleanupSweeps
import SvgTidy.Proofs.ReadableTrees

/-!
# What a sweep leaves can be written

Trees that fit still fit after a sweep: names stay names, and what moves up when a group gives way
was trimmed below the group, so any element admits it. At the top level groups are kept, so what is
left there is some of what was there, in its order.

Principal results: `fits_sweepAll` — nodes fit below their parents; `Writable.sweepAll` — the same at
the top level, doctypes included.
-/

namespace SvgTidy

namespace NodeData

/-- What stands below an element that does not keep white space may stand below any element. -/
theorem admits_of_admits {e : Element} (hname : isTextElement e.name = false) {child : NodeData}
    (h : (NodeData.element e).Admits child) (other : Element) :
    (NodeData.element other).Admits child := by
  cases child with
  | text value => exact .inr (h.resolve_left (by rw [hname]; exact Bool.false_ne_true))
  | doctype _ => exact h
  | _ => trivial

/-- What may stand below an element depends on its name. -/
theorem admits_congr {e other : Element} (hname : other.name = e.name) (child : NodeData) :
    (NodeData.element other).Admits child ↔ (NodeData.element e).Admits child := by
  cases child with
  | text value =>
    show isTextElement other.name = true ∨ _ ↔ isTextElement e.name = true ∨ _
    rw [hname]
  | _ => exact Iff.rfl

end NodeData

namespace Cleanup

open NodeData

variable {jobs : List Job} {data parent : NodeData}

theorem legible_rewriteAll (h : data.Legible) : (rewriteAll jobs data).Legible := by
  by_cases hkind : data.kind = .element
  · obtain ⟨e, rfl⟩ := exists_element hkind
    obtain ⟨e', he', hname, hall⟩ := rewriteAll_element jobs e
    rw [he']
    refine ⟨by rw [hname]; exact h.1, fun a ha => ?_⟩
    obtain ⟨b, hb, hab⟩ := hall a ha
    rw [hab]
    exact h.2 b hb
  · rwa [rewriteAll_of_not_element jobs hkind]

theorem admits_rewriteAll (h : parent.Admits data) : parent.Admits (rewriteAll jobs data) := by
  by_cases hkind : data.kind = .element
  · obtain ⟨e, rfl⟩ := exists_element hkind
    obtain ⟨e', he', -, -⟩ := rewriteAll_element jobs e
    rw [he']
    cases parent <;> exact h
  · rwa [rewriteAll_of_not_element jobs hkind]

/-- An element admits what it admitted before. -/
theorem rewriteAll_admits {e : Element} (hrewrite : rewriteAll jobs data = .element e)
    {child : NodeData} (h : data.Admits child) : (NodeData.element e).Admits child := by
  obtain ⟨e', rfl⟩ : ∃ e', data = .element e' := by
    refine exists_element ?_
    rw [← kind_rewriteAll jobs data, hrewrite]
    rfl
  obtain ⟨e'', he'', hname, -⟩ := rewriteAll_element jobs e'
  rw [hrewrite] at he''
  cases he''
  exact (admits_congr hname child).mpr h

theorem isTextElement_of_isPlainGroup {e : Element} (h : isPlainGroup e = true) :
    isTextElement e.name = false := by
  rw [isPlainGroup, Bool.and_eq_true, Element.is, beq_iff_eq] at h
  rw [h.1]
  decide

mutual

theorem fits_sweep (fixed : Bool) (jobs : List Job) (parent : NodeData)
    (hparent : fixed = false → parent.kind = .element) : ∀ t : Tree, t.Everywhere Fits →
    parent.Admits t.data → ∀ t' ∈ (sweep fixed jobs t).2, t'.Everywhere Fits ∧ parent.Admits t'.data
  | .node id data children, ht, hadmits => by
    intro t' ht'
    have hhere : data.Fits (children.map Tree.data) := ht.here
    obtain ⟨-, ⟨-, rfl⟩ | ⟨e, hrewrite, hleft⟩⟩ := mem_sweep ht'
    · exact ⟨ht, hadmits⟩
    · have hlegible : (NodeData.element e).Legible := by
        rw [← hrewrite]
        exact legible_rewriteAll hhere.legible
      have hbelow := fits_sweepAll (e.is "switch") (turnAll jobs data) (.element e)
        (fun _ => rfl) children ht.children fun child hchild =>
          rewriteAll_admits hrewrite (hhere.admits _ (List.mem_map_of_mem hchild))
      rcases mem_leaveAll hleft with ⟨hfixed, hplain, hleft⟩ | ⟨-, -, rfl⟩
      · obtain ⟨p, rfl⟩ := exists_element (hparent hfixed)
        obtain ⟨hfits, hchild⟩ := hbelow t' hleft
        exact ⟨hfits, admits_of_admits (isTextElement_of_isPlainGroup hplain) hchild p⟩
      · refine ⟨.node ⟨hlegible, fun d hd => ?_⟩ fun t ht => (hbelow t ht).1, ?_⟩
        · obtain ⟨t, ht, rfl⟩ := List.mem_map.mp hd
          exact (hbelow t ht).2
        · show parent.Admits (.element e)
          rw [← hrewrite]
          exact admits_rewriteAll hadmits

/-- **Trees that fit below their parent still do after a sweep.** -/
theorem fits_sweepAll (fixed : Bool) (jobs : List Job) (parent : NodeData)
    (hparent : fixed = false → parent.kind = .element) : ∀ trees : List Tree,
    (∀ t ∈ trees, t.Everywhere Fits) → (∀ t ∈ trees, parent.Admits t.data) →
    ∀ t' ∈ (sweepAll fixed jobs trees).2, t'.Everywhere Fits ∧ parent.Admits t'.data
  | [], _, _ => nofun
  | t :: others, hfits, hadmits => by
    intro t' ht'
    unfold sweepAll at ht'
    rcases List.mem_append.mp ht' with ht' | ht'
    · exact fits_sweep fixed jobs parent hparent t (hfits t List.mem_cons_self)
        (hadmits t List.mem_cons_self) t' ht'
    · exact fits_sweepAll fixed (sweep fixed jobs t).1 parent hparent others
        (fun x hx => hfits x (List.mem_cons_of_mem _ hx))
        (fun x hx => hadmits x (List.mem_cons_of_mem _ hx)) t' ht'

end

/-! ## The top level -/

/-- Where groups are kept, a tree stays or goes. -/
theorem sweep_top (jobs : List Job) (t : Tree) :
    (sweep true jobs t).2 = [] ∨
      ∃ t', (sweep true jobs t).2 = [t'] ∧ t'.data = rewriteAll jobs t.data := by
  obtain ⟨id, data, children⟩ := t
  unfold sweep
  split
  · split
    · rename_i e hrewrite
      have hgives : givesWay jobs true e = false := by simp [givesWay]
      simp only [leaveAll, hgives, Bool.false_eq_true, if_false]
      split
      · exact .inl rfl
      · exact .inr ⟨_, rfl, hrewrite.symm⟩
    · exact .inr ⟨_, rfl, rfl⟩
  · exact .inl rfl

/-- What is left at the top level is some of what was there, in its order. -/
theorem kinds_sweepAll_sublist : ∀ (jobs : List Job) (trees : List Tree),
    ((sweepAll true jobs trees).2.map fun t => t.data.kind).Sublist (trees.map fun t => t.data.kind)
  | _, [] => .slnil
  | jobs, t :: others => by
    have hrest := kinds_sweepAll_sublist (sweep true jobs t).1 others
    unfold sweepAll
    simp only
    rcases sweep_top jobs t with hnone | ⟨t', hone, hdata⟩
    · rw [hnone]
      exact hrest.cons _
    · rw [hone, List.singleton_append, List.map_cons, List.map_cons, hdata, kind_rewriteAll]
      exact hrest.cons_cons _

theorem doctype_mem_of_sweepAll {body : String} : ∀ (jobs : List Job) (trees : List Tree),
    .doctype body ∈ (sweepAll true jobs trees).2.map Tree.data →
    .doctype body ∈ trees.map Tree.data
  | _, [], h => h
  | jobs, t :: others, h => by
    unfold sweepAll at h
    simp only at h
    rw [List.map_append, List.mem_append] at h
    rcases h with h | h
    · rcases sweep_top jobs t with hnone | ⟨t', hone, hdata⟩
      · rw [hnone] at h
        cases h
      · rw [hone, List.map_singleton, List.mem_singleton, hdata] at h
        have hkind : t.data.kind ≠ .element := by
          intro hkind
          rw [← kind_rewriteAll jobs t.data, ← h] at hkind
          cases hkind
        rw [rewriteAll_of_not_element jobs hkind] at h
        rw [h]
        exact List.mem_cons_self
    · exact List.mem_cons_of_mem _ (doctype_mem_of_sweepAll (sweep true jobs t).1 others h)

end Cleanup

/-- Trees that fit at the top level of a document. Texts may stand side by side further down. -/
structure Writable (trees : List Tree) : Prop where
  fits : ∀ t ∈ trees, t.Everywhere NodeData.Fits
  admits : ∀ data ∈ trees.map Tree.data, NodeData.root.Admits data
  order : NodeData.DoctypeFirst (trees.map Tree.data)

theorem NodeData.doctypeFirst_iff {below : List NodeData} :
    DoctypeFirst below ↔ (below.map kind).Pairwise fun a b =>
      b = .doctype → a ≠ .element ∧ a ≠ .doctype := by
  rw [List.pairwise_map]
  exact Iff.rfl

/-- **What is left of a document fits again.** -/
theorem Writable.sweepAll {trees : List Tree} (h : Writable trees) (jobs : List Cleanup.Job) :
    Writable (Cleanup.sweepAll true jobs trees).2 := by
  have hall := Cleanup.fits_sweepAll true jobs .root nofun trees h.fits fun t ht =>
    h.admits t.data (List.mem_map_of_mem ht)
  refine ⟨fun t ht => (hall t ht).1, fun data hdata => ?_, ?_⟩
  · obtain ⟨t, ht, rfl⟩ := List.mem_map.mp hdata
    exact (hall t ht).2
  · have horder := NodeData.doctypeFirst_iff.mp h.order
    rw [NodeData.doctypeFirst_iff, List.map_map]
    rw [List.map_map] at horder
    exact horder.sublist (Cleanup.kinds_sweepAll_sublist jobs trees)

end SvgTidy
