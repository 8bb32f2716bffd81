import SvgTidy.Proofs.CalmTrees
import SvgTidy.Proofs.CleanupPass
import SvgTidy.Proofs.Histories

/-!
# One pass of cleanups is enough

What a pass of cleanups leaves is calm, and a pass over a document in which all is calm gives the
document back: the nodes of its forest because each shows the same tree as before, all others because
no visit comes near them.

Principal results: `Cleanup.run_of_calm` — a pass that has nothing to do leaves the whole table as it
is; `Document.tidy_spec` — what is left of a document when its passes have run; `tidy_converges` — any
list of cleanups has nothing left to do after one pass, so two passes are all that run where passes are
repeated.
-/

namespace SvgTidy

open Pass

namespace Document

variable {doc later : Document}

/-- Two documents that hold a tree agree on its nodes. -/
theorem Shows.same {t : Tree} (h : doc.Shows t) (hlater : later.Shows t) :
    ∀ id ∈ t.ids, later.data? id = doc.data? id ∧ later.children id = doc.children id := by
  induction h with
  | node hdata hchildren _ ih =>
    cases hlater with
    | node hdata' hchildren' hbelow' =>
      intro id hid
      rcases List.mem_cons.mp hid with rfl | hid
      · exact ⟨hdata'.trans hdata.symm, hchildren'.trans hchildren.symm⟩
      · obtain ⟨t, ht, hmem⟩ := Tree.mem_idsAll.mp hid
        exact ih t ht (hbelow' t ht) id hmem

/-- Where the forest stands in its own place, the document is the same. -/
theorem Becomes.eq_of_forest (hdoc : doc.WellFormed)
    (h : doc.Becomes later root [] [] (Tree.idsAll doc.forest) doc.forest) : later = doc := by
  obtain ⟨hroot, hshows, -⟩ := hdoc.forest_spec
  have hinside : ∀ id ∈ Tree.idsAll doc.forest,
      later.data? id = doc.data? id ∧ later.children id = doc.children id := by
    intro id hid
    obtain ⟨t, ht, hmem⟩ := Tree.mem_idsAll.mp hid
    exact (hshows t ht).same (h.shows t ht) id hmem
  have hdata (id : NodeId) : later.data? id = doc.data? id := by
    by_cases hid : id ∈ Tree.idsAll doc.forest
    · exact (hinside id hid).1
    · exact h.data? id hid
  have hchildren (id : NodeId) : later.children id = doc.children id := by
    by_cases hid : id ∈ Tree.idsAll doc.forest
    · exact (hinside id hid).2
    · by_cases htop : id = root
      · rw [htop, h.place, hroot, List.nil_append, List.append_nil]
      · exact h.children id hid htop
  -- parents are the other side of child lists, also for nodes that are not attached
  exact ext_views hdata
    (fun _ => hdoc.parent?_eq_of_mem_iff h.wellFormed fun p => by rw [hchildren p]) hchildren

end Document

/-! ## Passes -/

namespace Cleanup

/-- A pass begins with nothing remembered. -/
theorem rested_jobsOf (cleanups : List Cleanup) :
    (jobsOf cleanups).map Job.rested = jobsOf cleanups := by
  refine (List.map_congr_left (g := id) fun job hjob => ?_).trans (List.map_id _)
  obtain ⟨cleanup, -, hcleanup⟩ := List.mem_filterMap.mp hjob
  cases cleanup with
  | convertColors rules =>
    simp only [job?] at hcleanup
    split at hcleanup
    · cases hcleanup
      rfl
    · cases hcleanup
  | _ =>
    cases hcleanup
    rfl

/-- The trees that are left of a document when the cleanups have gone over it. -/
def swept (cleanups : List Cleanup) (doc : Document) : List Tree :=
  (sweepAll true (jobsOf cleanups) doc.forest).2

theorem calm_swept (cleanups : List Cleanup) (doc : Document) :
    ∀ t ∈ swept cleanups doc, Calm (jobsOf cleanups) true t := by
  have h := calm_sweepAll true (jobsOf cleanups) doc.forest
  rwa [rested_jobsOf] at h

/-- Where all is calm nothing goes and nothing changes. -/
theorem swept_of_calm {cleanups : List Cleanup} {doc : Document}
    (h : ∀ t ∈ doc.forest, Calm (jobsOf cleanups) true t) : swept cleanups doc = doc.forest := by
  rw [← rested_jobsOf] at h
  rw [swept, ← rested_jobsOf, sweepAll_of_calm h]

/-- Cleanups have nothing to do in any tree of the document. -/
def CalmIn (cleanups : List Cleanup) (doc : Document) : Prop :=
  ∀ t ∈ doc.forest, Calm (jobsOf cleanups) true t

theorem calmIn_of_swept {cleanups : List Cleanup} {doc next : Document}
    (h : next.forest = swept cleanups doc) : CalmIn cleanups next := by
  intro t ht
  rw [h] at ht
  exact calm_swept cleanups doc t ht

end Cleanup

section Passes

variable {S : Slots} {σ : Type} (observe : Observer S σ) {cleanups : List Cleanup}
  {doc : Document}

/-- **A pass that has nothing to do leaves the document as it is**, detached nodes included. -/
theorem Cleanup.run_of_calm (info : PassInfo) (hdoc : doc.WellFormed) (h : CalmIn cleanups doc)
    (context : Context S) (seen : σ) :
    ∃ last, run observe (cleanups.map plugin) info doc context seen = ⟨.ok (), last⟩ ∧
      last.doc = doc := by
  obtain ⟨last, hrun, hbecomes⟩ := run_becomes observe cleanups info hdoc context seen
  have hsame : (sweepAll true (jobsOf cleanups) doc.forest).2 = doc.forest := swept_of_calm h
  rw [hsame] at hbecomes
  exact ⟨last, hrun, hbecomes.eq_of_forest hdoc⟩

/-- A pass succeeds, and a pass over what it leaves gives that back. -/
theorem Cleanup.run_twice (cleanups : List Cleanup) (info : PassInfo) (hdoc : doc.WellFormed)
    (context : Context S) (seen : σ) :
    ∃ next, run observe (cleanups.map plugin) info doc context seen = ⟨.ok (), next⟩ ∧
      next.doc.forest = swept cleanups doc ∧
      ∀ {S' : Slots} {σ' : Type} (observe' : Observer S' σ') (info' : PassInfo)
        (context' : Context S') (seen' : σ'), ∃ last,
        run observe' (cleanups.map plugin) info' next.doc context' seen' = ⟨.ok (), last⟩ ∧
          last.doc = next.doc := by
  obtain ⟨next, hrun, hnext, hforest⟩ := run_spec observe cleanups info hdoc context seen
  exact ⟨next, hrun, hforest, fun observe' info' context' seen' =>
    run_of_calm observe' info' hnext (calmIn_of_swept hforest) context' seen'⟩

/-- One pass leaves what a sweep leaves; where passes are repeated, the second one gives the text of
the first. -/
theorem settle_eq_two (cleanups : List Cleanup) (path : Option String) (layout : Layout) (budget : Nat)
    (hdoc : doc.WellFormed) (seen : σ) :
    let single := onceWithin headroom observe (cleanups.map Cleanup.plugin) path doc seen
    let repeated := settleWithin headroom observe (cleanups.map Cleanup.plugin) path layout
      (budget + 2) 0 none doc .empty seen
    single.result = .ok 1 ∧ repeated.result = .ok 2 ∧ repeated.doc = single.doc ∧
      single.doc.forest = Cleanup.swept cleanups doc := by
  obtain ⟨next, hfirst, hforest, hagain⟩ :=
    Cleanup.run_twice observe cleanups ⟨path, 0⟩ hdoc .empty seen
  obtain ⟨last, hsecond, hsame⟩ := hagain observe ⟨path, 1⟩ next.context next.seen
  unfold run at hfirst hsecond
  have hsingle : onceWithin headroom observe (cleanups.map Cleanup.plugin) path doc seen =
      ⟨.ok 1, next.doc, next.context, next.seen⟩ := by
    unfold onceWithin
    rw [hfirst]
    rfl
  have hrepeated : settleWithin headroom observe (cleanups.map Cleanup.plugin) path layout
      (budget + 2) 0 none doc .empty seen = ⟨.ok 2, last.doc, last.context, last.seen⟩ := by
    unfold settleWithin
    simp only [hfirst, reduceCtorEq, if_false]
    unfold settleWithin
    simp only [hsecond, hsame, if_true]
  simp only [hsingle, hrepeated]
  exact ⟨trivial, trivial, hsame, hforest⟩

/-- Passes that succeed and leave these trees. -/
def Settles (settled : Settled S σ) (trees : List Tree) : Prop :=
  ∃ passes, settled.result = .ok passes ∧ settled.doc.forest = trees

/-- **What is left of a document when its passes have run.** No pass fails. -/
theorem Document.tidy_spec {options : Options S}
    (hplugins : options.plugins = cleanups.map Cleanup.plugin) (hdoc : doc.WellFormed) :
    Settles (doc.tidy options) (Cleanup.swept cleanups doc) := by
  obtain ⟨hone, htwo, hsame, hforest⟩ :=
    settle_eq_two .none cleanups options.path options.layout 8 hdoc ()
  unfold Document.tidy Pass.all allWithin
  rw [hplugins]
  split
  · exact ⟨2, htwo, (congrArg Document.forest hsame).trans hforest⟩
  · exact ⟨1, hone, hforest⟩

end Passes

/-- **Cleanups converge in a single pass and never fail.** Whatever document has come about, any list
of cleanups, in any order and with repetitions, goes over it without a failure, and going over it once
more leaves the document as it is. So where passes are repeated two of them run, and the document is
left as after one. -/
theorem tidy_converges {first doc : Document} (hfirst : first.Initial)
    (hdoc : Document.History first doc) (cleanups : List Cleanup) :
    (∀ {S : Slots} {σ : Type} (observe : Observer S σ) (info : PassInfo) (context : Context S)
      (seen : σ), ∃ next,
      run observe (cleanups.map Cleanup.plugin) info doc context seen = ⟨.ok (), next⟩ ∧
      ∀ {S' : Slots} {σ' : Type} (observe' : Observer S' σ') (info' : PassInfo)
        (context' : Context S') (seen' : σ'), ∃ last,
        run observe' (cleanups.map Cleanup.plugin) info' next.doc context' seen' = ⟨.ok (), last⟩ ∧
          last.doc = next.doc) ∧
    ∀ {S : Slots} (options : Options S), options.plugins = cleanups.map Cleanup.plugin →
      (doc.tidy { options with multipass := false }).result = .ok 1 ∧
      (doc.tidy { options with multipass := true }).result = .ok 2 ∧
      (doc.tidy { options with multipass := true }).doc =
        (doc.tidy { options with multipass := false }).doc := by
  have hwell : doc.WellFormed := (hdoc.evolves hfirst.wellFormed).1
  refine ⟨fun observe info context seen => ?_, fun options hplugins => ?_⟩
  · obtain ⟨next, hrun, -, hagain⟩ := Cleanup.run_twice observe cleanups info hwell context seen
    exact ⟨next, hrun, hagain⟩
  · obtain ⟨hone, htwo, hsame, -⟩ :=
      settle_eq_two .none cleanups options.path options.layout 8 hwell ()
    unfold Document.tidy
    rw [hplugins]
    exact ⟨hone, htwo, hsame⟩

/-- A group that holds nothing once its label, its comment and the empty container in it are gone,
beside a colour; one comment is not attached. -/
def labelled : Document :=
  [.createElement { name := "svg" }, .append Document.root ⟨1⟩,
    .updateElement ⟨1⟩ (·.setAttribute "xmlns:i" "http://www.inkscape.org/namespaces/inkscape"),
    .createElement { name := "g" }, .append ⟨1⟩ ⟨2⟩, .updateElement ⟨2⟩ (·.setAttribute "i:label" "a"),
    .createElement { name := "defs" }, .append ⟨2⟩ ⟨3⟩, .createComment "b", .append ⟨3⟩ ⟨4⟩,
    .createElement { name := "path" }, .insertAfter ⟨3⟩ ⟨5⟩,
    .updateElement ⟨5⟩ (·.setAttribute "fill" "#F00"), .createComment "c"].foldl Call.apply .empty

/-- Cleanups in an order in which each makes work for one before it. -/
def backwards : List Cleanup :=
  [.collapseGroups, .removeEmptyContainers, .convertColors, .removeComments, .removeEditorData,
    .collapseGroups]

theorem tidy_converges_labelled :
    Document.Initial .empty ∧ Document.History .empty labelled ∧
      (∃ next last, run (S := Slots.none) .none (backwards.map Cleanup.plugin) ⟨none, 0⟩ labelled
          .empty () = ⟨.ok (), next⟩ ∧ next.doc ≠ labelled ∧
        run .none (backwards.map Cleanup.plugin) ⟨none, 1⟩ next.doc next.context () =
          ⟨.ok (), last⟩ ∧ last.doc = next.doc) ∧
      (labelled.tidy ({ multipass := true, plugins := backwards.map Cleanup.plugin } :
        Options Slots.none)).result = .ok 2 := by
  have hhistory : Document.History .empty labelled := .calls _ _
  have hchanged : (run (S := Slots.none) .none (backwards.map Cleanup.plugin) ⟨none, 0⟩ labelled
      .empty ()).state.doc ≠ labelled := by
    decide +kernel
  obtain ⟨hpass, htidy⟩ := tidy_converges .empty hhistory backwards
  obtain ⟨next, hrun, hagain⟩ := hpass (S := Slots.none) .none ⟨none, 0⟩ .empty ()
  obtain ⟨last, hlast, hsame⟩ := hagain .none ⟨none, 1⟩ next.context ()
  rw [hrun] at hchanged
  obtain ⟨-, htwo, -⟩ := htidy ({ multipass := true, plugins := backwards.map Cleanup.plugin } :
    Options Slots.none) rfl
  exact ⟨.empty, hhistory, ⟨next, last, hrun, hchanged, hlast, hsame⟩, htwo⟩

end SvgTidy
