import SvgTidy.Proofs.CombinedJobs
import SvgTidy.Proofs.Convergence
import SvgTidy.Proofs.DocumentOrder

/-!
# The order of cleanups does not matter

Two lists of jobs are `Interchangeable` if they hold the same jobs and know the same names all together,
whichever of them knows which. They leave the same of every node, and stay interchangeable when they
have entered it, although it may now be another job that has learned a name.

Principal results: `sweepAll_interchangeable` — jobs in another order leave the same trees; `run_perm` —
a pass with cleanups in another order leaves the same attached tree and the same text.
-/

namespace SvgTidy

open Pass

namespace Cleanup

variable {jobs jobs' : List Job} {data : NodeData}

/-! ## Jobs in another order -/

/-- The same jobs in some order, with the same names known to all of them together. -/
structure Interchangeable (jobs jobs' : List Job) : Prop where
  same : (jobs.map Job.rested).Perm (jobs'.map Job.rested)
  names : ∀ name, name ∈ namesOf jobs ↔ name ∈ namesOf jobs'
  unlearned : "xmlns" ∉ namesOf jobs

/-- The payload is no element that declares the name of declarations, whatever is below it. -/
def Undeclared (data : NodeData) (_ : List NodeData) : Prop :=
  ∀ e, data = .element e → e.hasAttribute "xmlns:xmlns" = false

namespace Interchangeable

variable {fixed : Bool} (h : Interchangeable jobs jobs')
include h

theorem any_eq {test : Job → Bool} (htest : ∀ job, test job.rested = test job) :
    jobs.any test = jobs'.any test := by
  have hrested (list : List Job) : (list.map Job.rested).any test = list.any test := by
    rw [List.any_map, show test ∘ Job.rested = test from funext htest]
  rw [← hrested, ← hrested jobs', h.same.any_eq]

theorem namespaces (name : String) : name ∈ namespacesOf jobs ↔ name ∈ namespacesOf jobs' := by
  rw [← namespacesOf_rested, ← namespacesOf_rested jobs']
  exact (h.same.flatMap_right _).mem_iff

theorem recolored_eq : recolored jobs = recolored jobs' := by
  have hrested (list : List Job) (name value : String) :
      recolorAll (list.map Job.rested) name value = recolorAll list name value := by
    simp [recolorAll, List.foldl_map]
  funext a
  have hvalue : recolorAll jobs a.name a.value = recolorAll jobs' a.name a.value := by
    rw [← hrested, ← hrested jobs']
    exact h.same.foldl_eq' (fun job _ other _ value => job.recolor_comm other a.name value) a.value
  rw [recolored, recolored, hvalue]

theorem mem_namesSeen (e : Element) (name : String) :
    name ∈ namesSeen jobs e ↔ name ∈ namesSeen jobs' e := by
  rw [namesSeen, namesSeen, List.mem_append, List.mem_append, h.names,
    mem_namesBound_congr h.namespaces]

theorem tidied_eq (e : Element) : tidied jobs e = tidied jobs' e := by
  have hkeeps : keepsAttribute jobs e = keepsAttribute jobs' e := by
    funext a
    rw [keepsAttribute, keepsAttribute, declares_congr h.namespaces,
      usesName_congr (h.mem_namesSeen e)]
  refine Element.ext_toList rfl ?_
  rw [toList_tidied, toList_tidied, hkeeps, h.recolored_eq]

theorem keepsAll_eq (data : NodeData) : keepsAll jobs data = keepsAll jobs' data := by
  rw [Cleanup.keepsAll_eq, Cleanup.keepsAll_eq, h.any_eq (Job.selects_rested data)]
  simp only [usesName_congr h.names]

theorem leaveAll_eq (id : NodeId) (e : Element) (below : List Tree) :
    leaveAll jobs fixed id e below = leaveAll jobs' fixed id e below := by
  have hgives : givesWay jobs fixed e = givesWay jobs' fixed e := by
    rw [givesWay, givesWay, h.any_eq fun job => by cases job <;> rfl]
  have hpruned : isPruned jobs e below = isPruned jobs' e below := by
    rw [isPruned, isPruned, h.any_eq fun job => by cases job <;> rfl]
  rw [leaveAll, leaveAll, hgives, hpruned]

theorem symm : Interchangeable jobs' jobs :=
  ⟨h.same.symm, fun name => (h.names name).symm, fun hmem => h.unlearned ((h.names _).mpr hmem)⟩

/-- Jobs stay interchangeable when they have entered a node. -/
theorem turnAll (hfree : Undeclared data []) :
    Interchangeable (turnAll jobs data) (turnAll jobs' data) := by
  have hsame : ((Cleanup.turnAll jobs data).map Job.rested).Perm
      ((Cleanup.turnAll jobs' data).map Job.rested) := by
    rw [rested_turnAll, rested_turnAll]
    exact h.same
  by_cases hkind : data.kind = .element
  · obtain ⟨e, rfl⟩ := NodeData.exists_element hkind
    have hunbound : Unbound jobs e := ⟨h.unlearned, hfree e rfl⟩
    have hunbound' : Unbound jobs' e := ⟨h.symm.unlearned, hfree e rfl⟩
    refine ⟨hsame, fun name => ?_, fun hmem => ?_⟩
    · rw [mem_namesOf_turnAll hunbound, mem_namesOf_turnAll hunbound', h.mem_namesSeen]
    · rw [mem_namesOf_turnAll hunbound] at hmem
      exact hunbound.not_mem_namesSeen hmem
  · have hnone : ∀ e, data = .element e → e.is "svg" = false := by
      rintro e rfl
      exact absurd rfl hkind
    rw [turnAll_eq_self hnone, turnAll_eq_self hnone]
    exact h

/-- A node that stays has the same payload when the jobs have entered it. -/
theorem rewriteAll_eq (hfree : Undeclared data []) (hkeeps : keepsAll jobs data = true) :
    rewriteAll jobs data = rewriteAll jobs' data := by
  by_cases hkind : data.kind = .element
  · obtain ⟨e, rfl⟩ := NodeData.exists_element hkind
    have hstays : usesName (namesOf jobs) e.name = false := by
      rw [Cleanup.keepsAll_eq, Bool.and_eq_true] at hkeeps
      simpa [NodeData.element?] using hkeeps.2
    have hstays' : usesName (namesOf jobs') e.name = false := by
      rwa [← usesName_congr h.names]
    rw [Cleanup.rewriteAll_eq ⟨h.unlearned, hfree e rfl⟩ hstays,
      Cleanup.rewriteAll_eq ⟨h.symm.unlearned, hfree e rfl⟩ hstays', h.tidied_eq]
  · rw [rewriteAll_of_not_element jobs hkind, rewriteAll_of_not_element jobs' hkind]

end Interchangeable

/-- Two sweeps leave interchangeable jobs and the same trees. -/
structure Agree (swept swept' : List Job × List Tree) : Prop where
  jobs : Interchangeable swept.1 swept'.1
  trees : swept.2 = swept'.2

mutual

theorem sweep_interchangeable (fixed : Bool) : ∀ {jobs jobs' : List Job} {t : Tree},
    Interchangeable jobs jobs' → t.Everywhere Undeclared →
    Agree (sweep fixed jobs t) (sweep fixed jobs' t)
  | jobs, jobs', .node id data children, h, hfree => by
    have hhere : Undeclared data [] := hfree.here
    have hturned := h.turnAll hhere
    unfold sweep
    rw [← h.keepsAll_eq data]
    split
    · rename_i hkeeps
      rw [← h.rewriteAll_eq hhere hkeeps]
      split
      · rename_i e _
        have hbelow := sweepAll_interchangeable (e.is "switch") hturned hfree.children
        refine ⟨hbelow.jobs, ?_⟩
        exact (h.leaveAll_eq id e _).trans (congrArg (leaveAll jobs' fixed id e) hbelow.trees)
      · exact ⟨hturned, rfl⟩
    · exact ⟨hturned, rfl⟩

/-- **Jobs in another order leave the same trees.** -/
theorem sweepAll_interchangeable (fixed : Bool) : ∀ {jobs jobs' : List Job} {trees : List Tree},
    Interchangeable jobs jobs' → (∀ t ∈ trees, t.Everywhere Undeclared) →
    Agree (sweepAll fixed jobs trees) (sweepAll fixed jobs' trees)
  | _, _, [], h, _ => ⟨h, rfl⟩
  | jobs, jobs', t :: others, h, hfree => by
    have hfirst := sweep_interchangeable fixed h (hfree t List.mem_cons_self)
    have hrest := sweepAll_interchangeable fixed hfirst.jobs
      fun x hx => hfree x (List.mem_cons_of_mem _ hx)
    refine ⟨hrest.jobs, ?_⟩
    unfold sweepAll
    simp only [hfirst.trees, hrest.trees]

end

/-! ## Cleanups in another order -/

theorem interchangeable_jobsOf {cleanups cleanups' : List Cleanup} (h : cleanups.Perm cleanups') :
    Interchangeable (jobsOf cleanups) (jobsOf cleanups') := by
  have hnone (list : List Cleanup) : namesOf (jobsOf list) = [] := by
    rw [← rested_jobsOf, namesOf_rested]
  refine ⟨?_, fun name => by rw [hnone, hnone], fun hmem => ?_⟩
  · rw [rested_jobsOf, rested_jobsOf]
    exact h.filterMap job?
  · rw [hnone] at hmem
    cases hmem

theorem undeclared_of_shows {doc : Document} {t : Tree} (ht : doc.Shows t)
    (h : ∀ id ∈ t.ids, ∀ e, doc.element? id = some e → e.hasAttribute "xmlns:xmlns" = false) :
    t.Everywhere Undeclared := by
  induction ht with
  | @node id _ _ hdata _ _ ih =>
    refine .node (fun e he => h id List.mem_cons_self e ?_) fun child hchild =>
      ih child hchild fun x hx =>
        h x (List.mem_cons_of_mem _ (Tree.mem_idsAll.mpr ⟨child, hchild, hx⟩))
    subst he
    exact congrArg (·.bind NodeData.element?) hdata

/-- **The order of cleanups does not matter.** Whatever document has come about, if no element in its
tree has an attribute named `xmlns:xmlns`, a pass leaves the same attached tree and the same text for
any order of a list of cleanups, which may hold a cleanup several times, also with different
parameters. -/
theorem run_perm {first doc : Document} (hfirst : first.Initial) (hdoc : Document.History first doc)
    (hfree : ∀ x ∈ doc.elements, x.2.hasAttribute "xmlns:xmlns" = false)
    {cleanups cleanups' : List Cleanup} (hperm : cleanups.Perm cleanups') {S : Slots} {σ : Type}
    (observe : Observer S σ) (info : PassInfo) (context : Context S) (seen : σ) :
    ∃ next next', run observe (cleanups.map plugin) info doc context seen = ⟨.ok (), next⟩ ∧
      run observe (cleanups'.map plugin) info doc context seen = ⟨.ok (), next'⟩ ∧
      next.doc.forest = next'.doc.forest ∧
      ∀ layout, next.doc.write layout = next'.doc.write layout := by
  have hwell : doc.WellFormed := (hdoc.evolves hfirst.wellFormed).1
  obtain ⟨-, hshows, -⟩ := hwell.forest_spec
  obtain ⟨next, hrun, -, hforest⟩ := run_spec observe cleanups info hwell context seen
  obtain ⟨next', hrun', -, hforest'⟩ := run_spec observe cleanups' info hwell context seen
  have hundeclared : ∀ t ∈ doc.forest, t.Everywhere Undeclared := by
    refine fun t ht => undeclared_of_shows (hshows t ht) fun id hid e he => hfree (id, e) ?_
    exact hwell.mem_elements.mpr
      ⟨hwell.isAttached_iff_mem.mpr (.inr (Tree.mem_idsAll.mpr ⟨t, ht, hid⟩)), he⟩
  have hagree := sweepAll_interchangeable true (interchangeable_jobsOf hperm) hundeclared
  have hsame : next.doc.forest = next'.doc.forest :=
    hforest.trans (hagree.trees.trans hforest'.symm)
  refine ⟨next, next', hrun, hrun', hsame, fun layout => ?_⟩
  rw [Document.write, Document.write, hsame]

/-- A drawing with two namespaces of editors, one of them declared for a group of its own, and colours
that can be shortened in two ways. -/
def twiceEdited : Document :=
  [.createElement { name := "svg" }, .append Document.root ⟨1⟩,
    .updateElement ⟨1⟩ (·.setAttribute "xmlns:i" "http://www.inkscape.org/namespaces/inkscape"),
    .updateElement ⟨1⟩ (·.setAttribute "xmlns:x" "urn:x"),
    .createElement { name := "g" }, .append ⟨1⟩ ⟨2⟩,
    .updateElement ⟨2⟩ (·.setAttribute "i:label" "a"), .updateElement ⟨2⟩ (·.setAttribute "x:y" "b"),
    .createElement { name := "path" }, .append ⟨2⟩ ⟨3⟩,
    .updateElement ⟨3⟩ (·.setAttribute "fill" "#FF0000"),
    .updateElement ⟨3⟩ (·.setAttribute "stroke" "#112233"),
    .createElement { name := "x:z" }, .append ⟨2⟩ ⟨4⟩].foldl Call.apply .empty

/-- Two cleanups for editor data and two for colours, among others. -/
def overlapping : List Cleanup :=
  [.removeEditorData ["urn:x"], .removeEditorData, .convertColors { shortName := false },
    .convertColors { shortHex := false }, .collapseGroups, .removeEmptyContainers]

theorem run_perm_twiceEdited :
    Document.Initial .empty ∧ Document.History .empty twiceEdited ∧
      (∀ x ∈ twiceEdited.elements, x.2.hasAttribute "xmlns:xmlns" = false) ∧
      overlapping.Perm overlapping.reverse ∧
      ∃ next next', run (S := Slots.none) .none (overlapping.map plugin) ⟨none, 0⟩ twiceEdited .empty
          () = ⟨.ok (), next⟩ ∧
        run (S := Slots.none) .none (overlapping.reverse.map plugin) ⟨none, 0⟩ twiceEdited .empty
          () = ⟨.ok (), next'⟩ ∧
        next.doc.write {} = next'.doc.write {} ∧
        next.doc.write {} = "<svg><path fill=\"red\" stroke=\"#123\"/></svg>" := by
  have hhistory : Document.History .empty twiceEdited := .calls _ _
  have hfree : ∀ x ∈ twiceEdited.elements, x.2.hasAttribute "xmlns:xmlns" = false := by
    decide +kernel
  have hperm : overlapping.Perm overlapping.reverse := (List.reverse_perm _).symm
  have hwritten : (run (S := Slots.none) .none (overlapping.map plugin) ⟨none, 0⟩ twiceEdited .empty
      ()).state.doc.write {} = "<svg><path fill=\"red\" stroke=\"#123\"/></svg>" := by
    decide +kernel
  obtain ⟨next, next', hrun, hrun', -, hwrite⟩ :=
    run_perm .empty hhistory hfree hperm (S := Slots.none) .none ⟨none, 0⟩ .empty ()
  rw [hrun] at hwritten
  exact ⟨.empty, hhistory, hfree, hperm, next, next', hrun, hrun', hwrite {}, hwritten⟩

/-- An `svg` element that binds the name of declarations itself. -/
def selfDeclared : Document :=
  [.createElement { name := "svg" }, .append Document.root ⟨1⟩,
    .updateElement ⟨1⟩ (·.setAttribute "xmlns:xmlns" "https://boxy-svg.com"),
    .updateElement ⟨1⟩ (·.setAttribute "xmlns:x" "urn:x"),
    .updateElement ⟨1⟩ (·.setAttribute "x:y" "a")].foldl Call.apply .empty

/-- The text that a pass leaves of it. -/
def selfDeclaredAfter (cleanups : List Cleanup) : String :=
  (run (S := Slots.none) .none (cleanups.map plugin) ⟨none, 0⟩ selfDeclared .empty ()).state.doc.write
    {}

-- here the first cleanup hides from the second what it looks for
example : selfDeclaredAfter [.removeEditorData, .removeEditorData ["urn:x"]] = "<svg x:y=\"a\"/>" ∧
    selfDeclaredAfter [.removeEditorData ["urn:x"], .removeEditorData] = "<svg/>" := by
  decide +kernel

end Cleanup

end SvgTidy
