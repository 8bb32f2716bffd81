import SvgTidy.Proofs.CleanupPass
import SvgTidy.Proofs.Histories
import SvgTidy.Proofs.ThinnedTrees

/-!
# Cleanups that look at one node at a time

Some jobs decide about a node from its payload alone, remember nothing and do nothing on leaving it.
A sweep with such jobs thins the forest, and so does a pass with their cleanups. The four cleanups
that remove nodes by what they carry are of this sort.

Principal results: `run_thins` — what a pass with such cleanups does to a document;
`run_filters` — cleanups that remove nodes cut off the subtrees below the nodes they select.
-/

namespace SvgTidy

open Pass
open SvgTidy.Tree (thin thinAll Proper)

namespace Cleanup

open Document

/-- A job that looks at one payload at a time and does nothing on leaving a node. -/
def Job.isLocal : Job → Bool
  | removal _ => true
  | colors _ => true
  | _ => false

/-- What jobs leave of a payload. -/
def left (jobs : List Job) (data : NodeData) : Option NodeData :=
  if keepsAll jobs data then some (rewriteAll jobs data) else none

section Local

variable {jobs : List Job} (hjobs : ∀ job ∈ jobs, job.isLocal = true)
include hjobs

theorem turnAll_of_local (data : NodeData) : turnAll jobs data = jobs := by
  induction jobs generalizing data with
  | nil => rfl
  | cons job rest ih =>
    have hturn : job.turn data = job := by
      have hlocal := hjobs job List.mem_cons_self
      cases job <;> first | rfl | cases hlocal
    rw [turnAll, hturn, ih fun x hx => hjobs x (List.mem_cons_of_mem _ hx)]

theorem leaveAll_of_local (fixed : Bool) (id : NodeId) (e : Element) (below : List Tree) :
    leaveAll jobs fixed id e below = [.node id (.element e) below] := by
  have hgives : jobs.any Job.collapses = false := List.any_eq_false.mpr fun job hjob => by
    have hlocal := hjobs job hjob
    cases job <;> first | exact Bool.false_ne_true | cases hlocal
  have hpruned : jobs.any Job.prunes = false := List.any_eq_false.mpr fun job hjob => by
    have hlocal := hjobs job hjob
    cases job <;> first | exact Bool.false_ne_true | cases hlocal
  rw [leaveAll, givesWay, isPruned, hgives, hpruned]
  rfl

end Local

mutual

theorem sweep_of_local {jobs : List Job} (hjobs : ∀ job ∈ jobs, job.isLocal = true) (fixed : Bool) :
    ∀ {t : Tree}, t.Proper → sweep fixed jobs t = (jobs, thin (fun _ => left jobs) t)
  | .node id data children, .node hleaf hbelow => by
    have hchildren (fixed : Bool) := sweepAll_of_local hjobs fixed hbelow
    unfold sweep
    rw [turnAll_of_local hjobs]
    split
    · rename_i hkeeps
      have hleft : left jobs data = some (rewriteAll jobs data) := if_pos hkeeps
      rw [Tree.thin_of_some hleft]
      split
      · rename_i e hrewrite
        simp only [hchildren, leaveAll_of_local hjobs, hrewrite]
      · rename_i other hother
        have hkind : data.kind ≠ .element := by
          intro hkind
          rw [← kind_rewriteAll jobs data] at hkind
          obtain ⟨e, he⟩ := NodeData.exists_element hkind
          exact hother e he
        rw [hleaf hkind]
        rfl
    · rename_i hkeeps
      have hleft : left jobs data = none := if_neg hkeeps
      rw [Tree.thin_of_none hleft]

/-- **Where all jobs look at one node at a time, a sweep thins the trees.** -/
theorem sweepAll_of_local {jobs : List Job} (hjobs : ∀ job ∈ jobs, job.isLocal = true)
    (fixed : Bool) : ∀ {trees : List Tree}, (∀ t ∈ trees, t.Proper) →
      sweepAll fixed jobs trees = (jobs, thinAll (fun _ => left jobs) trees)
  | [], _ => rfl
  | t :: others, h => by
    have hfirst := sweep_of_local hjobs fixed (h t List.mem_cons_self)
    have hrest := sweepAll_of_local hjobs fixed fun x hx => h x (List.mem_cons_of_mem _ hx)
    simp only [sweepAll, hfirst, hrest, thinAll]

end

section Pass

variable {S : Slots} {σ : Type} (observe : Observer S σ)

/-- **What a pass does whose cleanups look at one node at a time.** It succeeds, thins the forest,
and leaves detached nodes alone. -/
theorem run_thins {cleanups : List Cleanup} (hlocal : ∀ job ∈ jobsOf cleanups, job.isLocal = true)
    (info : PassInfo) {doc : Document} (hdoc : doc.WellFormed) (context : Context S) (seen : σ) :
    ∃ next, run observe (cleanups.map plugin) info doc context seen = ⟨.ok (), next⟩ ∧
      doc.Thinned next.doc (fun _ => left (jobsOf cleanups)) ∧
      ∀ id, doc.isAttached id = false → next.doc.node? id = doc.node? id := by
  obtain ⟨next, hrun, hbecomes⟩ := run_becomes observe cleanups info hdoc context seen
  refine ⟨next, hrun, .of_forest hdoc hbecomes.wellFormed ?_,
    fun id => hbecomes.node?_of_detached hdoc⟩
  rw [hbecomes.forest_eq, sweepAll_of_local hlocal true hdoc.proper_forest]

end Pass

/-! ## Removing nodes by what they carry -/

/-- One of the cleanups that remove nodes by what they carry. -/
def isFilter : Cleanup → Bool
  | removeDoctype | removeXmlDeclaration | removeComments _ | removeMetadata => true
  | _ => false

/-- Whether a cleanup removes nodes with this payload. -/
def selects : Cleanup → NodeData → Bool
  | removeDoctype, .doctype _ => true
  | removeXmlDeclaration, .instruction i => i.name == "xml"
  | removeComments keepLegal, .comment value => !(keepLegal && value.toList.head? == some '!')
  | removeMetadata, .element e => e.name == "metadata"
  | _, _ => false

/-- What the cleanups leave of a payload: nothing where one of them removes it, else all of it. -/
def filtered (cleanups : List Cleanup) (data : NodeData) : Option NodeData :=
  if cleanups.any (·.selects data) then none else some data

theorem exists_selection {cleanup : Cleanup} (h : cleanup.isFilter = true) :
    ∃ selection, cleanup.job? = some (.removal selection) ∧
      ∀ data, selection.selects data = cleanup.selects data := by
  cases cleanup <;> first
    | exact ⟨_, rfl, fun data => by cases data <;> rfl⟩
    | cases h

section Filters

variable {cleanups : List Cleanup} (h : ∀ cleanup ∈ cleanups, cleanup.isFilter = true)
include h

theorem isLocal_of_filters : ∀ job ∈ jobsOf cleanups, job.isLocal = true := by
  intro job hjob
  obtain ⟨cleanup, hmem, hsome⟩ := List.mem_filterMap.mp hjob
  obtain ⟨selection, hselection, -⟩ := exists_selection (h cleanup hmem)
  cases hselection.symm.trans hsome
  rfl

theorem left_filters (data : NodeData) : left (jobsOf cleanups) data = filtered cleanups data := by
  unfold left filtered
  induction cleanups with
  | nil => rfl
  | cons cleanup rest ih =>
    obtain ⟨selection, hjob, hselects⟩ := exists_selection (h cleanup List.mem_cons_self)
    have hrest := ih fun c hc => h c (List.mem_cons_of_mem _ hc)
    have hjobs : jobsOf (cleanup :: rest) = .removal selection :: jobsOf rest := by
      rw [jobsOf, List.filterMap_cons_some hjob]
      rfl
    rw [hjobs, List.any_cons, ← hselects]
    show (if (!selection.selects data && keepsAll (jobsOf rest) data) = true
      then some (rewriteAll (jobsOf rest) data) else none) = _
    cases selection.selects data with
    | true => rfl
    | false => exact hrest

end Filters

/-- **The cleanups that remove nodes by what they carry are exact filters.** Whatever document has
come about, a pass with any of them, in any order, succeeds. It cuts off the subtrees below the nodes
that one of them selects, and leaves all other nodes where and as they are. -/
theorem run_filters {first doc : Document} (hfirst : first.Initial)
    (hdoc : Document.History first doc) {cleanups : List Cleanup}
    (hfilters : ∀ cleanup ∈ cleanups, cleanup.isFilter = true) {S : Slots} {σ : Type}
    (observe : Observer S σ) (info : PassInfo) (context : Context S) (seen : σ) :
    ∃ next, run observe (cleanups.map plugin) info doc context seen = ⟨.ok (), next⟩ ∧
      doc.Thinned next.doc (fun _ => filtered cleanups) ∧
      ∀ id, doc.isAttached id = false → next.doc.node? id = doc.node? id := by
  have hwell : doc.WellFormed := (hdoc.evolves hfirst.wellFormed).1
  obtain ⟨next, hrun, hthinned, hdetached⟩ :=
    run_thins observe (isLocal_of_filters hfilters) info hwell context seen
  rw [show left (jobsOf cleanups) = filtered cleanups from funext (left_filters hfilters)]
    at hthinned
  exact ⟨next, hrun, hthinned, hdetached⟩

/-- A drawing behind a declaration and a doctype, with a legal notice, and with metadata that hold a
comment. -/
def annotated : Document :=
  [.createInstruction ⟨"xml", "version=\"1.0\""⟩, .append Document.root ⟨1⟩,
    .createDoctype "svg", .append Document.root ⟨2⟩,
    .createComment "! Public domain", .append Document.root ⟨3⟩,
    .createElement { name := "svg" }, .append Document.root ⟨4⟩,
    .createElement { name := "metadata" }, .append ⟨4⟩ ⟨5⟩,
    .createComment "Draft", .append ⟨5⟩ ⟨6⟩,
    .createElement { name := "g" }, .append ⟨4⟩ ⟨7⟩,
    .createComment "Draft", .append ⟨7⟩ ⟨8⟩].foldl Call.apply .empty

theorem run_filters_annotated :
    Document.Initial .empty ∧ Document.History .empty annotated ∧
      ∃ next,
        run (S := Slots.none) .none
            ([removeComments, removeDoctype, removeMetadata, removeDoctype].map plugin) ⟨none, 0⟩
            annotated .empty () = ⟨.ok (), next⟩ ∧
          annotated.Thinned next.doc
            (fun _ => filtered [removeComments, removeDoctype, removeMetadata, removeDoctype]) ∧
          next.doc.descendants Document.root = [⟨1⟩, ⟨3⟩, ⟨4⟩, ⟨7⟩] := by
  have hhistory : Document.History .empty annotated := .calls _ _
  have hfilters : ∀ cleanup ∈ [removeComments, removeDoctype, removeMetadata, removeDoctype],
      cleanup.isFilter = true := by decide
  obtain ⟨next, hrun, hthinned, -⟩ :=
    run_filters .empty hhistory hfilters (S := Slots.none) .none ⟨none, 0⟩ .empty ()
  have horder : (run (S := Slots.none) .none
      ([removeComments, removeDoctype, removeMetadata, removeDoctype].map plugin) ⟨none, 0⟩
      annotated .empty ()).state.doc.descendants Document.root = [⟨1⟩, ⟨3⟩, ⟨4⟩, ⟨7⟩] := by
    decide +kernel
  rw [hrun] at horder
  exact ⟨.empty, hhistory, next, hrun, hthinned, horder⟩

end Cleanup

end SvgTidy
