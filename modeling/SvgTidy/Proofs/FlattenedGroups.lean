import SvgTidy.Proofs.Navigation
import SvgTidy.Proofs.NodeFilters

/-!
# Groups that give way and containers that go, as a recursion

`Tree.flatten` takes a tree from the leaves up: an empty container goes, a plain group gives way to
what is left below it, and any other node stays with that. It looks at each node once, with the
payload its parent has from the start. The two cleanups come to the same in one pass, though they
work on a document in which what was below a node may already stand beside it, and a group that gave
way looks like an empty container.

Principal results: `sweepAll_eq_flattenAll` — a sweep with these jobs is the recursion;
`Flattened.of_becomes` — what holds of the nodes; `run_flattens` — what a pass does.
-/

namespace SvgTidy

open Pass
open Cleanup (isPlainGroup isNamelessContainer)

/-- Groups right below a node with this payload are kept: it is the root or a `switch`. -/
def NodeData.fixesGroups : NodeData → Bool
  | .root => true
  | .element e => e.is "switch"
  | _ => false

namespace Tree

mutual

/-- What becomes of a tree below a node with the payload `parent`, where plain groups give way
(`collapses`) or empty containers go (`prunes`). -/
def flatten (collapses prunes : Bool) (parent : NodeData) : Tree → List Tree
  | .node id data children =>
    let below := flattenAll collapses prunes data children
    if prunes && below.isEmpty && data.element?.any isNamelessContainer then []
    else if collapses && data.element?.any isPlainGroup && !parent.fixesGroups then below
    else [.node id data below]

/-- What becomes of trees side by side. -/
def flattenAll (collapses prunes : Bool) (parent : NodeData) : List Tree → List Tree
  | [] => []
  | t :: others => flatten collapses prunes parent t ++ flattenAll collapses prunes parent others

end

variable {collapses prunes : Bool} {parent data : NodeData} {id : NodeId} {children : List Tree}

theorem flattenAll_eq_flatMap (trees : List Tree) :
    flattenAll collapses prunes parent trees = trees.flatMap (flatten collapses prunes parent) := by
  induction trees with
  | nil => rfl
  | cons t others ih => rw [flattenAll, List.flatMap_cons, ih]

theorem flatten_element (collapses prunes : Bool) (parent : NodeData) (id : NodeId) (e : Element)
    (children : List Tree) :
    flatten collapses prunes parent (.node id (.element e) children) =
      if prunes && (flattenAll collapses prunes (.element e) children).isEmpty
          && isNamelessContainer e then []
      else if collapses && isPlainGroup e && !parent.fixesGroups then
        flattenAll collapses prunes (.element e) children
      else [.node id (.element e) (flattenAll collapses prunes (.element e) children)] := by
  rw [flatten]
  rfl

/-- A node goes, gives way or stays. -/
theorem flatten_cases (collapses prunes : Bool) (parent data : NodeData) (id : NodeId)
    (children : List Tree) :
    (prunes = true ∧ data.element?.any isNamelessContainer = true ∧
      flattenAll collapses prunes data children = [] ∧
      flatten collapses prunes parent (.node id data children) = []) ∨
    (collapses = true ∧ data.element?.any isPlainGroup = true ∧ parent.fixesGroups = false ∧
      flatten collapses prunes parent (.node id data children) =
        flattenAll collapses prunes data children) ∨
    flatten collapses prunes parent (.node id data children) =
      [.node id data (flattenAll collapses prunes data children)] := by
  unfold flatten
  simp only
  split
  · rename_i hprunes
    simp only [Bool.and_eq_true, List.isEmpty_iff] at hprunes
    exact .inl ⟨hprunes.1.1, hprunes.2, hprunes.1.2, rfl⟩
  · split
    · rename_i hcollapses
      simp only [Bool.and_eq_true, Bool.not_eq_true'] at hcollapses
      exact .inr (.inl ⟨hcollapses.1.1, hcollapses.1.2, hcollapses.2, rfl⟩)
    · exact .inr (.inr rfl)

mutual

theorem ids_flatten_sublist (collapses prunes : Bool) (parent : NodeData) :
    ∀ t : Tree, (idsAll (flatten collapses prunes parent t)).Sublist t.ids
  | .node id data children => by
    have hbelow := idsAll_flattenAll_sublist collapses prunes data children
    rcases flatten_cases collapses prunes parent data id children with
      ⟨-, -, -, hgone⟩ | ⟨-, -, -, hway⟩ | hstays
    · rw [hgone]
      exact List.nil_sublist _
    · rw [hway]
      exact hbelow.trans (List.sublist_cons_self id _)
    · rw [hstays, idsAll, idsAll, List.append_nil]
      exact hbelow.cons_cons id

/-- **What is left stands in its order.** -/
theorem idsAll_flattenAll_sublist (collapses prunes : Bool) (parent : NodeData) :
    ∀ trees : List Tree, (idsAll (flattenAll collapses prunes parent trees)).Sublist (idsAll trees)
  | [] => .slnil
  | t :: others => by
    rw [flattenAll, idsAll_append, idsAll]
    exact (ids_flatten_sublist collapses prunes parent t).append
      (idsAll_flattenAll_sublist collapses prunes parent others)

end

end Tree

open SvgTidy.Tree (flatten flattenAll flatten_element flatten_cases flattenAll_eq_flatMap idsAll
  mem_idsAll mem_idsAll_flatMap)

/-! ## Documents -/

namespace Document

variable {doc next : Document} {collapses prunes : Bool} {id : NodeId} {parent : NodeData}

/-- A node that goes or gives way: an element that is a container without a name, or a plain group
somewhere else than right below the root or a `switch`. -/
def Dissolves (doc : Document) (collapses prunes : Bool) (id : NodeId) : Prop :=
  ∃ e, doc.element? id = some e ∧
    ((prunes = true ∧ isNamelessContainer e = true) ∨
      (collapses = true ∧ isPlainGroup e = true ∧
        ∃ parent, doc.parent? id = some parent ∧ Cleanup.keepsGroups doc parent = false))

/-- A document holds another one's trees without plain groups or empty containers. -/
structure Flattened (doc next : Document) (collapses prunes : Bool) : Prop where
  wellFormed : next.WellFormed
  forest : next.forest = flattenAll collapses prunes .root doc.forest
  data? : ∀ id, next.isAttached id = true → next.data? id = doc.data? id
  order : (next.descendants root).Sublist (doc.descendants root)
  nodup : (next.descendants root).Nodup
  /-- No node is lost but those that go for what they are. -/
  kept : ∀ id, doc.isAttached id = true →
    next.isAttached id = true ∨ doc.Dissolves collapses prunes id

/-- Payloads stay. -/
theorem Shows.of_flatten {t : Tree} (ht : doc.Shows t)
    (hnext : ∀ s ∈ flatten collapses prunes parent t, next.Shows s)
    (hid : id ∈ idsAll (flatten collapses prunes parent t)) : next.data? id = doc.data? id := by
  induction ht generalizing parent with
  | @node top data children hdata _ _ ih =>
    have hbelow (hall : ∀ s ∈ flattenAll collapses prunes data children, next.Shows s)
        (hmem : id ∈ idsAll (flattenAll collapses prunes data children)) :
        next.data? id = doc.data? id := by
      rw [flattenAll_eq_flatMap] at hall hmem
      obtain ⟨u, hu, hmem⟩ := mem_idsAll_flatMap.mp hmem
      exact ih u hu (fun s hs => hall s (List.mem_flatMap.mpr ⟨u, hu, hs⟩)) hmem
    rcases flatten_cases collapses prunes parent data top children with
      ⟨-, -, -, hgone⟩ | ⟨-, -, -, hway⟩ | hstays
    · rw [hgone] at hid
      cases hid
    · rw [hway] at hid hnext
      exact hbelow hnext hid
    · rw [hstays, idsAll, idsAll, List.append_nil] at hid
      rw [hstays] at hnext
      have hshows := hnext _ List.mem_cons_self
      rcases List.mem_cons.mp hid with rfl | hid
      · exact hshows.data?.trans hdata.symm
      · exact hbelow hshows.subtrees hid

theorem keepsGroups_eq_fixesGroups (hdoc : doc.WellFormed) {top : NodeId}
    (hparent : doc.data? top = some parent) :
    Cleanup.keepsGroups doc top = parent.fixesGroups := by
  have hkind : parent.kind = .root ↔ top = root := by
    rw [← hdoc.root_iff top, kind?, hparent, Option.map_some, Option.some.injEq]
  have hroot : decide (top = root) = decide (parent.kind = .root) := decide_eq_decide.mpr hkind.symm
  rw [Cleanup.keepsGroups, hroot, element?, hparent]
  cases parent <;> rfl

/-- A node of a tree is left, or it is one that goes for what it is. -/
theorem Shows.kept_of_flatten (hdoc : doc.WellFormed) {t : Tree} (ht : doc.Shows t) {top : NodeId}
    (hlink : doc.parent? t.id = some top) (hparent : doc.data? top = some parent)
    (hid : id ∈ t.ids) :
    id ∈ idsAll (flatten collapses prunes parent t) ∨ doc.Dissolves collapses prunes id := by
  induction ht generalizing parent top with
  | @node self data children hdata hchildren _ ih =>
    have hbelow (hmem : id ∈ idsAll children) :
        id ∈ idsAll (flattenAll collapses prunes data children) ∨
          doc.Dissolves collapses prunes id := by
      obtain ⟨t, ht, hmem⟩ := mem_idsAll.mp hmem
      refine (ih t ht (hdoc.parent?_of_mem_trees hchildren ht) hdata hmem).imp_left fun hleft => ?_
      rw [flattenAll_eq_flatMap]
      exact mem_idsAll_flatMap.mpr ⟨t, ht, hleft⟩
    rcases List.mem_cons.mp hid with rfl | hmem
    · have helement {test : Element → Bool} (htest : data.element?.any test = true) :
          ∃ e, doc.element? id = some e ∧ test e = true := by
        rw [element?, hdata]
        exact (Option.any_eq_true _ _).mp htest
      rcases flatten_cases collapses prunes parent data id children with
        ⟨hprunes, hcontainer, -⟩ | ⟨hcollapses, hplain, hfree, -⟩ | hstays
      · obtain ⟨e, he, hcontainer⟩ := helement hcontainer
        exact .inr ⟨e, he, .inl ⟨hprunes, hcontainer⟩⟩
      · obtain ⟨e, he, hplain⟩ := helement hplain
        refine .inr ⟨e, he, .inr ⟨hcollapses, hplain, top, hlink, ?_⟩⟩
        rw [keepsGroups_eq_fixesGroups hdoc hparent, hfree]
      · rw [hstays]
        exact .inl List.mem_cons_self
    · refine (hbelow hmem).imp_left fun hleft => ?_
      rcases flatten_cases collapses prunes parent data self children with
        ⟨-, -, hnone, -⟩ | ⟨-, -, -, hway⟩ | hstays
      · rw [hnone] at hleft
        cases hleft
      · rwa [hway]
      · rw [hstays, idsAll, idsAll, List.append_nil]
        exact List.mem_cons_of_mem _ hleft

theorem Flattened.of_becomes (hdoc : doc.WellFormed)
    (h : doc.Becomes next root [] [] (idsAll doc.forest)
      (flattenAll collapses prunes .root doc.forest)) : doc.Flattened next collapses prunes := by
  have hnext := h.wellFormed
  have horder : (next.descendants root).Sublist (doc.descendants root) := by
    rw [hdoc.descendants_root, hnext.descendants_root, h.forest_eq]
    exact Tree.idsAll_flattenAll_sublist collapses prunes .root doc.forest
  refine ⟨hnext, h.forest_eq, fun id hid => ?_, horder, ?_, fun id hid => ?_⟩
  · rw [hnext.isAttached_iff_mem, h.forest_eq, flattenAll_eq_flatMap] at hid
    rcases hid with rfl | hid
    · exact h.data? root hdoc.root_not_mem_forest
    · obtain ⟨t, ht, hmem⟩ := mem_idsAll_flatMap.mp hid
      refine (hdoc.forest_spec.2.1 t ht).of_flatten (fun s hs => h.shows s ?_) hmem
      rw [flattenAll_eq_flatMap]
      exact List.mem_flatMap.mpr ⟨t, ht, hs⟩
  · exact hnext.nodup_descendants root
  · rw [hnext.isAttached_iff_mem, h.forest_eq, flattenAll_eq_flatMap]
    rcases hdoc.isAttached_iff_mem.mp hid with rfl | hid
    · exact .inl (.inl rfl)
    · obtain ⟨t, ht, hmem⟩ := mem_idsAll.mp hid
      exact ((hdoc.forest_spec.2.1 t ht).kept_of_flatten hdoc (hdoc.parent?_of_mem_forest ht)
        hdoc.data?_root hmem).imp_left fun hleft => .inr (mem_idsAll_flatMap.mpr ⟨t, ht, hleft⟩)

end Document

/-! ## A pass -/

namespace Cleanup

open Document

/-- A job that lets groups give way or containers go. -/
def Job.isStructural : Job → Bool
  | collapsing => true
  | pruning => true
  | _ => false

section Structural

variable {jobs : List Job} (hjobs : ∀ job ∈ jobs, job.isStructural = true)
include hjobs

/-- Entering a node changes nothing. -/
theorem enterAll_of_structural (data : NodeData) :
    turnAll jobs data = jobs ∧ rewriteAll jobs data = data ∧ keepsAll jobs data = true := by
  induction jobs with
  | nil => exact ⟨rfl, rfl, rfl⟩
  | cons job rest ih =>
    obtain ⟨hturn, hrewrite, hkeeps⟩ := ih fun x hx => hjobs x (List.mem_cons_of_mem _ hx)
    have hjob : job.turn data = job ∧ job.rewrite data = data ∧ job.keeps data = true := by
      have hstructural := hjobs job List.mem_cons_self
      cases job <;> first | exact ⟨rfl, rfl, rfl⟩ | cases hstructural
    rw [turnAll, rewriteAll, keepsAll, hjob.1, hjob.2.1, hjob.2.2, hturn, hrewrite, hkeeps]
    exact ⟨rfl, rfl, rfl⟩

end Structural

-- whether groups give way or containers go first makes no difference: where both could happen,
-- nothing is left below
/-- What is left of an element is what the recursion says of it. -/
theorem leaveAll_eq_flatten (jobs : List Job) (parent : NodeData) (id : NodeId) (e : Element)
    (children : List Tree) :
    leaveAll jobs parent.fixesGroups id e
        (flattenAll (jobs.any Job.collapses) (jobs.any Job.prunes) (.element e) children) =
      flatten (jobs.any Job.collapses) (jobs.any Job.prunes) parent
        (.node id (.element e) children) := by
  have hgives : givesWay jobs parent.fixesGroups e =
      (jobs.any Job.collapses && isPlainGroup e && !parent.fixesGroups) :=
    Bool.and_right_comm _ _ _
  rw [flatten_element, leaveAll, isPruned, hgives]
  by_cases hway : (jobs.any Job.collapses && isPlainGroup e && !parent.fixesGroups) = true
  · rw [if_pos hway, if_pos hway]
    split
    · rename_i hpruned
      rw [Bool.and_eq_true, Bool.and_eq_true, List.isEmpty_iff] at hpruned
      exact hpruned.1.2
    · rfl
  · rw [if_neg hway, if_neg hway]

mutual

theorem sweep_eq_flatten {jobs : List Job} (hjobs : ∀ job ∈ jobs, job.isStructural = true)
    (parent : NodeData) : ∀ {t : Tree}, t.Proper → sweep parent.fixesGroups jobs t =
      (jobs, flatten (jobs.any Job.collapses) (jobs.any Job.prunes) parent t)
  | .node id data children, .node hleaf hbelow => by
    obtain ⟨hturn, hrewrite, hkeeps⟩ := enterAll_of_structural hjobs data
    unfold sweep
    rw [if_pos hkeeps, hrewrite, hturn]
    split
    · rename_i e
      have hchildren : sweepAll (e.is "switch") jobs children = (jobs, _) :=
        sweepAll_eq_flattenAll hjobs (.element e) hbelow
      simp only [hchildren, leaveAll_eq_flatten]
    · rename_i other hother
      have hkind : data.kind ≠ .element := by
        intro hkind
        obtain ⟨e, he⟩ := NodeData.exists_element hkind
        exact hother e he
      rw [hleaf hkind]
      unfold flatten
      cases data <;> first | exact absurd rfl hkind | simp [flattenAll, NodeData.element?]

/-- **A sweep with these jobs is the recursion.** -/
theorem sweepAll_eq_flattenAll {jobs : List Job} (hjobs : ∀ job ∈ jobs, job.isStructural = true)
    (parent : NodeData) : ∀ {trees : List Tree}, (∀ t ∈ trees, t.Proper) →
      sweepAll parent.fixesGroups jobs trees =
        (jobs, flattenAll (jobs.any Job.collapses) (jobs.any Job.prunes) parent trees)
  | [], _ => rfl
  | t :: others, h => by
    have hfirst := sweep_eq_flatten hjobs parent (h t List.mem_cons_self)
    have hrest := sweepAll_eq_flattenAll hjobs parent fun x hx => h x (List.mem_cons_of_mem _ hx)
    simp only [sweepAll, hfirst, hrest, flattenAll]

end

/-- One of the cleanups that work on groups and containers. -/
def isStructural : Cleanup → Bool
  | collapseGroups | removeEmptyContainers => true
  | _ => false

theorem jobsOf_structural {cleanups : List Cleanup}
    (h : ∀ cleanup ∈ cleanups, cleanup.isStructural = true) :
    (∀ job ∈ jobsOf cleanups, job.isStructural = true) ∧
      (jobsOf cleanups).any Job.collapses = decide (collapseGroups ∈ cleanups) ∧
      (jobsOf cleanups).any Job.prunes = decide (removeEmptyContainers ∈ cleanups) := by
  induction cleanups with
  | nil => exact ⟨List.forall_mem_nil _, rfl, rfl⟩
  | cons cleanup rest ih =>
    obtain ⟨hall, hcollapses, hprunes⟩ := ih fun c hc => h c (List.mem_cons_of_mem _ hc)
    have hstructural := h cleanup List.mem_cons_self
    cases cleanup with
    | collapseGroups =>
      have hjobs : jobsOf (collapseGroups :: rest) = .collapsing :: jobsOf rest := rfl
      rw [hjobs, List.any_cons, List.any_cons, hprunes]
      exact ⟨List.forall_mem_cons.mpr ⟨rfl, hall⟩, by simp [Job.collapses], by simp [Job.prunes]⟩
    | removeEmptyContainers =>
      have hjobs : jobsOf (removeEmptyContainers :: rest) = .pruning :: jobsOf rest := rfl
      rw [hjobs, List.any_cons, List.any_cons, hcollapses]
      exact ⟨List.forall_mem_cons.mpr ⟨rfl, hall⟩, by simp [Job.collapses], by simp [Job.prunes]⟩
    | _ => cases hstructural

/-- **Collapsing groups and removing empty containers is a recursion from the leaves up.** Whatever
document has come about, a pass with these cleanups, in any order, succeeds, and what it leaves of
the forest is what the recursion says. All nodes that are left keep their payloads and their order,
and none is lost but those that go for what they are. -/
theorem run_flattens {first doc : Document} (hfirst : first.Initial)
    (hdoc : Document.History first doc) {cleanups : List Cleanup}
    (hstructural : ∀ cleanup ∈ cleanups, cleanup.isStructural = true) {S : Slots} {σ : Type}
    (observe : Observer S σ) (info : PassInfo) (context : Context S) (seen : σ) :
    ∃ next, run observe (cleanups.map plugin) info doc context seen = ⟨.ok (), next⟩ ∧
      doc.Flattened next.doc (collapseGroups ∈ cleanups) (removeEmptyContainers ∈ cleanups) ∧
      ∀ id, doc.isAttached id = false → next.doc.node? id = doc.node? id := by
  have hwell : doc.WellFormed := (hdoc.evolves hfirst.wellFormed).1
  obtain ⟨next, hrun, hbecomes⟩ := run_becomes observe cleanups info hwell context seen
  obtain ⟨hjobs, hcollapses, hprunes⟩ := jobsOf_structural hstructural
  have hswept : sweepAll true (jobsOf cleanups) doc.forest = (jobsOf cleanups, _) :=
    sweepAll_eq_flattenAll hjobs .root hwell.proper_forest
  rw [hswept, hcollapses, hprunes] at hbecomes
  exact ⟨next, hrun, .of_becomes hwell hbecomes, fun id => hbecomes.node?_of_detached hwell⟩

/-- A `switch` whose group holds a group, and beside it groups that hold nothing in the end. -/
def grouped : Document :=
  [.createElement { name := "svg" }, .append Document.root ⟨1⟩,
    .createElement { name := "switch" }, .append ⟨1⟩ ⟨2⟩,
    .createElement { name := "g" }, .append ⟨2⟩ ⟨3⟩,
    .createElement { name := "g" }, .append ⟨3⟩ ⟨4⟩,
    .createElement { name := "path" }, .append ⟨4⟩ ⟨5⟩,
    .createElement { name := "defs" }, .append ⟨1⟩ ⟨6⟩,
    .createElement { name := "g" }, .append ⟨6⟩ ⟨7⟩,
    .createElement { name := "path" }, .append ⟨1⟩ ⟨8⟩].foldl Call.apply .empty

theorem run_flattens_grouped :
    Document.Initial .empty ∧ Document.History .empty grouped ∧
      (∀ cleanup ∈ [collapseGroups, removeEmptyContainers], cleanup.isStructural = true) ∧
      ∃ next,
        run (S := Slots.none) .none ([collapseGroups, removeEmptyContainers].map plugin) ⟨none, 0⟩
            grouped .empty () = ⟨.ok (), next⟩ ∧
          grouped.Flattened next.doc true true ∧
          next.doc.descendants Document.root = [⟨1⟩, ⟨2⟩, ⟨3⟩, ⟨5⟩, ⟨8⟩] := by
  have hhistory : Document.History .empty grouped := .calls _ _
  have hstructural : ∀ cleanup ∈ [collapseGroups, removeEmptyContainers],
      cleanup.isStructural = true := by decide
  obtain ⟨next, hrun, hflattened, -⟩ :=
    run_flattens .empty hhistory hstructural (S := Slots.none) .none ⟨none, 0⟩ .empty ()
  have horder : (run (S := Slots.none) .none
      ([collapseGroups, removeEmptyContainers].map plugin) ⟨none, 0⟩ grouped .empty
      ()).state.doc.descendants Document.root = [⟨1⟩, ⟨2⟩, ⟨3⟩, ⟨5⟩, ⟨8⟩] := by
    decide +kernel
  rw [hrun] at horder
  exact ⟨.empty, hhistory, hstructural, next, hrun, hflattened, horder⟩

end Cleanup

end SvgTidy
