import SvgTidy.Cleanup.Preset
import SvgTidy.Proofs.Forest

/-!
# What the cleanups do to trees

A pass with cleanups is a walk over trees. A `Job` is what the visitor of a cleanup does: on entering
a node it rewrites the payload, says whether the node stays, and learns names; on leaving an element
a group may give way to its children, or a container go. `sweep` does the walk with a list of jobs,
without the table of nodes.

Principal results: `visitor?_eq` — every cleanup has its job; `ids_sweep_subset` — what a sweep
leaves was there before.
-/

namespace SvgTidy

theorem NodeData.exists_element {data : NodeData} (h : data.kind = .element) :
    ∃ e, data = .element e := by
  cases data with
  | element e => exact ⟨e, rfl⟩
  | _ => cases h

namespace Cleanup

/-- A test on payloads that looks at no attribute and selects no text. -/
structure Selection where
  selects : NodeData → Bool
  element : ∀ e e' : Element, e.name = e'.name → selects (.element e) = selects (.element e')
  text : ∀ value, selects (.text value) = false

/-- What the visitor of a cleanup does, with what it remembers. -/
inductive Job where
  /-- Remove the nodes selected. -/
  | removal (selection : Selection)
  /-- Remove what belongs to some namespaces, the names bound so far being known. -/
  | editorData (namespaces names : List String)
  /-- Shorten colours. -/
  | colors (rules : ColorRules)
  /-- Let plain groups give way to their children. -/
  | collapsing
  /-- Remove empty containers. -/
  | pruning

namespace Job

/-- The visitor that does a job. -/
def visitor {S : Slots} : Job → Visitor S
  | removal selection => removing selection.selects
  | editorData namespaces names => { removingEditorData namespaces with memory := names }
  | colors rules => convertingColors rules
  | collapsing => collapsingGroups
  | pruning => removingEmptyContainers

/-- The names known once a payload has been seen. -/
def namesAfter (namespaces names : List String) : NodeData → List String
  | .element e => names ++ namesBound namespaces e
  | _ => names

/-- The job once a node with this payload has been entered. -/
def turn (data : NodeData) : Job → Job
  | editorData namespaces names => editorData namespaces (namesAfter namespaces names data)
  | job => job

/-- An element without what belongs to some namespaces. If it goes as a whole, its attributes are
left alone. -/
def cleanElement (namespaces names : List String) (e : Element) : Element :=
  let bare := withoutDeclarations namespaces e
  if usesName names e.name then bare
  else bare.filterAttributes fun a => !usesName names a.name

/-- The payload of a node once it has been entered. -/
def rewrite (data : NodeData) : Job → NodeData
  | editorData namespaces names =>
    data.mapElement (cleanElement namespaces (namesAfter namespaces names data))
  | colors rules => data.mapElement (·.mapValues rules.convertValue)
  | _ => data

/-- Whether a node stays when it is entered. -/
def keeps (data : NodeData) : Job → Bool
  | removal selection => !selection.selects data
  | editorData namespaces names =>
    !(data.element?.any fun e => usesName (namesAfter namespaces names data) e.name)
  | _ => true

/-- Whether plain groups give way. -/
def collapses : Job → Bool
  | collapsing => true
  | _ => false

/-- Whether empty containers go. -/
def prunes : Job → Bool
  | pruning => true
  | _ => false

/-- The job with nothing remembered. -/
def rested : Job → Job
  | editorData namespaces _ => editorData namespaces []
  | job => job

end Job

/-- The job of a cleanup when a pass begins. -/
def job? : Cleanup → Option Job
  | removeDoctype => some (.removal ⟨selectsDoctype, fun _ _ _ => rfl, fun _ => rfl⟩)
  | removeXmlDeclaration =>
    some (.removal ⟨selectsXmlDeclaration, fun _ _ _ => rfl, fun _ => rfl⟩)
  | removeComments keepLegal =>
    some (.removal ⟨selectsComment keepLegal, fun _ _ _ => rfl, fun _ => rfl⟩)
  | removeMetadata =>
    some (.removal
      ⟨selectsMetadata, fun e e' h => by simp [selectsMetadata, Element.is, h], fun _ => rfl⟩)
  | removeEditorData extra => some (.editorData (editorNamespaces ++ extra) [])
  | convertColors rules => if rules.shortHex || rules.shortName then some (.colors rules) else none
  | collapseGroups => some .collapsing
  | removeEmptyContainers => some .pruning

/-- **Every cleanup has its job.** -/
theorem visitor?_eq {S : Slots} (cleanup : Cleanup) :
    (cleanup.visitor? : Option (Visitor S)) = cleanup.job?.map Job.visitor := by
  cases cleanup with
  | convertColors rules =>
    simp only [visitor?, job?]
    split <;> rfl
  | _ => rfl

/-! ## One node -/

/-- The jobs once all of them have entered a node. -/
def turnAll : List Job → NodeData → List Job
  | [], _ => []
  | job :: rest, data => job.turn data :: turnAll rest (job.rewrite data)

/-- The payload once all jobs have entered the node. -/
def rewriteAll : List Job → NodeData → NodeData
  | [], data => data
  | job :: rest, data => rewriteAll rest (job.rewrite data)

/-- Whether the node stays when all jobs have entered it. -/
def keepsAll : List Job → NodeData → Bool
  | [], _ => true
  | job :: rest, data => job.keeps data && keepsAll rest (job.rewrite data)

/-- Whether a plain group gives way. `fixed` says that groups are kept where it stands. -/
def givesWay (jobs : List Job) (fixed : Bool) (e : Element) : Bool :=
  jobs.any Job.collapses && !fixed && isPlainGroup e

/-- Whether an empty container goes. -/
def isPruned (jobs : List Job) (e : Element) (below : List Tree) : Bool :=
  jobs.any Job.prunes && below.isEmpty && isNamelessContainer e

/-- What is left of an element when it has been left. -/
def leaveAll (jobs : List Job) (fixed : Bool) (id : NodeId) (e : Element) (below : List Tree) :
    List Tree :=
  if givesWay jobs fixed e then below
  else if isPruned jobs e below then []
  else [.node id (.element e) below]

/-! ## Trees -/

mutual

/-- The jobs and the trees that are left when the jobs have gone over a tree. -/
def sweep (fixed : Bool) (jobs : List Job) : Tree → List Job × List Tree
  | .node id data children =>
    if keepsAll jobs data then
      match rewriteAll jobs data with
      | .element e =>
        let below := sweepAll (e.is "switch") (turnAll jobs data) children
        (below.1, leaveAll jobs fixed id e below.2)
      | other => (turnAll jobs data, [.node id other children])
    else (turnAll jobs data, [])

/-- The jobs and the trees that are left when the jobs have gone over trees one after the other. -/
def sweepAll (fixed : Bool) (jobs : List Job) : List Tree → List Job × List Tree
  | [] => (jobs, [])
  | t :: others =>
    let first := sweep fixed jobs t
    let rest := sweepAll fixed first.1 others
    (rest.1, first.2 ++ rest.2)

end

/-! ## What stays as it is -/

@[simp] theorem Job.kind_rewrite (data : NodeData) (job : Job) :
    (job.rewrite data).kind = data.kind := by
  cases job <;> simp [rewrite]

@[simp] theorem kind_rewriteAll (jobs : List Job) (data : NodeData) :
    (rewriteAll jobs data).kind = data.kind := by
  induction jobs generalizing data with
  | nil => rfl
  | cons job rest ih => rw [rewriteAll, ih, Job.kind_rewrite]

/-- Only elements are rewritten. -/
theorem Job.rewrite_of_not_element (job : Job) {data : NodeData} (h : data.kind ≠ .element) :
    job.rewrite data = data := by
  cases data with
  | element e => exact absurd rfl h
  | _ => cases job <;> rfl

theorem rewriteAll_of_not_element (jobs : List Job) {data : NodeData} (h : data.kind ≠ .element) :
    rewriteAll jobs data = data := by
  induction jobs with
  | nil => rfl
  | cons job rest ih => rw [rewriteAll, job.rewrite_of_not_element h, ih]

theorem mem_withoutDeclarations {namespaces : List String} {e : Element} {a : Attribute} :
    a ∈ (withoutDeclarations namespaces e).attributes.toList ↔
      a ∈ e.attributes.toList ∧ (e.is "svg" = true → declares namespaces a = false) := by
  unfold withoutDeclarations
  split
  · rename_i hsvg
    simp [Element.filterAttributes, Attributes.filter, hsvg]
  · rename_i hsvg
    simp [hsvg]

theorem Job.mem_cleanElement {namespaces names : List String} {e : Element} {a : Attribute}
    (h : a ∈ (cleanElement namespaces names e).attributes.toList) :
    a ∈ e.attributes.toList ∧ (e.is "svg" = true → declares namespaces a = false) := by
  rw [← mem_withoutDeclarations]
  unfold cleanElement at h
  simp only at h
  split at h
  · exact h
  · exact (List.mem_filter.mp h).1

@[simp] theorem Job.name_cleanElement (namespaces names : List String) (e : Element) :
    (cleanElement namespaces names e).name = e.name := by
  unfold cleanElement withoutDeclarations
  split <;> split <;> rfl

/-- An element keeps its name, and its attributes are some of those from before: as they were, or
with a colour shortened. -/
theorem Job.rewrite_element (e : Element) (job : Job) :
    ∃ e', job.rewrite (.element e) = .element e' ∧ e'.name = e.name ∧
      ∀ a ∈ e'.attributes.toList, ∃ b ∈ e.attributes.toList, a = b ∨
        ∃ rules : ColorRules, a = { b with value := rules.convertValue b.name b.value } := by
  cases job with
  | editorData namespaces names =>
    exact ⟨_, rfl, name_cleanElement _ _ e, fun a ha => ⟨a, (mem_cleanElement ha).1, .inl rfl⟩⟩
  | colors rules =>
    refine ⟨_, rfl, rfl, fun a ha => ?_⟩
    obtain ⟨b, hb, rfl⟩ := List.mem_map.mp ha
    exact ⟨b, hb, .inr ⟨rules, rfl⟩⟩
  | _ => exact ⟨e, rfl, rfl, fun a ha => ⟨a, ha, .inl rfl⟩⟩

/-- An element keeps its name, and its attributes have names from before. -/
theorem rewriteAll_element (jobs : List Job) (e : Element) :
    ∃ e', rewriteAll jobs (.element e) = .element e' ∧ e'.name = e.name ∧
      ∀ a ∈ e'.attributes.toList, ∃ b ∈ e.attributes.toList, a.name = b.name := by
  induction jobs generalizing e with
  | nil => exact ⟨e, rfl, rfl, fun a ha => ⟨a, ha, rfl⟩⟩
  | cons job rest ih =>
    obtain ⟨e', he', hname, hall⟩ := job.rewrite_element e
    obtain ⟨e'', he'', hname', hall'⟩ := ih e'
    refine ⟨e'', by rw [rewriteAll, he', he''], by rw [hname', hname], fun a ha => ?_⟩
    obtain ⟨b, hb, hab⟩ := hall' a ha
    obtain ⟨c, hc, rfl | ⟨rules, rfl⟩⟩ := hall b hb
    · exact ⟨b, hc, hab⟩
    · exact ⟨c, hc, hab⟩

@[simp] theorem Job.rested_turn (data : NodeData) (job : Job) :
    (job.turn data).rested = job.rested := by
  cases job <;> rfl

theorem rested_turnAll (jobs : List Job) (data : NodeData) :
    (turnAll jobs data).map Job.rested = jobs.map Job.rested := by
  induction jobs generalizing data with
  | nil => rfl
  | cons job rest ih => rw [turnAll, List.map_cons, List.map_cons, ih, Job.rested_turn]

theorem givesWay_rested (jobs : List Job) (fixed : Bool) (e : Element) :
    givesWay (jobs.map Job.rested) fixed e = givesWay jobs fixed e := by
  rw [givesWay, givesWay, List.any_map,
    show Job.collapses ∘ Job.rested = Job.collapses from funext fun job => by cases job <;> rfl]

theorem isPruned_rested (jobs : List Job) (e : Element) (below : List Tree) :
    isPruned (jobs.map Job.rested) e below = isPruned jobs e below := by
  rw [isPruned, isPruned, List.any_map,
    show Job.prunes ∘ Job.rested = Job.prunes from funext fun job => by cases job <;> rfl]

/-- What jobs remember plays no part when an element is left. -/
theorem leaveAll_congr {jobs jobs' : List Job} (h : jobs'.map Job.rested = jobs.map Job.rested)
    (fixed : Bool) (id : NodeId) (e : Element) (below : List Tree) :
    leaveAll jobs' fixed id e below = leaveAll jobs fixed id e below := by
  have hgives : givesWay jobs' fixed e = givesWay jobs fixed e := by
    rw [← givesWay_rested, h, givesWay_rested]
  have hpruned : isPruned jobs' e below = isPruned jobs e below := by
    rw [← isPruned_rested, h, isPruned_rested]
  rw [leaveAll, leaveAll, hgives, hpruned]

mutual

/-- The jobs stay the same but for what they remember. -/
theorem rested_sweep (fixed : Bool) (jobs : List Job) : ∀ t : Tree,
    (sweep fixed jobs t).1.map Job.rested = jobs.map Job.rested
  | .node id data children => by
    unfold sweep
    split
    · split
      · rename_i e _
        exact (rested_sweepAll (e.is "switch") _ children).trans (rested_turnAll jobs data)
      · exact rested_turnAll jobs data
    · exact rested_turnAll jobs data

theorem rested_sweepAll (fixed : Bool) (jobs : List Job) : ∀ trees : List Tree,
    (sweepAll fixed jobs trees).1.map Job.rested = jobs.map Job.rested
  | [] => rfl
  | t :: others => by
    unfold sweepAll
    exact (rested_sweepAll fixed _ others).trans (rested_sweep fixed jobs t)

end

/-- What is left of a node is the node itself or, where a group gave way, what is left below it. -/
theorem mem_leaveAll {jobs : List Job} {fixed : Bool} {id : NodeId} {e : Element}
    {below : List Tree} {t : Tree} (h : t ∈ leaveAll jobs fixed id e below) :
    (fixed = false ∧ isPlainGroup e = true ∧ t ∈ below) ∨
      (givesWay jobs fixed e = false ∧ isPruned jobs e below = false ∧
        t = .node id (.element e) below) := by
  unfold leaveAll at h
  split at h
  · rename_i hgives
    simp only [givesWay, Bool.and_eq_true, Bool.not_eq_eq_eq_not, Bool.not_true] at hgives
    exact .inl ⟨hgives.1.2, hgives.2, h⟩
  · rename_i hgives
    split at h
    · cases h
    · rename_i hpruned
      rw [Bool.not_eq_true] at hgives hpruned
      exact .inr ⟨hgives, hpruned, List.mem_singleton.mp h⟩

/-- What a sweep leaves of a tree. -/
theorem mem_sweep {jobs : List Job} {fixed : Bool} {id : NodeId} {data : NodeData}
    {children : List Tree} {t : Tree} (h : t ∈ (sweep fixed jobs (.node id data children)).2) :
    keepsAll jobs data = true ∧
      ((data.kind ≠ .element ∧ t = .node id data children) ∨
        ∃ e, rewriteAll jobs data = .element e ∧ t ∈ leaveAll jobs fixed id e
          (sweepAll (e.is "switch") (turnAll jobs data) children).2) := by
  unfold sweep at h
  split at h
  · rename_i hkeeps
    refine ⟨hkeeps, ?_⟩
    split at h
    · rename_i e hrewrite
      exact .inr ⟨e, hrewrite, h⟩
    · rename_i other hother
      have hkind : data.kind ≠ .element := by
        intro hkind
        rw [← kind_rewriteAll jobs data] at hkind
        obtain ⟨e, he⟩ := NodeData.exists_element hkind
        exact hother e he
      rw [List.mem_singleton, rewriteAll_of_not_element jobs hkind] at h
      exact .inl ⟨hkind, h⟩
  · cases h

theorem ids_leaveAll_subset {jobs : List Job} {fixed : Bool} {id : NodeId} {e : Element}
    {below : List Tree} : Tree.idsAll (leaveAll jobs fixed id e below) ⊆ id :: Tree.idsAll below := by
  unfold leaveAll
  split
  · exact List.subset_cons_self _ _
  · split
    · exact List.nil_subset _
    · simp [Tree.idsAll, Tree.ids]

mutual

/-- **What a sweep leaves was there before.** -/
theorem ids_sweep_subset (fixed : Bool) (jobs : List Job) : ∀ t : Tree,
    Tree.idsAll (sweep fixed jobs t).2 ⊆ t.ids
  | .node id data children => by
    unfold sweep
    split
    · split
      · rename_i e _
        have hbelow := ids_sweepAll_subset (e.is "switch") (turnAll jobs data) children
        exact List.Subset.trans ids_leaveAll_subset (List.cons_subset_cons id hbelow)
      · simp [Tree.idsAll, Tree.ids]
    · exact List.nil_subset _

theorem ids_sweepAll_subset (fixed : Bool) (jobs : List Job) : ∀ trees : List Tree,
    Tree.idsAll (sweepAll fixed jobs trees).2 ⊆ Tree.idsAll trees
  | [] => List.nil_subset _
  | t :: others => by
    have hfirst := ids_sweep_subset fixed jobs t
    have hrest := ids_sweepAll_subset fixed (sweep fixed jobs t).1 others
    unfold sweepAll
    rw [Tree.idsAll_append, Tree.idsAll]
    exact List.append_subset.mpr
      ⟨List.Subset.trans hfirst (List.subset_append_left _ _),
        List.Subset.trans hrest (List.subset_append_right _ _)⟩

end

end Cleanup

end SvgTidy
