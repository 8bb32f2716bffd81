import SvgTidy.Pass.Run
import SvgTidy.Proofs.CleanupSweeps
import SvgTidy.Proofs.TreeSplices

/-!
# What the hooks of the cleanups do to a document

Entering a node calls the hooks of all cleanups, and so does leaving it. Here the calls are followed
on the table of nodes: entering changes the payload of the node or takes it out of its place
(`Touches`), and leaving an element puts there what `Cleanup.leaveAll` says.

Principal results: `enter_spec`, `leave_spec` — the calls for one node; no call fails.
-/

namespace SvgTidy

namespace Document

variable {doc mid later : Document} {id : NodeId} {data : NodeData}

/-- One node gets a payload, and leaves its place unless it stays. -/
structure Touches (doc later : Document) (id : NodeId) (data : NodeData) (stays : Bool) : Prop where
  wellFormed : later.WellFormed
  data?_self : later.data? id = some data
  data? : ∀ x, x ≠ id → later.data? x = doc.data? x
  children : ∀ x, later.children x =
    if stays then doc.children x else (doc.children x).filter (· != id)

namespace Touches

theorem refl (h : doc.WellFormed) (hdata : doc.data? id = some data) :
    Touches doc doc id data true :=
  ⟨h, hdata, fun _ _ => rfl, fun _ => rfl⟩

theorem trans {data' : NodeData} {stays stays' : Bool} (h : Touches doc mid id data stays)
    (h' : Touches mid later id data' stays') : Touches doc later id data' (stays && stays') := by
  refine ⟨h'.wellFormed, h'.data?_self, fun x hx => (h'.data? x hx).trans (h.data? x hx),
    fun x => ?_⟩
  rw [h'.children x, h.children x]
  cases stays <;> cases stays' <;> simp

theorem detach (h : doc.WellFormed) (hdata : doc.data? id = some data) :
    Touches doc (doc.detach id) id data false := by
  refine ⟨h.detach id, by rw [data?_detach, hdata], fun x _ => data?_detach id x, fun x => ?_⟩
  rw [h.children_detach_eq, if_neg Bool.false_ne_true]

theorem updateElement (h : doc.WellFormed) (hdata : doc.data? id = some data)
    (change : Element → Element) :
    Touches doc (doc.updateElement id change) id (data.mapElement change) true := by
  refine ⟨h.modify_data id fun d => NodeData.kind_mapElement change d, ?_, fun x hx => ?_,
    fun x => ?_⟩
  · rw [Document.updateElement, data?_modify_data, if_pos rfl, hdata]
    rfl
  · rw [Document.updateElement, data?_modify_data, if_neg hx]
  · rw [if_pos rfl, Document.updateElement, children_modify (by simp)]

end Touches

end Document

namespace Cleanup

open Pass

variable {S : Slots} {σ : Type} (observe : Observer S σ) {s next : Progress S σ}

/-- The visitors at work do these jobs. -/
def Manned (s : Progress S σ) (jobs : List Job) : Prop :=
  s.active.map (·.visitor) = jobs.map Job.visitor

theorem Manned.length {jobs : List Job} (h : Manned s jobs) : s.active.length = jobs.length := by
  rw [← List.length_map (f := (·.visitor)), h, List.length_map]

theorem Manned.getElem? {jobs : List Job} (h : Manned s jobs) {place : Nat} {job : Job}
    (hjob : jobs[place]? = some job) : ∃ name, s.active[place]? = some ⟨name, job.visitor⟩ := by
  have hget : (s.active.map (·.visitor))[place]? = some job.visitor := by
    rw [h, List.getElem?_map, hjob]
    rfl
  rw [List.getElem?_map, Option.map_eq_some_iff] at hget
  obtain ⟨⟨name, visitor⟩, hactive, rfl⟩ := hget
  exact ⟨name, hactive⟩

/-- A call is told by the outcome of the hook. -/
theorem call_of_outcome {phase : Phase} {site : Site} {place : Nat} {name : String}
    {visitor : Visitor S} {bench : Workbench S visitor.Memory}
    (hplace : s.active[place]? = some ⟨name, visitor⟩)
    (h : outcome (visitor.hook phase site) ⟨s.doc, s.context, visitor.memory⟩ = (.ok (), bench)) :
    call observe phase site place s =
      ⟨.ok (), { doc := bench.doc, context := bench.context
                 active := s.active.set place ⟨name, { visitor with memory := bench.memory }⟩
                 seen := observe (.called place phase site) bench.doc bench.context s.seen }⟩ := by
  unfold outcome at h
  unfold call
  rw [hplace]
  simp only
  rw [h]

/-! ## Entering -/

variable {id : NodeId} (parent : NodeId) {data : NodeData}

theorem outcome_removal {selects : NodeData → Bool} {doc : Document} {context : Context S}
    (hdata : doc.data? id = some data) (hroot : id ≠ Document.root) :
    outcome (do if ((← Hook.document).data? id).any selects then Hook.edit (Document.remove id) :
        Hook S Unit Unit) ⟨doc, context, ()⟩ =
      (.ok (), ⟨if selects data then doc.detach id else doc, context, ()⟩) := by
  have hknown : doc.knows id = true := Document.knows_iff_data?.mpr ⟨data, hdata⟩
  rw [outcome_bind, Hook.outcome_document]
  simp only [hdata, Option.any_some]
  split
  · rw [Hook.outcome_edit, Document.outcome_remove, if_neg (by simp [hknown]), if_neg hroot]
  · rfl

theorem outcome_editorData {namespaces names : List String} {doc : Document}
    {context : Context S} {e : Element} (hdata : doc.data? id = some (.element e))
    (hroot : id ≠ Document.root) :
    outcome (do
        match (← Hook.document).element? id with
        | none => pure ()
        | some element =>
          let names := (← Hook.memory) ++ namesBound namespaces element
          Hook.remember names
          Hook.change (·.updateElement id (withoutDeclarations namespaces))
          if usesName names element.name then Hook.edit (Document.remove id)
          else
            Hook.change (·.updateElement id (·.filterAttributes fun a => !usesName names a.name)) :
        Hook S (List String) Unit) ⟨doc, context, names⟩ =
      (.ok (), ⟨if usesName (names ++ namesBound namespaces e) e.name then
          (doc.updateElement id (withoutDeclarations namespaces)).detach id
        else (doc.updateElement id (withoutDeclarations namespaces)).updateElement id
          (·.filterAttributes fun a => !usesName (names ++ namesBound namespaces e) a.name),
        context, names ++ namesBound namespaces e⟩) := by
  have helement : doc.element? id = some e := by
    rw [Document.element?, hdata]
    rfl
  have hknown : (doc.updateElement id (withoutDeclarations namespaces)).knows id = true := by
    rw [Document.updateElement, Document.knows_modify]
    exact Document.knows_iff_data?.mpr ⟨_, hdata⟩
  rw [outcome_bind, Hook.outcome_document]
  simp only [helement, outcome_bind, Hook.outcome_memory, Hook.outcome_remember,
    Hook.outcome_change]
  split
  · rw [Hook.outcome_edit, Document.outcome_remove, if_neg (by simp [hknown]), if_neg hroot]
  · rfl

/-- **The hook of one cleanup on entering a node.** -/
theorem call_enter {job : Job} {place : Nat} {name : String}
    (hplace : s.active[place]? = some ⟨name, job.visitor⟩) (hdoc : s.doc.WellFormed)
    (hdata : s.doc.data? id = some data) (hroot : id ≠ Document.root) :
    ∃ next, call observe .enter (.node data.kind id parent) place s = ⟨.ok (), next⟩ ∧
      next.active = s.active.set place ⟨name, (job.turn data).visitor⟩ ∧
      s.doc.Touches next.doc id (job.rewrite data) (job.keeps data) := by
  have hquiet (hpure : (job.visitor : Visitor S).hook .enter (.node data.kind id parent) = pure ())
      (hturn : job.turn data = job) (hrewrite : job.rewrite data = data)
      (hkeeps : job.keeps data = true) :
      ∃ next, call observe .enter (.node data.kind id parent) place s = ⟨.ok (), next⟩ ∧
        next.active = s.active.set place ⟨name, (job.turn data).visitor⟩ ∧
        s.doc.Touches next.doc id (job.rewrite data) (job.keeps data) := by
    refine ⟨_, call_of_outcome observe hplace (by rw [hpure]; rfl), ?_, ?_⟩
    · rw [hturn]
    · rw [hrewrite, hkeeps]
      exact .refl hdoc hdata
  cases job with
  | removal selection =>
    refine ⟨_, call_of_outcome observe hplace (outcome_removal hdata hroot), rfl, ?_⟩
    simp only [Job.rewrite, Job.keeps]
    cases selection.selects data with
    | false => exact .refl hdoc hdata
    | true => exact .detach hdoc hdata
  | editorData namespaces names =>
    cases data with
    | element e =>
      refine ⟨_, call_of_outcome observe hplace (outcome_editorData hdata hroot), rfl, ?_⟩
      have hbare := Document.Touches.updateElement hdoc hdata (withoutDeclarations namespaces)
      show s.doc.Touches (if usesName (names ++ namesBound namespaces e) e.name = true then _ else _)
        id (.element (Job.cleanElement namespaces (names ++ namesBound namespaces e) e))
        (!usesName (names ++ namesBound namespaces e) e.name)
      rw [Job.cleanElement]
      cases usesName (names ++ namesBound namespaces e) e.name with
      | true => exact hbare.trans (.detach hbare.wellFormed hbare.data?_self)
      | false =>
        exact hbare.trans (.updateElement hbare.wellFormed hbare.data?_self
          (·.filterAttributes fun a => !usesName (names ++ namesBound namespaces e) a.name))
    | _ => exact hquiet rfl rfl rfl rfl
  | colors rules =>
    cases data with
    | element e =>
      refine ⟨_, call_of_outcome observe hplace rfl, rfl, ?_⟩
      exact .updateElement hdoc hdata (·.mapValues rules.convertValue)
    | _ => exact hquiet rfl rfl rfl rfl
  | collapsing => exact hquiet rfl rfl rfl rfl
  | pruning => exact hquiet rfl rfl rfl rfl

theorem Manned.set {done rest : List Job} {job job' : Job} (h : Manned s (done ++ job :: rest))
    {name : String} (hnext : next.active = s.active.set done.length ⟨name, job'.visitor⟩) :
    Manned next (done ++ job' :: rest) := by
  have hmap : next.active.map (·.visitor)
      = (s.active.map (·.visitor)).set done.length job'.visitor := by
    rw [hnext, List.map_set]
  rw [Manned, hmap, h]
  simp

theorem inTurn_cons {α : Type} {action : α → Progress S σ → Outcome S σ} {a : α} {rest : List α}
    (h : action a s = ⟨.ok (), next⟩) : inTurn action (a :: rest) s = inTurn action rest next := by
  rw [inTurn, andThen, h]

/-- The hooks of the cleanups from one on. -/
theorem enter_from {done rest : List Job} {kind : NodeKind} (h : Manned s (done ++ rest))
    (hdoc : s.doc.WellFormed) (hdata : s.doc.data? id = some data) (hkind : data.kind = kind)
    (hroot : id ≠ Document.root) :
    ∃ next, inTurn (call observe .enter (.node kind id parent))
        (List.range' done.length rest.length) s = ⟨.ok (), next⟩ ∧
      Manned next (done ++ turnAll rest data) ∧
      s.doc.Touches next.doc id (rewriteAll rest data) (keepsAll rest data) := by
  induction rest generalizing s done data with
  | nil => exact ⟨s, rfl, h, .refl hdoc hdata⟩
  | cons job rest ih =>
    obtain ⟨name, hplace⟩ := h.getElem? (show (done ++ job :: rest)[done.length]? = some job by simp)
    obtain ⟨mid, hcall, hactive, htouches⟩ :=
      call_enter observe parent hplace hdoc hdata hroot
    have hmanned : Manned mid ((done ++ [job.turn data]) ++ rest) := by
      rw [List.append_assoc, List.singleton_append]
      exact h.set hactive
    obtain ⟨next, hrest, hnext, htouches'⟩ := ih hmanned htouches.wellFormed htouches.data?_self
      ((Job.kind_rewrite data job).trans hkind)
    rw [List.append_assoc, List.singleton_append] at hnext
    refine ⟨next, ?_, hnext, htouches.trans htouches'⟩
    rw [hkind] at hcall
    rw [List.length_cons, List.range'_succ, inTurn_cons hcall]
    simpa using hrest

/-- **Entering a node** rewrites its payload or takes it out of its place. -/
theorem enter_spec {jobs : List Job} (h : Manned s jobs) (hdoc : s.doc.WellFormed)
    (hdata : s.doc.data? id = some data) (hroot : id ≠ Document.root) :
    ∃ next, enter observe (.node data.kind id parent) s = ⟨.ok (), next⟩ ∧
      Manned next (turnAll jobs data) ∧
      s.doc.Touches next.doc id (rewriteAll jobs data) (keepsAll jobs data) := by
  rw [enter, h.length, List.range_eq_range']
  have hall : Manned s ([] ++ jobs) := h
  exact enter_from observe parent hall hdoc hdata rfl hroot

/-! ## Hooks with nothing to do -/

/-- The hook of a job leaves everything as it is. -/
def Job.Idles (S : Slots) (job : Job) (phase : Phase) (site : Site) (doc : Document) : Prop :=
  ∀ context : Context S, outcome (job.visitor.hook phase site) ⟨doc, context, job.visitor.memory⟩ =
    (.ok (), ⟨doc, context, job.visitor.memory⟩)

/-- A hook that only edits the document leaves the visitors at work as they are. -/
theorem call_edit {job : Job} {phase : Phase} {site : Site} {place : Nat} {name : String}
    {later : Document} (hplace : s.active[place]? = some ⟨name, job.visitor⟩)
    (h : outcome (job.visitor.hook phase site) ⟨s.doc, s.context, job.visitor.memory⟩ =
      (.ok (), ⟨later, s.context, job.visitor.memory⟩)) :
    ∃ next, call observe phase site place s = ⟨.ok (), next⟩ ∧ next.doc = later ∧
      next.active = s.active := by
  refine ⟨_, call_of_outcome observe hplace h, rfl, ?_⟩
  obtain ⟨hlt, hget⟩ := List.getElem?_eq_some_iff.mp hplace
  show s.active.set place ⟨name, job.visitor⟩ = s.active
  rw [← hget, List.set_getElem_self hlt]

theorem inTurn_idle {jobs : List Job} {phase : Phase} {site : Site} {places : List Nat}
    (h : Manned s jobs) (hplaces : ∀ place ∈ places, place < jobs.length)
    (hidle : ∀ job ∈ jobs, job.Idles S phase site s.doc) :
    ∃ next, inTurn (call observe phase site) places s = ⟨.ok (), next⟩ ∧ next.doc = s.doc ∧
      Manned next jobs := by
  induction places generalizing s with
  | nil => exact ⟨s, rfl, rfl, h⟩
  | cons place rest ih =>
    have hlt := hplaces place List.mem_cons_self
    obtain ⟨name, hplace⟩ := h.getElem? (List.getElem?_eq_getElem hlt)
    obtain ⟨mid, hcall, hdoc, hactive⟩ :=
      call_edit observe hplace (hidle _ (List.getElem_mem hlt) s.context)
    have hmanned : Manned mid jobs := by rw [Manned, hactive, h]
    obtain ⟨next, hrest, hnext, hlast⟩ := ih hmanned
      (fun p hp => hplaces p (List.mem_cons_of_mem _ hp)) (hdoc ▸ hidle)
    exact ⟨next, by rw [inTurn_cons hcall, hrest], hnext.trans hdoc, hlast⟩

theorem Job.idles_root (job : Job) (phase : Phase) (doc : Document) :
    job.Idles S phase .root doc := by
  intro context
  cases job <;> cases phase <;> rfl

/-! ## Leaving -/

theorem outcome_collapsing {doc : Document} {context : Context S} :
    outcome (do
        let doc ← Hook.document
        if !keepsGroups doc parent && (doc.element? id).any isPlainGroup
            && doc.parent? id = some parent then
          Hook.edit (Document.replaceWithChildren id) : Hook S Unit Unit) ⟨doc, context, ()⟩ =
      if !keepsGroups doc parent && (doc.element? id).any isPlainGroup
          && doc.parent? id = some parent then
        outcome (Hook.edit (Document.replaceWithChildren id)) ⟨doc, context, ()⟩
      else (.ok (), ⟨doc, context, ()⟩) := by
  rw [outcome_bind, Hook.outcome_document]
  simp only
  split <;> rfl

theorem outcome_pruning {doc : Document} {context : Context S} :
    outcome (do
        let doc ← Hook.document
        if (doc.children id).isEmpty && (doc.element? id).any isNamelessContainer
            && doc.isAttached id then
          Hook.edit (Document.remove id) : Hook S Unit Unit) ⟨doc, context, ()⟩ =
      if (doc.children id).isEmpty && (doc.element? id).any isNamelessContainer
          && doc.isAttached id then
        outcome (Hook.edit (Document.remove id)) ⟨doc, context, ()⟩
      else (.ok (), ⟨doc, context, ()⟩) := by
  rw [outcome_bind, Hook.outcome_document]
  simp only
  split <;> rfl

/-- Leaving a node that is no element, or is not in its place any more, does nothing. -/
theorem Job.idles_leave (job : Job) {doc : Document} (hdoc : doc.WellFormed) {kind : NodeKind}
    (hid : doc.knows id = true) (hroot : id ≠ Document.root)
    (hgone : kind = .element → doc.parent? id = none) :
    job.Idles S .leave (.node kind id parent) doc := by
  intro context
  cases job with
  | collapsing =>
    cases kind with
    | element =>
      refine (outcome_collapsing parent).trans (if_neg ?_)
      simp [hgone rfl]
    | _ => rfl
  | pruning =>
    cases kind with
    | element =>
      refine outcome_pruning.trans (if_neg ?_)
      simp [hdoc.isAttached_eq_false hid hroot (hgone rfl)]
    | _ => rfl
  | _ => cases kind <;> rfl

variable {parent}

/-- An element whose children have been visited, in its place. -/
structure Standing (doc : Document) (parent : NodeId) (before after : List NodeId) (fixed : Bool)
    (id : NodeId) (e : Element) (below : List Tree) : Prop where
  wellFormed : doc.WellFormed
  place : doc.children parent = before ++ id :: after
  data : doc.data? id = some (.element e)
  below : doc.children id = below.map Tree.id
  fixed : keepsGroups doc parent = fixed
  attached : doc.Above Document.root id

/-- What leaving an element does to a document: some trees stand where it stood. -/
structure Leaves (doc later : Document) (parent : NodeId) (before after : List NodeId)
    (id : NodeId) (result : List Tree) : Prop where
  wellFormed : later.WellFormed
  data? : ∀ x, later.data? x = doc.data? x
  parent? : ∀ x, x ≠ id → x ∉ doc.children id → later.parent? x = doc.parent? x
  place : later.children parent = before ++ result.map Tree.id ++ after
  children : ∀ x, x ≠ parent → x ≠ id → later.children x = doc.children x
  gone : later.parent? id = none ∨ later = doc

section Leave

variable {doc : Document} {before after : List NodeId} {fixed : Bool} {e : Element}
  {below : List Tree}

namespace Standing

theorem parent? (h : Standing doc parent before after fixed id e below) :
    doc.parent? id = some parent :=
  h.wellFormed.parent?_of_place h.place

theorem knows (h : Standing doc parent before after fixed id e below) : doc.knows id = true :=
  Document.knows_iff_data?.mpr ⟨_, h.data⟩

theorem ne_root (h : Standing doc parent before after fixed id e below) : id ≠ Document.root :=
  h.wellFormed.ne_root_of_parent? h.parent?

theorem element? (h : Standing doc parent before after fixed id e below) :
    doc.element? id = some e := by
  rw [Document.element?, h.data]
  rfl

theorem collapses_iff (h : Standing doc parent before after fixed id e below) :
    (!keepsGroups doc parent && (doc.element? id).any isPlainGroup
      && decide (doc.parent? id = some parent)) = (!fixed && isPlainGroup e) := by
  rw [h.element?, h.parent?, h.fixed, Option.any_some, decide_eq_true rfl, Bool.and_true]

theorem prunes_iff (h : Standing doc parent before after fixed id e below) :
    ((doc.children id).isEmpty && (doc.element? id).any isNamelessContainer && doc.isAttached id) =
      (below.isEmpty && isNamelessContainer e) := by
  rw [h.element?, h.below, h.wellFormed.isAttached_eq_true h.knows h.attached, Option.any_some,
    Bool.and_true, List.isEmpty_map]

theorem leaves_self (h : Standing doc parent before after fixed id e below) :
    Leaves doc doc parent before after id [.node id (.element e) below] := by
  refine ⟨h.wellFormed, fun _ => rfl, fun _ _ _ => rfl, ?_, fun _ _ _ => rfl, .inr rfl⟩
  rw [h.place]
  simp [Tree.id]

/-- A plain group gives way. -/
theorem collapse (h : Standing doc parent before after fixed id e below) (context : Context S)
    (hgives : (!fixed && isPlainGroup e) = true) :
    ∃ later, outcome ((Job.collapsing.visitor : Visitor S).hook .leave (.node .element id parent))
        ⟨doc, context, ()⟩ = (.ok (), ⟨later, context, ()⟩) ∧
      Leaves doc later parent before after id below ∧ later.parent? id = none := by
  obtain ⟨later, hlater, hwf, hdata, hplace, hgone, hchildren, hup⟩ :=
    h.wellFormed.replaceWithChildren_spec h.place
  refine ⟨later, ?_, ⟨hwf, hdata, hup, ?_, hchildren, .inl hgone⟩, hgone⟩
  · refine ((outcome_collapsing parent).trans (if_pos (h.collapses_iff.trans hgives))).trans ?_
    rw [Hook.outcome_edit, hlater]
    rfl
  · rw [hplace, h.below]

/-- An empty container goes. -/
theorem prune (h : Standing doc parent before after fixed id e below) (context : Context S)
    (hgoes : (below.isEmpty && isNamelessContainer e) = true) :
    ∃ later, outcome ((Job.pruning.visitor : Visitor S).hook .leave (.node .element id parent))
        ⟨doc, context, ()⟩ = (.ok (), ⟨later, context, ()⟩) ∧
      Leaves doc later parent before after id [] ∧ later.parent? id = none := by
  obtain ⟨hwf, hplace, hchildren⟩ := h.wellFormed.detach_spec h.place
  have hgone : (doc.detach id).parent? id = none := by rw [Document.parent?_detach, if_pos rfl]
  refine ⟨doc.detach id, ?_, ⟨hwf, fun x => Document.data?_detach id x, fun x hx _ => ?_, ?_,
    fun x hx _ => hchildren x hx, .inl hgone⟩, hgone⟩
  · refine (outcome_pruning.trans (if_pos (h.prunes_iff.trans hgoes))).trans ?_
    rw [Hook.outcome_edit, Document.outcome_remove, if_neg (by simp [h.knows]), if_neg h.ne_root]
    rfl
  · rw [Document.parent?_detach, if_neg hx]
  · rw [hplace, List.map_nil, List.append_nil]

end Standing

theorem leaveAll_cons_idle {job : Job} {rest : List Job}
    (hcollapse : job.collapses = true → (!fixed && isPlainGroup e) = false)
    (hprune : job.prunes = true → (below.isEmpty && isNamelessContainer e) = false) :
    leaveAll (job :: rest) fixed id e below = leaveAll rest fixed id e below := by
  have hgives : givesWay (job :: rest) fixed e = givesWay rest fixed e := by
    unfold givesWay
    rw [List.any_cons]
    cases hjob : job.collapses with
    | false => rfl
    | true =>
      rw [Bool.and_assoc, Bool.and_assoc, hcollapse hjob, Bool.and_false, Bool.and_false]
  have hpruned : isPruned (job :: rest) e below = isPruned rest e below := by
    unfold isPruned
    rw [List.any_cons]
    cases hjob : job.prunes with
    | false => rfl
    | true => rw [Bool.and_assoc, Bool.and_assoc, hprune hjob, Bool.and_false, Bool.and_false]
  rw [leaveAll, leaveAll, hgives, hpruned]

theorem leaveAll_of_collapses {job : Job} {rest : List Job} (hjob : job.collapses = true)
    (hgives : (!fixed && isPlainGroup e) = true) :
    leaveAll (job :: rest) fixed id e below = below := by
  rw [leaveAll, if_pos]
  rw [givesWay, List.any_cons, hjob, Bool.true_or, Bool.and_assoc, hgives, Bool.and_true]

theorem leaveAll_of_prunes {job : Job} {rest : List Job} (hjob : job.prunes = true)
    (hgoes : (below.isEmpty && isNamelessContainer e) = true) :
    leaveAll (job :: rest) fixed id e below = [] := by
  have hempty : below = [] := List.isEmpty_iff.mp (Bool.and_eq_true_iff.mp hgoes).1
  unfold leaveAll
  split
  · exact hempty
  · rw [if_pos]
    rw [isPruned, List.any_cons, hjob, Bool.true_or, Bool.and_assoc, hgoes, Bool.and_true]

/-- **What one hook does on leaving an element.** Either nothing, and the jobs after it decide, or the
element is out of its place, whatever jobs come after. -/
theorem Job.leave_step (job : Job) (h : Standing doc parent before after fixed id e below)
    (context : Context S) :
    ∃ later, outcome (job.visitor.hook .leave (.node .element id parent))
        ⟨doc, context, job.visitor.memory⟩ = (.ok (), ⟨later, context, job.visitor.memory⟩) ∧
      ((later = doc ∧ ∀ rest,
          leaveAll (job :: rest) fixed id e below = leaveAll rest fixed id e below) ∨
        (later.parent? id = none ∧ ∀ rest,
          Leaves doc later parent before after id (leaveAll (job :: rest) fixed id e below))) := by
  have hother (hcollapses : job.collapses = false) (hprunes : job.prunes = false) (rest : List Job) :
      leaveAll (job :: rest) fixed id e below = leaveAll rest fixed id e below :=
    leaveAll_cons_idle (fun h => absurd (hcollapses.symm.trans h) Bool.false_ne_true)
      fun h => absurd (hprunes.symm.trans h) Bool.false_ne_true
  cases job with
  | collapsing =>
    cases hgives : (!fixed && isPlainGroup e) with
    | true =>
      obtain ⟨later, hlater, hleaves, hgone⟩ := h.collapse context hgives
      refine ⟨later, hlater, .inr ⟨hgone, fun rest => ?_⟩⟩
      rw [leaveAll_of_collapses rfl hgives]
      exact hleaves
    | false =>
      refine ⟨doc, (outcome_collapsing parent).trans (if_neg ?_), .inl ⟨rfl, fun rest => ?_⟩⟩
      · rw [h.collapses_iff, hgives]
        exact Bool.false_ne_true
      · exact leaveAll_cons_idle (fun _ => hgives) fun h => absurd h Bool.false_ne_true
  | pruning =>
    cases hgoes : (below.isEmpty && isNamelessContainer e) with
    | true =>
      obtain ⟨later, hlater, hleaves, hgone⟩ := h.prune context hgoes
      refine ⟨later, hlater, .inr ⟨hgone, fun rest => ?_⟩⟩
      rw [leaveAll_of_prunes rfl hgoes]
      exact hleaves
    | false =>
      refine ⟨doc, outcome_pruning.trans (if_neg ?_), .inl ⟨rfl, fun rest => ?_⟩⟩
      · rw [h.prunes_iff, hgoes]
        exact Bool.false_ne_true
      · exact leaveAll_cons_idle (fun h => absurd h Bool.false_ne_true) fun _ => hgoes
  | removal selection => exact ⟨doc, rfl, .inl ⟨rfl, hother rfl rfl⟩⟩
  | editorData namespaces names => exact ⟨doc, rfl, .inl ⟨rfl, hother rfl rfl⟩⟩
  | colors rules => exact ⟨doc, rfl, .inl ⟨rfl, hother rfl rfl⟩⟩

/-- Once an element is out of its place, no hook finds anything to do. -/
theorem leave_gone {jobs : List Job} {places : List Nat} {mid : Progress S σ} {result : List Tree}
    (h : Standing doc parent before after fixed id e below) (hjobs : Manned mid jobs)
    (hplaces : ∀ place ∈ places, place < jobs.length)
    (hleaves : Leaves doc mid.doc parent before after id result)
    (hgone : mid.doc.parent? id = none) :
    ∃ next, inTurn (call observe .leave (.node .element id parent)) places mid = ⟨.ok (), next⟩ ∧
      Manned next jobs ∧ Leaves doc next.doc parent before after id result := by
  have hknows : mid.doc.knows id = true := by
    rw [Document.knows_iff_data?, hleaves.data?, ← Document.knows_iff_data?]
    exact h.knows
  obtain ⟨next, hnext, hdoc, hlast⟩ := inTurn_idle observe hjobs hplaces
    fun job _ => job.idles_leave parent hleaves.wellFormed hknows h.ne_root
      fun _ => hgone
  exact ⟨next, hnext, hlast, hdoc ▸ hleaves⟩

/-- The hooks of some of the cleanups, in whatever order. -/
theorem leave_from {jobs todo : List Job} {places : List Nat} (hjobs : Manned s jobs)
    (hplaces : places.map (jobs[·]?) = todo.map some)
    (h : Standing s.doc parent before after fixed id e below) :
    ∃ next, inTurn (call observe .leave (.node .element id parent)) places s = ⟨.ok (), next⟩ ∧
      Manned next jobs ∧
      Leaves s.doc next.doc parent before after id (leaveAll todo fixed id e below) := by
  induction places generalizing s todo with
  | nil =>
    obtain rfl : todo = [] := by simpa using hplaces.symm
    exact ⟨s, rfl, hjobs, h.leaves_self⟩
  | cons place places ih =>
    cases todo with
    | nil => cases hplaces
    | cons job rest =>
      rw [List.map_cons, List.map_cons, List.cons.injEq] at hplaces
      obtain ⟨hplace, hrest⟩ := hplaces
      obtain ⟨name, hactive⟩ := hjobs.getElem? hplace
      obtain ⟨later, hout, hcase⟩ := job.leave_step h s.context
      obtain ⟨mid, hcall, rfl, hmid⟩ := call_edit observe hactive hout
      have hmanned : Manned mid jobs := by rw [Manned, hmid, hjobs]
      rw [inTurn_cons hcall]
      rcases hcase with ⟨hsame, hidle⟩ | ⟨hgone, hleaves⟩
      · obtain ⟨next, hnext, hlast, hleaves⟩ := ih hmanned hrest (hsame ▸ h)
        rw [hidle]
        exact ⟨next, hnext, hlast, hsame ▸ hleaves⟩
      · refine leave_gone observe h hmanned (fun p hp => ?_) (hleaves rest) hgone
        have hmem : jobs[p]? ∈ rest.map some := hrest ▸ List.mem_map_of_mem hp
        obtain ⟨job', -, hjob'⟩ := List.mem_map.mp hmem
        exact (List.getElem?_eq_some_iff.mp hjob'.symm).1

theorem map_getElem?_range {α : Type} (list : List α) :
    (List.range list.length).map (list[·]?) = list.map some := by
  refine List.ext_getElem (by simp) fun n hn hn' => ?_
  simp

theorem leaveAll_reverse (jobs : List Job) (fixed : Bool) (id : NodeId) (e : Element)
    (below : List Tree) :
    leaveAll jobs.reverse fixed id e below = leaveAll jobs fixed id e below := by
  have hgives : givesWay jobs.reverse fixed e = givesWay jobs fixed e := by
    rw [givesWay, givesWay, List.any_reverse]
  have hpruned : isPruned jobs.reverse e below = isPruned jobs e below := by
    rw [isPruned, isPruned, List.any_reverse]
  rw [leaveAll, leaveAll, hgives, hpruned]

/-- **Leaving an element puts in its place what `leaveAll` says.** -/
theorem leave_spec {jobs : List Job} (hjobs : Manned s jobs)
    (h : Standing s.doc parent before after fixed id e below) :
    ∃ next, leave observe (.node .element id parent) s = ⟨.ok (), next⟩ ∧ Manned next jobs ∧
      Leaves s.doc next.doc parent before after id (leaveAll jobs fixed id e below) := by
  rw [← leaveAll_reverse]
  refine leave_from observe hjobs ?_ h
  rw [List.map_reverse, List.map_reverse, hjobs.length]
  exact congrArg List.reverse (map_getElem?_range jobs)

end Leave

end Cleanup

end SvgTidy
