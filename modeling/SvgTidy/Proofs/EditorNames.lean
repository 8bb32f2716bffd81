import SvgTidy.Proofs.CleanupPass
import SvgTidy.Proofs.CombinedJobs
import SvgTidy.Proofs.Navigation

/-!
# Where the names of editor data are known

The pass that removes editor data carries one list of names from node to node. `Document.Learned`
says what such a list has to do with the place at which it is known: it holds all names that
elements from there up bind to the namespaces looked for, and none but those bound there or earlier
in document order, by elements that stay. Which elements these are is known at the end only, so it is
a parameter of all that is said of a sweep on the way (`stays`). What the pass leaves of a document
is told by it (`Stripped`).

Principal results: `sweepAll_strips` — a sweep enters every node with such a list; `run_strips` —
what a pass leaves of a document.
-/

namespace SvgTidy

open Cleanup Pass
open SvgTidy.Tree (ids idsAll mem_idsAll idsAll_append)

namespace Document

variable {doc next : Document} {namespaces names : List String} {stays : NodeId → Prop}
  {front back : List NodeId} {id parent : NodeId}

/-- At a node, these names are known to be bound to some namespaces: all that an `svg` element from
there up binds to one of them, and none but those that an `svg` element that stays binds there or
earlier. -/
structure Learned (doc : Document) (namespaces : List String) (stays : NodeId → Prop) (id : NodeId)
    (names : List String) : Prop where
  above : ∀ up ∈ doc.chain id, ∀ e, doc.element? up = some e → namesBound namespaces e ⊆ names
  before : ∀ name ∈ names, ∃ up e, stays up ∧ (up = id ∨ doc.Precedes up id) ∧
    doc.element? up = some e ∧ name ∈ namesBound namespaces e

/-- A node goes: it is an element with a name that is known there. -/
def Goes (doc : Document) (namespaces : List String) (stays : NodeId → Prop) (id : NodeId) : Prop :=
  ¬stays id ∧ ∃ e names, doc.element? id = some e ∧ doc.Learned namespaces stays id names ∧
    usesName names e.name = true

/-- What is left of a node that stays, with what is left below it. -/
inductive Kept (doc : Document) (namespaces : List String) (stays : NodeId → Prop) : Tree → Prop where
  | node {id : NodeId} {data : NodeData} {names : List String} {children : List Tree}
      (hdata : doc.data? id = some data) (hnames : doc.Learned namespaces stays id names)
      (hunused : ∀ e, data = .element e → usesName names e.name = false)
      (hplace : (children.map Tree.id).Sublist (doc.children id))
      (hbelow : ∀ t ∈ children, Kept doc namespaces stays t) :
      Kept doc namespaces stays (.node id (data.mapElement (Job.cleanElement namespaces names)) children)

/-! ## On the way -/

/-- The names known when some nodes have been entered and those below `parent` are next. -/
structure Ready (doc : Document) (namespaces : List String) (stays : NodeId → Prop)
    (front : List NodeId) (parent : NodeId) (names : List String) : Prop where
  above : ∀ up ∈ doc.chain parent, ∀ e, doc.element? up = some e → namesBound namespaces e ⊆ names
  before : ∀ name ∈ names, ∃ up ∈ front, stays up ∧ ∃ e, doc.element? up = some e ∧
    name ∈ namesBound namespaces e

namespace Ready

theorem start (hdoc : doc.WellFormed) : doc.Ready namespaces stays [] root [] := by
  refine ⟨fun up hup e he => ?_, List.forall_mem_nil _⟩
  rw [hdoc.chain_eq hdoc.knows_root, hdoc.root_free, List.mem_singleton] at hup
  rw [hup, element?, hdoc.data?_root] at he
  cases he

theorem more (h : doc.Ready namespaces stays front parent names) (entered : List NodeId) :
    doc.Ready namespaces stays (front ++ entered) parent names := by
  refine ⟨h.above, fun name hname => ?_⟩
  obtain ⟨up, hup, rest⟩ := h.before name hname
  exact ⟨up, List.mem_append_left _ hup, rest⟩

/-- The names known when a node has been entered. -/
theorem enter (h : doc.Ready namespaces stays front parent names) (hdoc : doc.WellFormed)
    (hlink : doc.parent? id = some parent) {data : NodeData} (hdata : doc.data? id = some data)
    (hbinds : ∀ e, data = .element e → namesBound namespaces e ≠ [] → stays id) :
    doc.Ready namespaces stays (front ++ [id]) id (Job.namesAfter namespaces names data) := by
  have helement : doc.element? id = data.element? := by
    rw [element?, hdata]
    rfl
  have hsub : names ⊆ Job.namesAfter namespaces names data := by
    cases data with
    | element e => exact List.subset_append_left _ _
    | _ => exact List.Subset.refl _
  have hbound : ∀ e, doc.element? id = some e →
      namesBound namespaces e ⊆ Job.namesAfter namespaces names data := by
    intro e he
    rw [helement] at he
    cases data <;> cases he
    exact List.subset_append_right _ _
  refine ⟨fun up hup e he => ?_, fun name hname => ?_⟩
  · rw [hdoc.chain_eq (knows_of_parent? hlink), hlink] at hup
    rcases List.mem_cons.mp hup with rfl | hup
    · exact hbound e he
    · exact List.Subset.trans (h.above up hup e he) hsub
  · by_cases hold : name ∈ names
    · exact (h.more [id]).before name hold
    · cases data with
      | element e =>
        have hnew := (List.mem_append.mp hname).resolve_left hold
        exact ⟨id, List.mem_append_right _ List.mem_cons_self,
          hbinds e rfl (List.ne_nil_of_mem hnew), e, helement, hnew⟩
      | _ => exact absurd hname hold

theorem learned (h : doc.Ready namespaces stays (front ++ [id]) id names)
    (horder : doc.descendants root = front ++ id :: back) : doc.Learned namespaces stays id names := by
  refine ⟨h.above, fun name hname => ?_⟩
  obtain ⟨up, hup, hstays, e, he, hbound⟩ := h.before name hname
  refine ⟨up, e, hstays, ?_, he, hbound⟩
  rcases List.mem_append.mp hup with hup | hup
  · exact .inr (precedes_of_split horder hup)
  · exact .inl (List.mem_singleton.mp hup)

/-- The names that were known above are still known to those after a node. -/
theorem leave {names' : List String} (h : doc.Ready namespaces stays front parent names)
    (hbelow : doc.Ready namespaces stays (front ++ back) id names') (hsub : names ⊆ names') :
    doc.Ready namespaces stays (front ++ back) parent names' :=
  ⟨fun up hup e he => List.Subset.trans (h.above up hup e he) hsub, hbelow.before⟩

/-- What is known after all that an element holds is known after the element. -/
theorem leave_element {names' : List String} {e : Element} {children : List Tree}
    (h : doc.Ready namespaces stays front parent names)
    (hbelow : doc.Ready namespaces stays (front ++ [id] ++ idsAll children) id names')
    (hsub : names ++ namesBound namespaces e ⊆ names') :
    doc.Ready namespaces stays (front ++ idsAll [.node id (.element e) children]) parent names' := by
  rw [List.append_assoc] at hbelow
  rw [idsAll, idsAll, List.append_nil]
  exact h.leave hbelow (List.Subset.trans (List.subset_append_left _ _) hsub)

end Ready

end Document

/-! ## A sweep -/

namespace Cleanup

open Document

variable {doc : Document} {namespaces names : List String} {stays : NodeId → Prop}
  {front back : List NodeId} {parent : NodeId}

/-- What a sweep for editor data does with an element. -/
theorem sweep_editorData (fixed : Bool) (namespaces names : List String) (id : NodeId) (e : Element)
    (children : List Tree) :
    sweep fixed [.editorData namespaces names] (.node id (.element e) children) =
      if usesName (names ++ namesBound namespaces e) e.name then
        ([.editorData namespaces (names ++ namesBound namespaces e)], [])
      else
        let below := sweepAll (e.is "switch")
          [.editorData namespaces (names ++ namesBound namespaces e)] children
        (below.1, [.node id
          (.element (Job.cleanElement namespaces (names ++ namesBound namespaces e) e)) below.2]) := by
  have hkeeps : keepsAll [.editorData namespaces names] (.element e) =
      !usesName (names ++ namesBound namespaces e) e.name := by
    show (!usesName _ e.name && true) = _
    rw [Bool.and_true]
    rfl
  have hname : (Job.cleanElement namespaces (Job.namesAfter namespaces names (.element e)) e).is
      "switch" = e.is "switch" :=
    congrArg (· == "switch") (Job.name_cleanElement _ _ e)
  unfold sweep
  rw [hkeeps]
  cases usesName (names ++ namesBound namespaces e) e.name with
  | true => rfl
  | false =>
    show (_, leaveAll _ fixed id _ _) = _
    rw [hname]
    rfl

/-- What a sweep for editor data makes of trees side by side below a node of a document, when it has
entered the nodes in `front` before. -/
structure Strips (doc : Document) (namespaces : List String) (stays : NodeId → Prop)
    (front : List NodeId) (parent : NodeId) (names : List String) (trees : List Tree)
    (swept : List Job × List Tree) : Prop where
  ready : ∃ names', swept.1 = [.editorData namespaces names'] ∧ names ⊆ names' ∧
    doc.Ready namespaces stays (front ++ idsAll trees) parent names'
  kept : ∀ t ∈ swept.2, doc.Kept namespaces stays t
  place : (swept.2.map Tree.id).Sublist (trees.map Tree.id)
  gone : ∀ x ∈ idsAll trees, x ∈ idsAll swept.2 ∨ ∃ up ∈ doc.chain x, doc.Goes namespaces stays up

/-- What stays of some trees is what is left of them. -/
def Stay (stays : NodeId → Prop) (trees left : List Tree) : Prop :=
  ∀ x ∈ idsAll trees, stays x ↔ x ∈ idsAll left

namespace Stay

variable {t : Tree} {others first rest : List Tree}

theorem head (h : Stay stays (t :: others) (first ++ rest))
    (hnodup : (idsAll (t :: others)).Nodup) (hrest : idsAll rest ⊆ idsAll others) :
    Stay stays [t] first := by
  rw [idsAll, List.nodup_append'] at hnodup
  intro x hx
  rw [idsAll, idsAll, List.append_nil] at hx
  rw [h x (List.mem_append_left _ hx), idsAll_append, List.mem_append, or_iff_left_iff_imp]
  exact fun hlater => absurd (hrest hlater) (hnodup.2.2 hx)

theorem tail (h : Stay stays (t :: others) (first ++ rest))
    (hnodup : (idsAll (t :: others)).Nodup) (hfirst : idsAll first ⊆ t.ids) :
    Stay stays others rest := by
  rw [idsAll, List.nodup_append'] at hnodup
  intro x hx
  rw [h x (List.mem_append_right _ hx), idsAll_append, List.mem_append, or_iff_right_iff_imp]
  exact fun hearlier => absurd hx (hnodup.2.2 (hfirst hearlier))

theorem below {id : NodeId} {data data' : NodeData} {children left : List Tree}
    (h : Stay stays [.node id data children] [.node id data' left])
    (hid : id ∉ idsAll children) : Stay stays children left := by
  intro x hx
  have hne : x ≠ id := ne_of_mem_of_not_mem hx hid
  rw [h x (by simp [idsAll, ids, hx])]
  simp [idsAll, ids, hne]

end Stay

theorem Strips.append {t : Tree} {others : List Tree} {names' : List String}
    {first rest : List Job × List Tree}
    (hfirst : Strips doc namespaces stays front parent names [t] first)
    (hrest : Strips doc namespaces stays (front ++ t.ids) parent names' others rest)
    (hsub : names ⊆ names') :
    Strips doc namespaces stays front parent names (t :: others) (rest.1, first.2 ++ rest.2) := by
  obtain ⟨names'', hjobs, hsub', hready⟩ := hrest.ready
  refine ⟨⟨names'', hjobs, List.Subset.trans hsub hsub', ?_⟩, fun x hx => ?_, ?_, fun x hx => ?_⟩
  · rwa [idsAll, ← List.append_assoc]
  · rcases List.mem_append.mp hx with hx | hx
    · exact hfirst.kept x hx
    · exact hrest.kept x hx
  · rw [List.map_append]
    exact hfirst.place.append hrest.place
  · rw [idsAll_append, List.mem_append]
    rw [idsAll, List.mem_append] at hx
    rcases hx with hx | hx
    · exact (hfirst.gone x (by rwa [idsAll, idsAll, List.append_nil])).imp_left .inl
    · exact (hrest.gone x hx).imp_left .inr

section Node

variable {id : NodeId} {data : NodeData} {e : Element} {children : List Tree}

/-- A node that is no element stays as it is. -/
theorem strips_leaf (hdoc : doc.WellFormed) (fixed : Bool)
    (hshows : doc.Shows (.node id data children)) (hlink : doc.parent? id = some parent)
    (horder : doc.descendants root = front ++ (id :: idsAll children ++ back))
    (hready : doc.Ready namespaces stays front parent names) (hkind : data.kind ≠ .element) :
    Strips doc namespaces stays front parent names [.node id data children]
      (sweep fixed [.editorData namespaces names] (.node id data children)) := by
  have hdata : doc.data? id = some data := hshows.data?
  obtain rfl := hdoc.eq_nil_of_shows hshows hlink hkind
  have hlearned := (hready.enter hdoc hlink hdata fun e he => absurd (he ▸ rfl) hkind).learned horder
  have hsame : sweep fixed [.editorData namespaces names] (.node id data []) =
      ([.editorData namespaces names], [.node id data []]) := by
    cases data <;> first | rfl | exact absurd rfl hkind
  have hkept : doc.Kept namespaces stays (.node id data []) := by
    have hplace : (([] : List Tree).map Tree.id).Sublist (doc.children id) := List.nil_sublist _
    have h := Kept.node hdata hlearned (fun e he => absurd (he ▸ rfl) hkind) hplace
      (List.forall_mem_nil _)
    cases data <;> first | exact h | exact absurd rfl hkind
  rw [hsame]
  refine ⟨⟨names, rfl, List.Subset.refl _, hready.more _⟩, fun t ht => ?_, List.Sublist.refl _,
    fun x hx => .inl hx⟩
  exact List.mem_singleton.mp ht ▸ hkept

section Element

variable (hshows : doc.Shows (.node id (.element e) children))
  (hready : doc.Ready namespaces stays front parent names)
  (hlearned : doc.Learned namespaces stays id (names ++ namesBound namespaces e))
include hshows hready hlearned

/-- An element with a name that is known goes, and all below it with it. -/
theorem strips_used (hdoc : doc.WellFormed) (hgoes : ¬stays id)
    (hentered : doc.Ready namespaces stays (front ++ [id]) id (names ++ namesBound namespaces e))
    (huses : usesName (names ++ namesBound namespaces e) e.name = true) :
    Strips doc namespaces stays front parent names [.node id (.element e) children]
      ([.editorData namespaces (names ++ namesBound namespaces e)], []) := by
  have hdata : doc.data? id = some (.element e) := hshows.data?
  have helement : doc.element? id = some e := by
    rw [element?, hdata]
    rfl
  refine ⟨⟨_, rfl, List.subset_append_left _ _, ?_⟩, List.forall_mem_nil _, List.nil_sublist _,
    fun x hx => ?_⟩
  · exact hready.leave_element (hentered.more _) (List.Subset.refl _)
  · rw [idsAll, idsAll, List.append_nil] at hx
    exact .inr ⟨id, hdoc.mem_chain_of_mem_ids hshows hx, hgoes, e, _, helement, hlearned, huses⟩

/-- Any other element stays, with what is left below it. -/
theorem strips_unused (huses : usesName (names ++ namesBound namespaces e) e.name = false)
    {swept : List Job × List Tree}
    (hbelow : Strips doc namespaces stays (front ++ [id]) id (names ++ namesBound namespaces e) children
      swept) :
    Strips doc namespaces stays front parent names [.node id (.element e) children]
      (swept.1, [.node id
        (.element (Job.cleanElement namespaces (names ++ namesBound namespaces e) e)) swept.2]) := by
  obtain ⟨names', hjobs, hsub, hready'⟩ := hbelow.ready
  refine ⟨⟨names', hjobs, List.Subset.trans (List.subset_append_left _ _) hsub, ?_⟩, fun t ht => ?_,
    List.Sublist.refl _, fun x hx => ?_⟩
  · exact hready.leave_element hready' hsub
  · obtain rfl := List.mem_singleton.mp ht
    have hdata : doc.data? id = some (.element e) := hshows.data?
    refine .node hdata hlearned (fun e' he' => ?_) ?_ hbelow.kept
    · cases he'
      exact huses
    · rw [show doc.children id = children.map Tree.id from hshows.children]
      exact hbelow.place
  · rw [idsAll, idsAll, List.append_nil] at hx ⊢
    rcases List.mem_cons.mp hx with rfl | hx
    · exact .inl List.mem_cons_self
    · exact (hbelow.gone x hx).imp_left (List.mem_cons_of_mem _)

end Element

theorem strips_element (hdoc : doc.WellFormed) (fixed : Bool)
    (hshows : doc.Shows (.node id (.element e) children)) (hlink : doc.parent? id = some parent)
    (horder : doc.descendants root = front ++ (id :: idsAll children ++ back))
    (hready : doc.Ready namespaces stays front parent names)
    (hstay : Stay stays [.node id (.element e) children]
      (sweep fixed [.editorData namespaces names] (.node id (.element e) children)).2)
    (hbelow : doc.Ready namespaces stays (front ++ [id]) id (names ++ namesBound namespaces e) →
      Stay stays children (sweepAll (e.is "switch")
        [.editorData namespaces (names ++ namesBound namespaces e)] children).2 →
      Strips doc namespaces stays (front ++ [id]) id (names ++ namesBound namespaces e) children
        (sweepAll (e.is "switch") [.editorData namespaces (names ++ namesBound namespaces e)]
          children)) :
    Strips doc namespaces stays front parent names [.node id (.element e) children]
      (sweep fixed [.editorData namespaces names] (.node id (.element e) children)) := by
  have hmem : id ∈ idsAll [Tree.node id (.element e) children] := by simp [idsAll, ids]
  rw [sweep_editorData] at hstay ⊢
  -- an element that binds names has none of them itself
  have hbinds : ∀ f, NodeData.element e = .element f → namesBound namespaces f ≠ [] →
      stays id := by
    rintro f ⟨⟩ hnames
    have hsvg : e.is "svg" = true := by
      by_contra hsvg
      exact hnames (namesBound_of_not_svg (Bool.not_eq_true _ ▸ hsvg))
    rw [hstay id hmem, usesName_svg hsvg]
    simp [idsAll, ids]
  have hentered : doc.Ready namespaces stays (front ++ [id]) id
      (names ++ namesBound namespaces e) := hready.enter hdoc hlink hshows.data? hbinds
  have hlearned := hentered.learned horder
  split
  · rename_i huses
    rw [if_pos huses] at hstay
    refine strips_used hshows hready hlearned hdoc (fun hstays => ?_) hentered huses
    exact absurd ((hstay id hmem).mp hstays) List.not_mem_nil
  · rename_i huses
    rw [if_neg huses] at hstay
    rw [Bool.not_eq_true] at huses
    have hid : id ∉ idsAll children := (List.nodup_cons.mp (hdoc.nodup_ids hshows)).1
    exact strips_unused hshows hready hlearned huses (hbelow hentered (hstay.below hid))

end Node

mutual

theorem sweep_strips (hdoc : doc.WellFormed) (fixed : Bool) : ∀ {front back : List NodeId}
    {parent : NodeId} {names : List String} (t : Tree), doc.Shows t →
    doc.parent? t.id = some parent → doc.descendants root = front ++ (t.ids ++ back) →
    doc.Ready namespaces stays front parent names →
    Stay stays [t] (sweep fixed [.editorData namespaces names] t).2 →
    Strips doc namespaces stays front parent names [t] (sweep fixed [.editorData namespaces names] t)
  | front, back, parent, names, .node id data children, hshows, hlink, horder, hready, hstay => by
    by_cases hkind : data.kind = .element
    · obtain ⟨e, rfl⟩ := NodeData.exists_element hkind
      have hlinks : ∀ t ∈ children, doc.parent? t.id = some id := by
        intro t ht
        rw [← hdoc.linked, show doc.children id = children.map Tree.id from hshows.children]
        exact List.mem_map_of_mem ht
      have hall : ∀ t ∈ children, doc.Shows t := by
        cases hshows with
        | node _ _ hall => exact hall
      refine strips_element hdoc fixed hshows hlink horder hready hstay fun hentered hstay => ?_
      have hbelow : doc.descendants root = (front ++ [id]) ++ (idsAll children ++ back) := by
        simpa [ids] using horder
      exact sweepAll_strips hdoc (e.is "switch") children hall hlinks hbelow hentered hstay
    · exact strips_leaf hdoc fixed hshows hlink horder hready hkind

/-- **A sweep for editor data enters every node with the names that are bound above it**, and with
none that is not bound above it or earlier. -/
theorem sweepAll_strips (hdoc : doc.WellFormed) (fixed : Bool) : ∀ {front back : List NodeId}
    {parent : NodeId} {names : List String} (trees : List Tree), (∀ t ∈ trees, doc.Shows t) →
    (∀ t ∈ trees, doc.parent? t.id = some parent) →
    doc.descendants root = front ++ (idsAll trees ++ back) →
    doc.Ready namespaces stays front parent names →
    Stay stays trees (sweepAll fixed [.editorData namespaces names] trees).2 →
    Strips doc namespaces stays front parent names trees
      (sweepAll fixed [.editorData namespaces names] trees)
  | front, back, parent, names, [], _, _, _, hready, _ =>
    ⟨⟨names, rfl, List.Subset.refl _, hready.more []⟩, List.forall_mem_nil _, .slnil, nofun⟩
  | front, back, parent, names, t :: others, hshows, hlinks, horder, hready, hstay => by
    have hnodup : (idsAll (t :: others)).Nodup := by
      have hall := hdoc.nodup_descendants root
      rw [horder] at hall
      exact (List.nodup_append'.mp (List.nodup_append'.mp hall).2.1).1
    rw [idsAll, List.append_assoc] at horder
    unfold sweepAll at hstay ⊢
    have hfirst := sweep_strips hdoc fixed t (hshows t List.mem_cons_self)
      (hlinks t List.mem_cons_self) horder hready
      (hstay.head hnodup (ids_sweepAll_subset _ _ _))
    obtain ⟨names', hjobs, hsub, hready'⟩ := hfirst.ready
    rw [← List.append_assoc] at horder
    simp only [hjobs] at hstay ⊢
    have hrest := sweepAll_strips hdoc fixed others
      (fun x hx => hshows x (List.mem_cons_of_mem _ hx))
      (fun x hx => hlinks x (List.mem_cons_of_mem _ hx)) horder
      (show doc.Ready namespaces stays (front ++ t.ids) parent names' by simpa [idsAll] using hready')
      (hstay.tail hnodup (ids_sweep_subset _ _ _))
    exact hfirst.append hrest hsub

end

end Cleanup

/-! ## A pass -/

namespace Document

variable {doc next : Document} {namespaces : List String} {id : NodeId}

/-- A node stays, its element without what belongs to the namespaces. -/
def Retains (doc next : Document) (namespaces : List String) (id : NodeId) : Prop :=
  ∃ data names, doc.data? id = some data ∧
    doc.Learned namespaces (next.isAttached · = true) id names ∧
    (∀ e, data = .element e → usesName names e.name = false) ∧
    next.data? id = some (data.mapElement (Job.cleanElement namespaces names))

/-- What a pass that removes editor data leaves of a document. -/
structure Stripped (doc next : Document) (namespaces : List String) : Prop where
  wellFormed : next.WellFormed
  retains : ∀ id, next.isAttached id = true → Retains doc next namespaces id
  parent? : ∀ id, next.isAttached id = true → next.parent? id = doc.parent? id
  children : ∀ id, next.isAttached id = true → (next.children id).Sublist (doc.children id)
  gone : ∀ id, doc.isAttached id = true → next.isAttached id = true ∨
    ∃ up ∈ doc.chain id, doc.Goes namespaces (next.isAttached · = true) up
  detached : ∀ id, doc.isAttached id = false → next.isAttached id = false ∧
    next.node? id = doc.node? id

/-- Where trees are kept, the nodes in them are. -/
theorem Kept.of_mem {t : Tree} (h : doc.Kept namespaces (next.isAttached · = true) t) (hshows : next.Shows t)
    (hid : id ∈ t.ids) :
    Retains doc next namespaces id ∧ (next.children id).Sublist (doc.children id) := by
  induction h with
  | node hdata hnames hstays hplace _ ih =>
    cases hshows with
    | node hdata' hchildren' hbelow' =>
      rcases List.mem_cons.mp hid with rfl | hid
      · exact ⟨⟨_, _, hdata, hnames, hstays, hdata'⟩, hchildren' ▸ hplace⟩
      · obtain ⟨t, ht, hmem⟩ := mem_idsAll.mp hid
        exact ih t ht (hbelow' t ht) hmem

theorem retains_root (hdoc : doc.WellFormed) (hdata : next.data? root = doc.data? root) :
    Retains doc next namespaces root := by
  have hstart : doc.Ready namespaces (next.isAttached · = true) [] root [] := .start hdoc
  refine ⟨.root, [], hdoc.data?_root, ⟨hstart.above, List.forall_mem_nil _⟩, nofun, ?_⟩
  rw [hdata, hdoc.data?_root]
  rfl

theorem Stripped.of_becomes (hdoc : doc.WellFormed) {swept : List Job × List Tree}
    (hbecomes : doc.Becomes next root [] [] (idsAll doc.forest) swept.2)
    (hsub : idsAll swept.2 ⊆ idsAll doc.forest)
    (hstrips : Strips doc namespaces (next.isAttached · = true) [] root [] doc.forest swept) :
    Stripped doc next namespaces := by
  have hnext := hbecomes.wellFormed
  have hforest : next.forest = swept.2 := hbecomes.forest_eq
  have hroot := hdoc.root_not_mem_forest
  have hnode (id : NodeId) (hid : next.isAttached id = true) : Retains doc next namespaces id ∧
      (next.children id).Sublist (doc.children id) := by
    rw [hnext.isAttached_iff_mem, hforest] at hid
    rcases hid with rfl | hid
    · refine ⟨retains_root hdoc (hbecomes.data? root hroot), ?_⟩
      rw [hnext.forest_spec.1, hdoc.forest_spec.1, hforest]
      exact hstrips.place
    · obtain ⟨t, ht, hmem⟩ := mem_idsAll.mp hid
      exact (hstrips.kept t ht).of_mem (hbecomes.shows t ht) hmem
  refine ⟨hnext, fun id hid => (hnode id hid).1, fun id hid => ?_, fun id hid => (hnode id hid).2,
    fun id hid => ?_, fun id hid => ?_⟩
  · rcases hnext.attached_cases hid with rfl | ⟨p, hlink, hp⟩
    · rw [hnext.root_free, hdoc.root_free]
    · -- the parent is attached as well, and its children were its children before
      have hchild := (hnode p hp).2.subset ((hnext.linked p id).mpr hlink)
      rw [hlink, (hdoc.linked p id).mp hchild]
  · rw [hnext.isAttached_iff_mem, hforest]
    rcases hdoc.isAttached_iff_mem.mp hid with rfl | hid
    · exact .inl (.inl rfl)
    · exact (hstrips.gone id hid).imp_left .inr
  · refine ⟨?_, hbecomes.node?_of_detached hdoc hid⟩
    rw [Bool.eq_false_iff, Ne, hdoc.isAttached_iff_mem, not_or] at hid
    rw [Bool.eq_false_iff, Ne, hnext.isAttached_iff_mem, hforest, not_or]
    exact ⟨hid.1, fun hmem => hid.2 (hsub hmem)⟩

end Document

namespace Cleanup

variable {S : Slots} {σ : Type}

/-- **What a pass that removes editor data leaves.** -/
theorem run_strips (observe : Observer S σ) (extra : List String) (info : PassInfo) {doc : Document}
    (hdoc : doc.WellFormed) (context : Context S) (seen : σ) :
    ∃ next, run observe [(removeEditorData extra).plugin] info doc context seen = ⟨.ok (), next⟩ ∧
      doc.Stripped next.doc (editorNamespaces ++ extra) := by
  obtain ⟨next, hrun, hbecomes⟩ :=
    run_becomes observe [removeEditorData extra] info hdoc context seen
  refine ⟨next, hrun, .of_becomes hdoc hbecomes (ids_sweepAll_subset _ _ _) ?_⟩
  obtain ⟨-, hshows, -⟩ := hdoc.forest_spec
  have horder : doc.descendants Document.root = [] ++ (idsAll doc.forest ++ []) := by
    rw [hdoc.descendants_root, List.append_nil, List.nil_append]
  refine sweepAll_strips hdoc true doc.forest hshows (fun t ht => hdoc.parent?_of_mem_forest ht)
    horder (.start hdoc) fun x hx => ?_
  have hroot : x ≠ Document.root := ne_of_mem_of_not_mem hx hdoc.root_not_mem_forest
  rw [hbecomes.wellFormed.isAttached_iff_mem, hbecomes.forest_eq, or_iff_right hroot]
  rfl

end Cleanup

end SvgTidy
