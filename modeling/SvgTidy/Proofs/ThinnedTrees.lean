import SvgTidy.Proofs.DocumentOrder

/-!
# Trees of which parts are gone

`Tree.thin` looks at the nodes of a tree from the top down. Where nothing remains of a node it goes
with all below it; any other node stays with the payload that remains. `Document.Thinned` says that a
document holds what is left of another one, as a fact about forests and as facts about single nodes.

Principal results: `Thinned.of_forest` — what holds of the nodes where a forest is thinned;
`Thinned.attached_iff` — a node is left exactly if something remains of all nodes from there up.
-/

namespace SvgTidy

namespace Tree

mutual

/-- What is left of a tree when `remains` says what remains of each node. -/
def thin (remains : NodeId → NodeData → Option NodeData) : Tree → List Tree
  | .node id data children =>
    match remains id data with
    | none => []
    | some data' => [.node id data' (thinAll remains children)]

/-- What is left of some trees. -/
def thinAll (remains : NodeId → NodeData → Option NodeData) : List Tree → List Tree
  | [] => []
  | t :: others => thin remains t ++ thinAll remains others

end

/-- Only elements have anything below them. -/
inductive Proper : Tree → Prop where
  | node {id : NodeId} {data : NodeData} {children : List Tree}
      (hleaf : data.kind ≠ .element → children = []) (hbelow : ∀ t ∈ children, Proper t) :
      Proper (.node id data children)

variable {remains : NodeId → NodeData → Option NodeData}

theorem thin_of_none {id : NodeId} {data : NodeData} (h : remains id data = none)
    (children : List Tree) : thin remains (.node id data children) = [] := by
  rw [thin, h]

theorem thin_of_some {id : NodeId} {data data' : NodeData} (h : remains id data = some data')
    (children : List Tree) :
    thin remains (.node id data children) = [.node id data' (thinAll remains children)] := by
  rw [thin, h]

theorem thinAll_eq_flatMap (trees : List Tree) :
    thinAll remains trees = trees.flatMap (thin remains) := by
  induction trees with
  | nil => rfl
  | cons t others ih => rw [thinAll, List.flatMap_cons, ih]

mutual

theorem ids_thin_sublist : ∀ t : Tree, (idsAll (thin remains t)).Sublist t.ids
  | .node id data children => by
    unfold thin
    split
    · exact List.nil_sublist _
    · rw [idsAll, idsAll, List.append_nil]
      exact (idsAll_thinAll_sublist children).cons_cons id

theorem idsAll_thinAll_sublist : ∀ trees : List Tree,
    (idsAll (thinAll remains trees)).Sublist (idsAll trees)
  | [] => .slnil
  | t :: others => by
    rw [thinAll, idsAll_append, idsAll]
    exact (ids_thin_sublist t).append (idsAll_thinAll_sublist others)

end

end Tree

namespace Document

open SvgTidy.Tree (thin thinAll thinAll_eq_flatMap ids idsAll mem_idsAll_flatMap)

variable {doc next : Document} {remains : NodeId → NodeData → Option NodeData} {id : NodeId}

theorem WellFormed.proper_of_shows (h : doc.WellFormed) {t : Tree} (ht : doc.Shows t)
    {parent : NodeId} (hlink : doc.parent? t.id = some parent) : t.Proper := by
  induction ht generalizing parent with
  | @node id data children hdata hchildren hbelow ih =>
    exact .node (h.eq_nil_of_shows (.node hdata hchildren hbelow) hlink) fun t ht =>
      ih t ht (h.parent?_of_mem_trees hchildren ht)

theorem WellFormed.proper_forest (h : doc.WellFormed) : ∀ t ∈ doc.forest, t.Proper :=
  fun t ht => h.proper_of_shows (h.forest_spec.2.1 t ht) (h.parent?_of_mem_forest ht)

/-- What remains of a node for itself, whatever becomes of the nodes above it. -/
def remaining? (doc : Document) (remains : NodeId → NodeData → Option NodeData) (id : NodeId) :
    Option NodeData :=
  (doc.data? id).bind (remains id)

/-- The tops of what is left are those of which something remains. -/
theorem map_id_thinAll : ∀ {trees : List Tree}, (∀ t ∈ trees, doc.Shows t) →
    (thinAll remains trees).map Tree.id =
      (trees.map Tree.id).filter fun id => (doc.remaining? remains id).isSome
  | [], _ => rfl
  | .node id data children :: others, h => by
    have hdata : doc.data? id = some data := (h _ List.mem_cons_self).data?
    have hremaining : doc.remaining? remains id = remains id data := by
      rw [remaining?, hdata, Option.bind_some]
    have hrest := map_id_thinAll fun t ht => h t (List.mem_cons_of_mem _ ht)
    rw [thinAll, List.map_append, hrest, List.map_cons, List.filter_cons,
      show (Tree.node id data children).id = id from rfl, hremaining]
    unfold thin
    cases remains id data <;> rfl

/-- What a thinned tree says about a node that is left. -/
theorem Shows.of_thin {t : Tree} (ht : doc.Shows t) (hnext : ∀ s ∈ thin remains t, next.Shows s)
    (hid : id ∈ idsAll (thin remains t)) :
    next.data? id = doc.remaining? remains id ∧
      next.children id =
        (doc.children id).filter fun child => (doc.remaining? remains child).isSome := by
  induction ht with
  | @node top data children hdata hchildren hbelow ih =>
    unfold thin at hnext hid
    split at hid
    · cases hid
    · rename_i data' hremains
      rw [hremains] at hnext
      rw [idsAll, idsAll, List.append_nil, ids] at hid
      cases hnext _ List.mem_cons_self with
      | node hdata' hchildren' hbelow' =>
        rcases List.mem_cons.mp hid with rfl | hid
        · refine ⟨?_, ?_⟩
          · rw [hdata', remaining?, hdata, Option.bind_some, hremains]
          · rw [hchildren', hchildren, map_id_thinAll hbelow]
        · rw [thinAll_eq_flatMap] at hid hbelow'
          obtain ⟨u, hu, hmem⟩ := mem_idsAll_flatMap.mp hid
          exact ih u hu (fun s hs => hbelow' s (List.mem_flatMap.mpr ⟨u, hu, hs⟩)) hmem

/-- A document holds what is left of another one. -/
structure Thinned (doc next : Document) (remains : NodeId → NodeData → Option NodeData) : Prop where
  wellFormed : next.WellFormed
  /-- As trees, with the nodes in their order. -/
  forest : next.forest = thinAll remains doc.forest
  data? : ∀ id, next.isAttached id = true → id ≠ root → next.data? id = doc.remaining? remains id
  parent? : ∀ id, next.isAttached id = true → next.parent? id = doc.parent? id
  children : ∀ id, next.isAttached id = true → next.children id =
    (doc.children id).filter fun child => (doc.remaining? remains child).isSome
  order : (next.descendants root).Sublist (doc.descendants root)
  /-- A node is left exactly if something remains of it and of all nodes above it. -/
  attached_iff : ∀ id, next.isAttached id = true ↔ doc.isAttached id = true ∧
    ∀ up ∈ doc.chain id, up ≠ root → (doc.remaining? remains up).isSome = true

section Forest

variable (hdoc : doc.WellFormed) (hnext : next.WellFormed)
  (hforest : next.forest = thinAll remains doc.forest)
include hdoc hnext hforest

theorem order_of_forest : (next.descendants root).Sublist (doc.descendants root) := by
  rw [hdoc.descendants_root, hnext.descendants_root, hforest]
  exact Tree.idsAll_thinAll_sublist doc.forest

theorem node_of_forest (hid : next.isAttached id = true) (hne : id ≠ root) :
    next.data? id = doc.remaining? remains id ∧ next.children id =
      (doc.children id).filter fun child => (doc.remaining? remains child).isSome := by
  have hshows := hnext.forest_spec.2.1
  have hid := (hnext.isAttached_iff_mem.mp hid).resolve_left hne
  rw [hforest, thinAll_eq_flatMap] at hid hshows
  obtain ⟨t, ht, hmem⟩ := mem_idsAll_flatMap.mp hid
  exact (hdoc.forest_spec.2.1 t ht).of_thin
    (fun s hs => hshows s (List.mem_flatMap.mpr ⟨t, ht, hs⟩)) hmem

theorem children_of_forest (hid : next.isAttached id = true) : next.children id =
    (doc.children id).filter fun child => (doc.remaining? remains child).isSome := by
  by_cases hroot : id = root
  · obtain ⟨htops, hshows, -⟩ := hdoc.forest_spec
    rw [hroot, hnext.forest_spec.1, htops, hforest, map_id_thinAll hshows]
  · exact (node_of_forest hdoc hnext hforest hid hroot).2

theorem parent?_of_forest (hid : next.isAttached id = true) : next.parent? id = doc.parent? id := by
  rcases hnext.attached_cases hid with rfl | ⟨parent, hlink, hparent⟩
  · rw [hnext.root_free, hdoc.root_free]
  · have hchild := (hnext.linked parent id).mpr hlink
    rw [children_of_forest hdoc hnext hforest hparent] at hchild
    rw [hlink, (hdoc.linked parent id).mp (List.mem_filter.mp hchild).1]

/-- Something remains of all nodes from an attached one up. -/
theorem remains_of_forest (hid : next.isAttached id = true) : doc.isAttached id = true ∧
    ∀ up ∈ doc.chain id, up ≠ root → (doc.remaining? remains up).isSome = true := by
  refine hnext.attached_induct (motive := fun id => doc.isAttached id = true ∧ ∀ up ∈ doc.chain id,
      up ≠ root → (doc.remaining? remains up).isSome = true)
    ⟨hdoc.isAttached_root, fun up hup hne => ?_⟩
    (fun id parent hlink hparent ih => ?_) hid
  · rw [hdoc.chain_eq hdoc.knows_root, hdoc.root_free, List.mem_singleton] at hup
    exact absurd hup hne
  · have hattached := hnext.isAttached_of_parent? hlink hparent
    have hlink' := (parent?_of_forest hdoc hnext hforest hattached).symm.trans hlink
    refine ⟨hdoc.isAttached_of_parent? hlink' ih.1, fun up hup hne => ?_⟩
    rw [hdoc.chain_eq (knows_of_parent? hlink'), hlink'] at hup
    rcases List.mem_cons.mp hup with rfl | hup
    · obtain ⟨data, hdata⟩ := knows_iff_data?.mp (knows_of_parent? hlink)
      rw [← (node_of_forest hdoc hnext hforest hattached hne).1, hdata]
      rfl
    · exact ih.2 up hup hne

/-- A node is attached if something remains of all nodes from there up. -/
theorem attached_of_remains (hid : doc.isAttached id = true)
    (hall : ∀ up ∈ doc.chain id, up ≠ root → (doc.remaining? remains up).isSome = true) :
    next.isAttached id = true := by
  revert hall
  refine hdoc.attached_induct (motive := fun id => (∀ up ∈ doc.chain id, up ≠ root →
      (doc.remaining? remains up).isSome = true) → next.isAttached id = true)
    (fun _ => hnext.isAttached_root) (fun id parent hlink _ ih hall => ?_) hid
  rw [hdoc.chain_eq (knows_of_parent? hlink), hlink] at hall
  have hparent := ih fun up hup => hall up (List.mem_cons_of_mem _ hup)
  have hmem : id ∈ next.children parent := by
    rw [children_of_forest hdoc hnext hforest hparent, List.mem_filter]
    exact ⟨(hdoc.linked parent id).mpr hlink,
      hall id List.mem_cons_self (hdoc.ne_root_of_parent? hlink)⟩
  exact hnext.isAttached_of_parent? ((hnext.linked parent id).mp hmem) hparent

end Forest

/-- **What holds of the nodes where a forest is thinned.** -/
theorem Thinned.of_forest (hdoc : doc.WellFormed) (hnext : next.WellFormed)
    (hforest : next.forest = thinAll remains doc.forest) : doc.Thinned next remains where
  wellFormed := hnext
  forest := hforest
  data? _ hid hne := (node_of_forest hdoc hnext hforest hid hne).1
  parent? _ := parent?_of_forest hdoc hnext hforest
  children _ := children_of_forest hdoc hnext hforest
  order := order_of_forest hdoc hnext hforest
  attached_iff _ := ⟨remains_of_forest hdoc hnext hforest,
    fun ⟨hid, hall⟩ => attached_of_remains hdoc hnext hforest hid hall⟩

end Document

end SvgTidy
