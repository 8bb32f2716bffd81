import SvgTidy.Document.Tree
import SvgTidy.Proofs.WellFormed

/-!
# Documents and the trees they hold

`Document.Shows` says that a document holds a tree at the identifiers written in it. In a well-formed
document every known node has its tree, and `Document.forest` finds all of them: the budget of levels
that `Document.tree?` walks with is never used up.

In the other direction `Document.plant` adds the nodes of a tree in document order. A document that
was planted into the empty one holds the trees numbered from 1 on.

Principal results: `WellFormed.forest_spec` — what the forest of a well-formed document is;
`WellFormed.nodup_ids` — no identifier stands twice in it; `forest_ofForest` — planting and looking
gives back the trees, numbered in document order.
-/

namespace SvgTidy

namespace Tree

mutual

/-- The identifiers in a tree, in document order. -/
def ids : Tree → List NodeId
  | .node id _ children => id :: idsAll children

/-- The identifiers in trees, in document order. -/
def idsAll : List Tree → List NodeId
  | [] => []
  | t :: others => ids t ++ idsAll others

end

mutual

/-- The number of levels of a tree. -/
def height : Tree → Nat
  | .node _ _ children => heightAll children + 1

/-- The number of levels of the highest of some trees. -/
def heightAll : List Tree → Nat
  | [] => 0
  | t :: others => max (height t) (heightAll others)

end

mutual

/-- The tree with its nodes numbered in document order. -/
def number (next : Nat) : Tree → Tree
  | .node _ data children => .node ⟨next⟩ data (numberAll (next + 1) children)

/-- The trees with their nodes numbered in document order. -/
def numberAll (next : Nat) : List Tree → List Tree
  | [] => []
  | t :: others => number next t :: numberAll (next + (ids t).length) others

end

theorem id_mem_ids (t : Tree) : t.id ∈ t.ids := by
  cases t
  simp [id, ids]

theorem mem_idsAll {x : NodeId} : ∀ {trees : List Tree}, x ∈ idsAll trees ↔ ∃ t ∈ trees, x ∈ t.ids
  | [] => by simp [idsAll]
  | t :: others => by simp [idsAll, @mem_idsAll x others]

theorem mem_idsAll_flatMap {x : NodeId} {f : Tree → List Tree} {trees : List Tree} :
    x ∈ idsAll (trees.flatMap f) ↔ ∃ t ∈ trees, x ∈ idsAll (f t) := by
  constructor
  · intro hx
    obtain ⟨s, hs, hmem⟩ := mem_idsAll.mp hx
    obtain ⟨t, ht, hst⟩ := List.mem_flatMap.mp hs
    exact ⟨t, ht, mem_idsAll.mpr ⟨s, hst, hmem⟩⟩
  · rintro ⟨t, ht, hx⟩
    obtain ⟨s, hst, hmem⟩ := mem_idsAll.mp hx
    exact mem_idsAll.mpr ⟨s, List.mem_flatMap.mpr ⟨t, ht, hst⟩, hmem⟩

theorem idsAll_append : ∀ (before after : List Tree),
    idsAll (before ++ after) = idsAll before ++ idsAll after
  | [], _ => rfl
  | t :: others, after => by simp [idsAll, idsAll_append others after]

theorem height_le_heightAll {t : Tree} :
    ∀ {trees : List Tree}, t ∈ trees → t.height ≤ heightAll trees
  | _ :: _, h => by
    rw [heightAll]
    rcases List.mem_cons.mp h with rfl | h
    · exact Nat.le_max_left _ _
    · exact Nat.le_trans (height_le_heightAll h) (Nat.le_max_right _ _)

theorem heightAll_le {bound : Nat} :
    ∀ {trees : List Tree}, (∀ t ∈ trees, t.height ≤ bound) → heightAll trees ≤ bound
  | [], _ => Nat.zero_le _
  | t :: others, h => by
    rw [heightAll]
    exact Nat.max_le.mpr
      ⟨h t List.mem_cons_self, heightAll_le fun x hx => h x (List.mem_cons_of_mem _ hx)⟩

mutual

theorem height_le_length_ids : ∀ t : Tree, t.height ≤ t.ids.length
  | .node _ _ children => by
    rw [height, ids, List.length_cons]
    exact Nat.succ_le_succ (heightAll_le_length_idsAll children)

theorem heightAll_le_length_idsAll : ∀ trees : List Tree,
    heightAll trees ≤ (idsAll trees).length
  | [] => Nat.le_refl _
  | t :: others => by
    have ht := height_le_length_ids t
    have hothers := heightAll_le_length_idsAll others
    rw [heightAll, idsAll, List.length_append]
    omega

end

/-! ## Numbering -/

mutual

@[simp] theorem length_ids_number (next : Nat) : ∀ t : Tree, (number next t).ids.length = t.ids.length
  | .node _ _ children => by simp [number, ids, length_idsAll_numberAll (next + 1) children]

@[simp] theorem length_idsAll_numberAll (next : Nat) : ∀ trees : List Tree,
    (idsAll (numberAll next trees)).length = (idsAll trees).length
  | [] => rfl
  | t :: others => by
    simp [numberAll, idsAll, length_ids_number next t, length_idsAll_numberAll _ others]

end

mutual

@[simp] theorem height_number (next : Nat) : ∀ t : Tree, (number next t).height = t.height
  | .node _ _ children => by simp [number, height, heightAll_numberAll (next + 1) children]

@[simp] theorem heightAll_numberAll (next : Nat) : ∀ trees : List Tree,
    heightAll (numberAll next trees) = heightAll trees
  | [] => rfl
  | t :: others => by simp [numberAll, heightAll, height_number next t, heightAll_numberAll _ others]

end

@[simp] theorem data_number (next : Nat) (t : Tree) : (number next t).data = t.data := by
  cases t
  rfl

@[simp] theorem map_data_numberAll (next : Nat) : ∀ trees : List Tree,
    (numberAll next trees).map data = trees.map data
  | [] => rfl
  | t :: others => by simp [numberAll, map_data_numberAll _ others]

mutual

theorem index_of_mem_ids_number {x : NodeId} (next : Nat) :
    ∀ t : Tree, x ∈ (number next t).ids → next ≤ x.index ∧ x.index < next + t.ids.length
  | .node _ _ children, h => by
    simp only [number, ids, List.mem_cons, List.length_cons] at h ⊢
    rcases h with rfl | h
    · simp
    · have := index_of_mem_idsAll_numberAll (next + 1) children h
      omega

theorem index_of_mem_idsAll_numberAll {x : NodeId} (next : Nat) :
    ∀ trees : List Tree, x ∈ idsAll (numberAll next trees) →
      next ≤ x.index ∧ x.index < next + (idsAll trees).length
  | [], h => by simp [numberAll, idsAll] at h
  | t :: others, h => by
    simp only [numberAll, idsAll, List.mem_append, List.length_append] at h ⊢
    rcases h with h | h
    · have := index_of_mem_ids_number next t h
      omega
    · have := index_of_mem_idsAll_numberAll (next + t.ids.length) others h
      omega

end

end Tree

namespace Document

variable {doc later : Document}

/-! ## What a document holds -/

/-- The document holds a tree: at each of its identifiers the payload and the children it says. -/
inductive Shows (doc : Document) : Tree → Prop where
  | node {id : NodeId} {data : NodeData} {children : List Tree}
      (hdata : doc.data? id = some data) (hchildren : doc.children id = children.map Tree.id)
      (hbelow : ∀ t ∈ children, Shows doc t) : Shows doc (.node id data children)

theorem Shows.data? {t : Tree} (h : doc.Shows t) : doc.data? t.id = some t.data := by
  cases h with
  | node hdata _ _ => exact hdata

theorem Shows.children {t : Tree} (h : doc.Shows t) :
    doc.children t.id = t.children.map Tree.id := by
  cases h with
  | node _ hchildren _ => exact hchildren

theorem Shows.subtrees {t : Tree} (h : doc.Shows t) : ∀ s ∈ t.children, doc.Shows s := by
  cases h with
  | node _ _ hbelow => exact hbelow

/-- A tree stays where neither payloads nor children change. -/
theorem Shows.frame {t : Tree} (h : doc.Shows t)
    (hsame : ∀ id ∈ t.ids, later.data? id = doc.data? id ∧ later.children id = doc.children id) :
    later.Shows t := by
  induction h with
  | node hdata hchildren _ ih =>
    obtain ⟨hd, hc⟩ := hsame _ (Tree.id_mem_ids _)
    refine .node (hd.trans hdata) (hc.trans hchildren) fun t ht => ih t ht fun id hid => ?_
    exact hsame id (List.mem_cons_of_mem _ (Tree.mem_idsAll.mpr ⟨t, ht, hid⟩))

theorem filterMap_map_id {look : NodeId → Option Tree} :
    ∀ {trees : List Tree}, (∀ t ∈ trees, look t.id = some t) →
      (trees.map Tree.id).filterMap look = trees
  | [], _ => rfl
  | t :: others, h => by
    rw [List.map_cons, List.filterMap_cons_some (h t List.mem_cons_self),
      filterMap_map_id fun x hx => h x (List.mem_cons_of_mem _ hx)]

theorem Shows.treeTo_eq {t : Tree} (h : doc.Shows t) {depth : Nat} (hdepth : t.height ≤ depth) :
    doc.treeTo depth t.id = some t := by
  induction h generalizing depth with
  | node hdata hchildren _ ih =>
    rename_i id data children _
    rw [Tree.height] at hdepth
    obtain ⟨depth, rfl⟩ : ∃ d, depth = d + 1 := ⟨depth - 1, by omega⟩
    show doc.treeTo (depth + 1) id = _
    have hbelow : (children.map Tree.id).filterMap (doc.treeTo depth) = children :=
      filterMap_map_id fun t ht =>
        ih t ht (Nat.le_trans (Tree.height_le_heightAll ht) (Nat.le_of_succ_le_succ hdepth))
    rw [treeTo, hdata, hchildren, hbelow]
    rfl

theorem forest_eq_of_shows {trees : List Tree} (hroot : doc.children root = trees.map Tree.id)
    (hshows : ∀ t ∈ trees, doc.Shows t) (hheight : Tree.heightAll trees ≤ doc.nodes.size) :
    doc.forest = trees := by
  rw [forest, hroot]
  exact filterMap_map_id fun t ht =>
    (hshows t ht).treeTo_eq (Nat.le_trans (Tree.height_le_heightAll ht) hheight)

theorem Shows.unique {s t : Tree} (hs : doc.Shows s) (ht : doc.Shows t) (hid : s.id = t.id) :
    s = t := by
  have hsome := hs.treeTo_eq (Nat.le_max_left s.height t.height)
  rw [hid, ht.treeTo_eq (Nat.le_max_right s.height t.height), Option.some.injEq] at hsome
  exact hsome.symm

theorem eq_of_shows : ∀ {trees trees' : List Tree}, (∀ t ∈ trees, doc.Shows t) →
    (∀ t ∈ trees', doc.Shows t) → trees.map Tree.id = trees'.map Tree.id → trees = trees'
  | [], [], _, _, _ => rfl
  | [], _ :: _, _, _, hids => by cases hids
  | _ :: _, [], _, _, hids => by cases hids
  | t :: others, t' :: others', h, h', hids => by
    rw [List.map_cons, List.map_cons, List.cons.injEq] at hids
    rw [(h t List.mem_cons_self).unique (h' t' List.mem_cons_self) hids.1,
      eq_of_shows (fun x hx => h x (List.mem_cons_of_mem _ hx))
        (fun x hx => h' x (List.mem_cons_of_mem _ hx)) hids.2]

namespace WellFormed

/-- Lists of children can be followed down from any node; no way down is longer than what the way up
leaves of the table. -/
theorem exists_shows (h : doc.WellFormed) :
    ∀ (budget : Nat) (id : NodeId), doc.knows id = true →
      doc.nodes.size < budget + (doc.chain id).length →
      ∃ t : Tree, t.id = id ∧ doc.Shows t ∧ t.height ≤ budget
  | 0, id, hid, hbudget => by
    have := h.length_climb_le doc.nodes.size hid
    rw [chain] at hbudget
    omega
  | budget + 1, id, hid, hbudget => by
    obtain ⟨data, hdata⟩ := knows_iff_data?.mp hid
    have hbelow : ∀ child ∈ doc.children id,
        ∃ t : Tree, t.id = child ∧ doc.Shows t ∧ t.height ≤ budget := by
      intro child hchild
      have hknown : doc.knows child = true := (h.child_known id child hchild).1
      refine h.exists_shows budget child hknown ?_
      rw [h.chain_eq hknown, (h.linked id child).mp hchild, List.length_cons]
      show doc.nodes.size < budget + ((doc.chain id).length + 1)
      omega
    obtain ⟨children, hids, hall⟩ : ∃ children : List Tree, children.map Tree.id = doc.children id ∧
        ∀ t ∈ children, doc.Shows t ∧ t.height ≤ budget := by
      generalize doc.children id = list at hbelow
      induction list with
      | nil => exact ⟨[], rfl, fun _ ht => by simp at ht⟩
      | cons child rest ih =>
        obtain ⟨t, rfl, ht⟩ := hbelow child List.mem_cons_self
        obtain ⟨others, hothers, hall⟩ := ih fun c hc => hbelow c (List.mem_cons_of_mem _ hc)
        refine ⟨t :: others, by rw [List.map_cons, hothers], fun x hx => ?_⟩
        rcases List.mem_cons.mp hx with rfl | hx
        · exact ht
        · exact hall x hx
    refine ⟨.node id data children, rfl, .node hdata hids.symm fun t ht => (hall t ht).1, ?_⟩
    rw [Tree.height]
    exact Nat.succ_le_succ (Tree.heightAll_le fun t ht => (hall t ht).2)

/-- The forest of a well-formed document is complete: it names all children of the root, and the
document holds each of its trees. -/
theorem forest_spec (h : doc.WellFormed) :
    doc.children root = doc.forest.map Tree.id ∧ (∀ t ∈ doc.forest, doc.Shows t) ∧
      Tree.heightAll doc.forest ≤ doc.nodes.size := by
  have hchain : (doc.chain root).length = 1 := by
    rw [h.chain_eq h.knows_root, h.root_free]
    rfl
  obtain ⟨⟨id, data, trees⟩, rfl, hshows, hheight⟩ :=
    h.exists_shows doc.nodes.size root h.knows_root (by omega)
  cases hshows with
  | node _ hchildren hbelow =>
    rw [Tree.height] at hheight
    have hheight := Nat.le_of_succ_le hheight
    rw [forest_eq_of_shows hchildren hbelow hheight]
    exact ⟨hchildren, hbelow, hheight⟩

/-- Trees that stand for the children of the root are the forest. -/
theorem forest_unique (h : doc.WellFormed) {trees : List Tree}
    (hroot : doc.children root = trees.map Tree.id) (hshows : ∀ t ∈ trees, doc.Shows t) :
    doc.forest = trees := by
  obtain ⟨hids, hall, -⟩ := h.forest_spec
  exact eq_of_shows hall hshows (hids.symm.trans hroot)

/-- Nothing stands below a node that is no element. -/
theorem eq_nil_of_shows (h : doc.WellFormed) {id parent : NodeId} {data : NodeData}
    {children : List Tree} (hshows : doc.Shows (.node id data children))
    (hlink : doc.parent? id = some parent) (hkind : data.kind ≠ .element) : children = [] := by
  by_contra hne
  have hbelow : doc.children id ≠ [] := by
    rw [show doc.children id = children.map Tree.id from hshows.children]
    simpa using hne
  rcases h.container id hbelow with hroot | helement
  · exact h.ne_root_of_parent? hlink ((h.root_iff id).mp hroot)
  · rw [kind?, show doc.data? id = some data from hshows.data?] at helement
    exact hkind (Option.some.inj helement)

theorem eq_or_above_of_mem_ids (h : doc.WellFormed) {t : Tree} (ht : doc.Shows t) {x : NodeId}
    (hx : x ∈ t.ids) : x = t.id ∨ doc.Above t.id x := by
  induction ht with
  | node _ hchildren _ ih =>
    rcases List.mem_cons.mp hx with rfl | hx
    · exact .inl rfl
    · obtain ⟨t, hmem, hx⟩ := Tree.mem_idsAll.mp hx
      have hlink : doc.parent? t.id = some _ :=
        (h.linked _ _).mp (hchildren ▸ List.mem_map_of_mem hmem)
      rcases ih t hmem hx with rfl | hup
      · exact .inr (.of_parent? hlink)
      · exact .inr (Above.trans (.of_parent? hlink) hup)

/-- Of two nodes above a third one, or equal to it, one is above the other. -/
theorem comparable {a b x : NodeId} (ha : x = a ∨ doc.Above a x)
    (hb : x = b ∨ doc.Above b x) : a = b ∨ doc.Above a b ∨ doc.Above b a := by
  have hunique : Relator.RightUnique fun child parent => doc.parent? child = some parent :=
    fun _ _ _ h₁ h₂ => Option.some.inj (h₁.symm.trans h₂)
  have htotal := Relation.ReflTransGen.total_of_right_unique hunique
    (Relation.reflTransGen_iff_eq_or_transGen.mpr (ha.imp_left Eq.symm))
    (Relation.reflTransGen_iff_eq_or_transGen.mpr (hb.imp_left Eq.symm))
  rw [Relation.reflTransGen_iff_eq_or_transGen, Relation.reflTransGen_iff_eq_or_transGen] at htotal
  rcases htotal with (rfl | hab) | (rfl | hba)
  · exact .inl rfl
  · exact .inr (.inr hab)
  · exact .inl rfl
  · exact .inr (.inl hba)

/-- The trees of two children of one node have no identifier in common. -/
theorem eq_of_mem_ids_of_siblings (h : doc.WellFormed) {parent : NodeId} {s t : Tree}
    (hs : doc.Shows s) (ht : doc.Shows t) (hsp : doc.parent? s.id = some parent)
    (htp : doc.parent? t.id = some parent) {x : NodeId} (hxs : x ∈ s.ids) (hxt : x ∈ t.ids) :
    s.id = t.id := by
  have habove {a b : NodeId} (ha : doc.parent? a = some parent) (hb : doc.parent? b = some parent) :
      ¬ doc.Above a b := by
    intro hab
    obtain ⟨p, hp, hup⟩ := Relation.TransGen.head'_iff.mp hab
    cases hb.symm.trans hp
    rcases Relation.reflTransGen_iff_eq_or_transGen.mp hup with rfl | hup
    · exact h.acyclic a (.of_parent? ha)
    · exact h.acyclic a (Above.trans hup (.of_parent? ha))
  rcases comparable (h.eq_or_above_of_mem_ids hs hxs) (h.eq_or_above_of_mem_ids ht hxt) with
    heq | hab | hba
  · exact heq
  · exact absurd hab (habove hsp htp)
  · exact absurd hba (habove htp hsp)

theorem nodup_idsAll_of_siblings (h : doc.WellFormed) (parent : NodeId) :
    ∀ {trees : List Tree}, (∀ t ∈ trees, doc.Shows t ∧ t.ids.Nodup ∧ doc.parent? t.id = some parent) →
      (trees.map Tree.id).Nodup → (Tree.idsAll trees).Nodup
  | [], _, _ => List.nodup_nil
  | t :: others, hall, hnodup => by
    obtain ⟨hshows, hids, hparent⟩ := hall t List.mem_cons_self
    rw [List.map_cons, List.nodup_cons] at hnodup
    have hothers := h.nodup_idsAll_of_siblings parent
      (fun x hx => hall x (List.mem_cons_of_mem _ hx)) hnodup.2
    refine List.nodup_append.mpr ⟨hids, hothers, ?_⟩
    rintro x hx _ hy rfl
    obtain ⟨s, hs, hxs⟩ := Tree.mem_idsAll.mp hy
    obtain ⟨hsShows, -, hsParent⟩ := hall s (List.mem_cons_of_mem _ hs)
    refine hnodup.1 ?_
    rw [h.eq_of_mem_ids_of_siblings hshows hsShows hparent hsParent hx hxs]
    exact List.mem_map_of_mem hs

/-- No identifier stands twice in a tree of a well-formed document. -/
theorem nodup_ids (h : doc.WellFormed) {t : Tree} (ht : doc.Shows t) : t.ids.Nodup := by
  induction ht with
  | node hdata hchildren hbelow ih =>
    rename_i id data children
    have hlink : ∀ t ∈ children, doc.parent? t.id = some id := fun t ht =>
      (h.linked _ _).mp (hchildren ▸ List.mem_map_of_mem ht)
    refine List.nodup_cons.mpr ⟨fun hm => ?_, ?_⟩
    · obtain ⟨t, ht, hx⟩ := Tree.mem_idsAll.mp hm
      rcases h.eq_or_above_of_mem_ids (hbelow t ht) hx with heq | hup
      · exact h.acyclic id (.of_parent? (heq ▸ hlink t ht))
      · exact h.acyclic id ((Above.of_parent? (hlink t ht)).trans hup)
    · refine h.nodup_idsAll_of_siblings id
        (fun t ht => ⟨hbelow t ht, ih t ht, hlink t ht⟩) ?_
      rw [← hchildren]
      exact h.nodup id

end WellFormed

/-! ## Planting -/

mutual

/-- Add a tree below a node, its nodes in document order. -/
def plant (doc : Document) (parent : NodeId) : Tree → Document
  | .node _ data children => plantAll (doc.grow parent data) doc.fresh children

/-- Add trees below a node, one after the other. -/
def plantAll (doc : Document) (parent : NodeId) : List Tree → Document
  | [] => doc
  | t :: others => plantAll (plant doc parent t) parent others

end

/-- The document that holds these trees at its top level, its nodes in document order. -/
def ofForest (trees : List Tree) : Document :=
  empty.plantAll root trees

theorem plantAll_append (parent : NodeId) (after : List Tree) : ∀ (doc : Document)
    (before : List Tree), doc.plantAll parent (before ++ after) =
      (doc.plantAll parent before).plantAll parent after
  | _, [] => rfl
  | doc, t :: others => by
    rw [List.cons_append, plantAll, plantAll, plantAll_append parent after]

/-- Planting a node without children is growing. -/
theorem plantAll_leaf (parent id : NodeId) (trees : List Tree) (data : NodeData) :
    doc.plantAll parent (trees ++ [.node id data []]) =
      (doc.plantAll parent trees).grow parent data := by
  rw [plantAll_append]
  rfl

/-- New nodes are added and one list of children goes on; nothing else changes. -/
structure Grows (doc later : Document) (parent : NodeId) (new : List NodeId) : Prop where
  data? : ∀ id, doc.knows id = true → later.data? id = doc.data? id
  children : ∀ id, doc.knows id = true →
    later.children id = if id = parent then doc.children id ++ new else doc.children id

namespace Grows

variable {parent : NodeId} {new : List NodeId}

theorem refl (doc : Document) (parent : NodeId) : doc.Grows doc parent [] :=
  ⟨fun _ _ => rfl, fun id _ => by simp⟩

theorem knows (h : doc.Grows later parent new) {id : NodeId} (hid : doc.knows id = true) :
    later.knows id = true := by
  rw [knows_iff_data?] at hid ⊢
  rwa [h.data? id (knows_iff_data?.mpr hid)]

theorem trans {last : Document} {more : List NodeId} (h₁ : doc.Grows later parent new)
    (h₂ : later.Grows last parent more) : doc.Grows last parent (new ++ more) := by
  refine ⟨fun id hid => ?_, fun id hid => ?_⟩
  · rw [h₂.data? id (h₁.knows hid), h₁.data? id hid]
  · rw [h₂.children id (h₁.knows hid), h₁.children id hid]
    split <;> simp

/-- Growth below a new node changes nothing for the nodes from before. -/
theorem trans_fresh {last : Document} {below : List NodeId} (h₁ : doc.Grows later parent new)
    (h₂ : later.Grows last doc.fresh below) : doc.Grows last parent new := by
  refine ⟨fun id hid => ?_, fun id hid => ?_⟩
  · rw [h₂.data? id (h₁.knows hid), h₁.data? id hid]
  · rw [h₂.children id (h₁.knows hid), if_neg (ne_fresh_of_knows hid), h₁.children id hid]

theorem grow (hparent : doc.knows parent = true) (data : NodeData) :
    doc.Grows (doc.grow parent data) parent [doc.fresh] :=
  ⟨fun id hid => by rw [data?_grow, if_neg (ne_fresh_of_knows hid)],
    fun id _ => children_grow hparent data id⟩

/-- A tree of known nodes stays, unless it holds the node that grows. -/
theorem shows {t : Tree} (h : doc.Grows later parent new) (ht : doc.Shows t)
    (hknown : ∀ id ∈ t.ids, doc.knows id = true) (hparent : parent ∉ t.ids) : later.Shows t := by
  refine ht.frame fun id hid => ⟨h.data? id (hknown id hid), ?_⟩
  rw [h.children id (hknown id hid), if_neg]
  rintro rfl
  exact hparent hid

end Grows

mutual

theorem plant_spec (doc : Document) {parent : NodeId} (hparent : doc.knows parent = true) :
    ∀ t : Tree, (doc.plant parent t).nodes.size = doc.nodes.size + t.ids.length ∧
      doc.Grows (doc.plant parent t) parent [doc.fresh] ∧
      (doc.plant parent t).Shows (t.number doc.nodes.size)
  | .node _ data children => by
    have hgrow := Grows.grow hparent data
    have hfresh : (doc.grow parent data).knows doc.fresh = true := by
      simp [knows_iff, fresh]
    obtain ⟨hsize, hbelow, hshows⟩ := plantAll_spec (doc.grow parent data) hfresh children
    rw [size_grow] at hsize hbelow hshows
    refine ⟨?_, hgrow.trans_fresh hbelow, .node ?_ ?_ hshows⟩
    · rw [plant, hsize, Tree.ids, List.length_cons]
      omega
    · show ((doc.grow parent data).plantAll doc.fresh children).data? doc.fresh = _
      rw [hbelow.data? _ hfresh, data?_grow, if_pos rfl]
    · show ((doc.grow parent data).plantAll doc.fresh children).children doc.fresh = _
      rw [hbelow.children _ hfresh, if_pos rfl, children_grow hparent,
        if_neg (ne_fresh_of_knows hparent).symm, children_fresh, List.nil_append]

theorem plantAll_spec (doc : Document) {parent : NodeId} (hparent : doc.knows parent = true) :
    ∀ trees : List Tree,
      (doc.plantAll parent trees).nodes.size = doc.nodes.size + (Tree.idsAll trees).length ∧
      doc.Grows (doc.plantAll parent trees) parent
        ((Tree.numberAll doc.nodes.size trees).map Tree.id) ∧
      ∀ t ∈ Tree.numberAll doc.nodes.size trees, (doc.plantAll parent trees).Shows t
  | [] => ⟨rfl, .refl doc parent, fun _ h => by simp [Tree.numberAll] at h⟩
  | t :: others => by
    obtain ⟨hsize, hfirst, hshows⟩ := plant_spec doc hparent t
    obtain ⟨hsizeAll, hrest, hshowsAll⟩ :=
      plantAll_spec (doc.plant parent t) (hfirst.knows hparent) others
    rw [hsize] at hsizeAll hrest hshowsAll
    refine ⟨?_, ?_, fun x hx => ?_⟩
    · rw [plantAll, hsizeAll, Tree.idsAll, List.length_append]
      omega
    · rw [plantAll, Tree.numberAll, List.map_cons]
      cases t
      exact hfirst.trans hrest
    · rw [plantAll]
      rcases List.mem_cons.mp hx with rfl | hx
      · -- the new numbers lie above the parent and within the table after the first tree
        refine hrest.shows hshows (fun id hid => ?_) fun hmem => ?_
        · have := Tree.index_of_mem_ids_number _ t hid
          rw [knows_iff, hsize]
          exact this.2
        · have := Tree.index_of_mem_ids_number _ t hmem
          exact absurd (knows_iff.mp hparent) (Nat.not_lt.mpr this.1)
      · exact hshowsAll x hx

end

/-- **Planting trees and looking at them gives them back**, numbered in document order. -/
theorem forest_ofForest (trees : List Tree) : (ofForest trees).forest = Tree.numberAll 1 trees := by
  obtain ⟨hsize, hgrows, hshows⟩ := plantAll_spec empty WellFormed.empty.knows_root trees
  refine forest_eq_of_shows ?_ hshows ?_
  · rw [ofForest, hgrows.children root WellFormed.empty.knows_root, if_pos rfl]
    rfl
  · rw [Tree.heightAll_numberAll, ofForest, hsize]
    exact Nat.le_trans (Tree.heightAll_le_length_idsAll trees) (Nat.le_add_left _ _)

end Document

end SvgTidy
