import SvgTidy.Proofs.Forest

/-!
# Document order

The nodes of the forest in document order are what `Document.descendants` lists below the root, and
they are the attached nodes other than the root. `Document.Precedes` compares two of them.

Principal results: `WellFormed.descendants_root` — the budgeted walk downwards is the whole walk;
`WellFormed.mem_descendants_root` and `WellFormed.mem_elements` — it meets the attached nodes.
-/

namespace SvgTidy.Document

open SvgTidy.Tree (ids idsAll mem_idsAll idsAll_append)

variable {doc : Document} {id parent : NodeId}

/-- One attached node comes before another in document order. -/
def Precedes (doc : Document) (first id : NodeId) : Prop :=
  [first, id].Sublist (doc.descendants root)

instance (doc : Document) (first id : NodeId) : Decidable (doc.Precedes first id) :=
  inferInstanceAs (Decidable (List.Sublist _ _))

theorem precedes_of_split {front back : List NodeId} {first : NodeId}
    (horder : doc.descendants root = front ++ id :: back) (hfirst : first ∈ front) :
    doc.Precedes first id := by
  have hpair : ([first] ++ [id]).Sublist (front ++ id :: back) :=
    (List.singleton_sublist.mpr hfirst).append (List.singleton_sublist.mpr List.mem_cons_self)
  rwa [Precedes, horder]

theorem Above.knows (habove : doc.Above parent id) : doc.knows id = true := by
  obtain ⟨_, hlink, -⟩ := Relation.TransGen.head'_iff.mp habove
  exact knows_of_parent? hlink

/-- A walk over trees meets their nodes and goes on with what is pending. -/
theorem sweep_of_shows (pending : List NodeId) :
    ∀ (steps : Nat) {trees : List Tree}, (∀ t ∈ trees, doc.Shows t) →
      (idsAll trees).length ≤ steps → doc.sweep steps (trees.map Tree.id ++ pending) =
        idsAll trees ++ doc.sweep (steps - (idsAll trees).length) pending
  | _, [], _, _ => rfl
  | 0, .node _ _ _ :: _, _, hsteps => absurd hsteps (Nat.not_succ_le_zero _)
  | steps + 1, .node id data children :: others, hshows, hsteps => by
    have hnode := hshows _ List.mem_cons_self
    have hchildren : doc.children id = children.map Tree.id := hnode.children
    have hbelow : ∀ t ∈ children ++ others, doc.Shows t := by
      intro t ht
      rcases List.mem_append.mp ht with ht | ht
      · exact hnode.subtrees t ht
      · exact hshows t (List.mem_cons_of_mem _ ht)
    rw [idsAll, ids, List.cons_append, ← idsAll_append, List.length_cons] at hsteps
    have hrest := sweep_of_shows pending steps hbelow (Nat.le_of_succ_le_succ hsteps)
    rw [List.map_append, ← hchildren, List.append_assoc] at hrest
    show id :: doc.sweep steps (doc.children id ++ (others.map Tree.id ++ pending)) = _
    rw [hrest, idsAll, ids, List.cons_append, ← idsAll_append, List.length_cons,
      Nat.add_sub_add_right, List.cons_append]

/-- A tree that a document holds has the children of all its nodes. -/
theorem Shows.child_mem {t : Tree} (ht : doc.Shows t) {child : NodeId} (hid : id ∈ t.ids)
    (hchild : child ∈ doc.children id) : child ∈ t.ids := by
  induction ht with
  | node _ hchildren hbelow ih =>
    rcases List.mem_cons.mp hid with rfl | hid
    · rw [hchildren] at hchild
      obtain ⟨t, ht, rfl⟩ := List.mem_map.mp hchild
      exact List.mem_cons_of_mem _ (mem_idsAll.mpr ⟨t, ht, t.id_mem_ids⟩)
    · obtain ⟨t, ht, hmem⟩ := mem_idsAll.mp hid
      exact List.mem_cons_of_mem _ (mem_idsAll.mpr ⟨t, ht, ih t ht hmem⟩)

namespace WellFormed

variable (h : doc.WellFormed)
include h

/-- The top of a tree lies on the way up from all of its nodes. -/
theorem mem_chain_of_mem_ids {t : Tree} (ht : doc.Shows t) (hid : id ∈ t.ids) :
    t.id ∈ doc.chain id := by
  rcases h.eq_or_above_of_mem_ids ht hid with rfl | habove
  · exact (h.mem_chain_iff (knows_iff_data?.mpr ⟨_, ht.data?⟩)).mpr (.inl rfl)
  · exact (h.mem_chain_iff habove.knows).mpr (.inr habove)

/-! ## The trees of the children of a node -/

section Trees

variable {trees : List Tree} (hchildren : doc.children id = trees.map Tree.id)
  (hshows : ∀ t ∈ trees, doc.Shows t)
include hchildren

theorem parent?_of_mem_trees {t : Tree} (ht : t ∈ trees) : doc.parent? t.id = some id := by
  rw [← h.linked, hchildren]
  exact List.mem_map_of_mem ht

include hshows

/-- No identifier stands twice in them. -/
theorem nodup_trees : (idsAll trees).Nodup := by
  refine h.nodup_idsAll_of_siblings id (fun t ht =>
    ⟨hshows t ht, h.nodup_ids (hshows t ht), h.parent?_of_mem_trees hchildren ht⟩) ?_
  rw [← hchildren]
  exact h.nodup id

/-- They hold the nodes below that node. -/
theorem mem_trees_iff {x : NodeId} : x ∈ idsAll trees ↔ doc.Above id x := by
  constructor
  · intro hx
    obtain ⟨t, ht, hmem⟩ := mem_idsAll.mp hx
    have hlink := Above.of_parent? (h.parent?_of_mem_trees hchildren ht)
    rcases h.eq_or_above_of_mem_ids (hshows t ht) hmem with rfl | habove
    · exact hlink
    · exact hlink.trans habove
  · intro habove
    induction habove using Relation.TransGen.head_induction_on with
    | single hlink =>
      obtain ⟨t, ht, rfl⟩ := List.mem_map.mp (hchildren ▸ (h.linked _ _).mpr hlink)
      exact mem_idsAll.mpr ⟨t, ht, t.id_mem_ids⟩
    | head hlink _ ih =>
      obtain ⟨t, ht, hmem⟩ := mem_idsAll.mp ih
      exact mem_idsAll.mpr ⟨t, ht, (hshows t ht).child_mem hmem ((h.linked _ _).mpr hlink)⟩

/-- **What the walk downwards from a node meets are the trees of its children.** -/
theorem descendants_of_trees : doc.descendants id = idsAll trees := by
  have hlength : (idsAll trees).length ≤ doc.nodes.size := by
    have hindices : ((idsAll trees).map (·.index)).Nodup :=
      (h.nodup_trees hchildren hshows).map fun _ _ hab => NodeId_eq_iff.mpr hab
    have hsub : (idsAll trees).map (·.index) ⊆ List.range doc.nodes.size := by
      intro index hindex
      obtain ⟨x, hx, rfl⟩ := List.mem_map.mp hindex
      have habove := (h.mem_trees_iff hchildren hshows).mp hx
      exact List.mem_range.mpr (knows_iff.mp habove.knows)
    simpa using (List.subperm_of_subset hindices hsub).length_le
  have hsweep := sweep_of_shows [] doc.nodes.size hshows hlength
  rw [List.append_nil] at hsweep
  rw [descendants, hchildren, hsweep]
  cases doc.nodes.size - (idsAll trees).length <;> simp [sweep]

end Trees

/-! ## The forest -/

theorem parent?_of_mem_forest {t : Tree} (ht : t ∈ doc.forest) : doc.parent? t.id = some root :=
  h.parent?_of_mem_trees h.forest_spec.1 ht

/-- The forest holds the nodes below the root. -/
theorem mem_forest_iff : id ∈ idsAll doc.forest ↔ doc.Above root id :=
  h.mem_trees_iff h.forest_spec.1 h.forest_spec.2.1

theorem root_not_mem_forest : root ∉ idsAll doc.forest :=
  fun hmem => h.acyclic root (h.mem_forest_iff.mp hmem)

/-- **What the walk downwards from the root meets is the forest.** -/
theorem descendants_root : doc.descendants root = idsAll doc.forest :=
  h.descendants_of_trees h.forest_spec.1 h.forest_spec.2.1

/-- The root and what lies below it is attached. -/
theorem isAttached_iff : doc.isAttached id = true ↔ id = root ∨ doc.Above root id := by
  rw [isAttached, List.contains_eq_mem, decide_eq_true_iff]
  constructor
  · intro hmem
    exact (eq_or_above_of_mem_climb hmem).imp_left Eq.symm
  · rintro (rfl | habove)
    · exact (h.mem_chain_iff h.knows_root).mpr (.inl rfl)
    · exact (h.mem_chain_iff habove.knows).mpr (.inr habove)

/-- What lies on the way up from an attached node is attached. -/
theorem isAttached_of_mem_chain {up : NodeId} (hid : doc.isAttached id = true)
    (hup : up ∈ doc.chain id) : doc.isAttached up = true := by
  rw [h.isAttached_iff] at hid ⊢
  rcases comparable hid ((eq_or_above_of_mem_climb hup).imp_left Eq.symm) with
    hsame | habove | hbelow
  · exact .inl hsame.symm
  · exact .inr habove
  · obtain ⟨_, hlink, -⟩ := Relation.TransGen.head'_iff.mp hbelow
    rw [h.root_free] at hlink
    cases hlink

theorem isAttached_root : doc.isAttached root = true :=
  h.isAttached_iff.mpr (.inl rfl)

theorem knows_of_isAttached (hid : doc.isAttached id = true) : doc.knows id = true := by
  rcases h.isAttached_iff.mp hid with rfl | habove
  · exact h.knows_root
  · exact habove.knows

/-- What hangs from an attached node is attached. -/
theorem isAttached_of_parent? (hlink : doc.parent? id = some parent)
    (hparent : doc.isAttached parent = true) : doc.isAttached id = true := by
  rw [h.isAttached_iff] at hparent ⊢
  rcases hparent with rfl | habove
  · exact .inr (.of_parent? hlink)
  · exact .inr (habove.trans (.of_parent? hlink))

/-- An attached node other than the root hangs from an attached node. -/
theorem attached_cases (hid : doc.isAttached id = true) :
    id = root ∨ ∃ parent, doc.parent? id = some parent ∧ doc.isAttached parent = true := by
  rcases h.isAttached_iff.mp hid with rfl | habove
  · exact .inl rfl
  · obtain ⟨parent, hlink, hup⟩ := Relation.TransGen.head'_iff.mp habove
    refine .inr ⟨parent, hlink, h.isAttached_iff.mpr ?_⟩
    exact (Relation.reflTransGen_iff_eq_or_transGen.mp hup).imp_left Eq.symm

/-- Induction over the attached nodes, from the root down. -/
theorem attached_induct {motive : NodeId → Prop} (hroot : motive root)
    (hbelow : ∀ id parent, doc.parent? id = some parent → doc.isAttached parent = true →
      motive parent → motive id) (hid : doc.isAttached id = true) : motive id := by
  rcases h.isAttached_iff.mp hid with rfl | habove
  · exact hroot
  · clear hid
    induction habove using Relation.TransGen.head_induction_on with
    | single hlink => exact hbelow _ _ hlink h.isAttached_root hroot
    | head hlink hup ih => exact hbelow _ _ hlink (h.isAttached_iff.mpr (.inr hup)) ih

theorem isAttached_iff_mem : doc.isAttached id = true ↔ id = root ∨ id ∈ idsAll doc.forest := by
  rw [h.isAttached_iff, h.mem_forest_iff]

/-- **The walk downwards from the root meets the attached nodes.** -/
theorem mem_descendants_root :
    id ∈ doc.descendants root ↔ doc.isAttached id = true ∧ id ≠ root := by
  rw [h.descendants_root, h.mem_forest_iff, h.isAttached_iff]
  constructor
  · intro habove
    refine ⟨.inr habove, ?_⟩
    rintro rfl
    exact h.acyclic root habove
  · rintro ⟨rfl | habove, hne⟩
    · exact absurd rfl hne
    · exact habove

/-- An element stands in the list of elements exactly if it is attached. -/
theorem mem_elements {e : Element} :
    (id, e) ∈ doc.elements ↔ doc.isAttached id = true ∧ doc.element? id = some e := by
  have hroot : doc.element? root = none := by
    rw [element?, h.data?_root]
    rfl
  constructor
  · intro hmem
    obtain ⟨x, hx, hsome⟩ := List.mem_filterMap.mp hmem
    obtain ⟨e', he', hpair⟩ := Option.map_eq_some_iff.mp hsome
    cases hpair
    exact ⟨(h.mem_descendants_root.mp hx).1, he'⟩
  · rintro ⟨hid, he⟩
    refine List.mem_filterMap.mpr ⟨id, h.mem_descendants_root.mpr ⟨hid, ?_⟩, by rw [he]; rfl⟩
    rintro rfl
    rw [hroot] at he
    cases he

end WellFormed

end SvgTidy.Document
