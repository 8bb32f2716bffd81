import SvgTidy.Proofs.Moves

/-!
# Taking a node out of its place

In a well-formed document a node with a parent can be removed, and it can give way to its children.
Neither is refused, payloads stay, and only the lists of children around the node change.

Principal results: `detach_spec` — removal; `replaceWithChildren_spec` — giving way.
-/

namespace SvgTidy.Document

variable {doc later : Document} {parent id : NodeId} {before after : List NodeId}

theorem insertIdx_length_append {α : Type} (x : α) (after : List α) :
    ∀ before : List α, (before ++ after).insertIdx before.length x = before ++ x :: after
  | [] => rfl
  | b :: before => by
    rw [List.cons_append, List.length_cons, List.insertIdx_succ_cons,
      insertIdx_length_append x after before, List.cons_append]

namespace WellFormed

/-- A node stands once among the children of its parent. -/
theorem filter_place (h : doc.WellFormed) (hplace : doc.children parent = before ++ id :: after) :
    (doc.children parent).filter (· != id) = before ++ after := by
  have hnodup := h.nodup parent
  rw [hplace] at hnodup ⊢
  rw [List.nodup_middle, List.nodup_cons, List.mem_append, not_or] at hnodup
  have hfree (list : List NodeId) (hlist : id ∉ list) : list.filter (· != id) = list := by
    refine List.filter_eq_self.mpr fun x hx => ?_
    rw [bne_iff_ne]
    rintro rfl
    exact hlist hx
  rw [List.filter_append, List.filter_cons_of_neg (by simp), hfree _ hnodup.1.1,
    hfree _ hnodup.1.2]

theorem parent?_of_place (h : doc.WellFormed) (hplace : doc.children parent = before ++ id :: after) :
    doc.parent? id = some parent :=
  (h.linked parent id).mp (by simp [hplace])

/-- A node in two lists is in the same list twice. -/
theorem not_mem_of_ne (h : doc.WellFormed) (hplace : doc.children parent = before ++ id :: after)
    {other : NodeId} (hother : other ≠ parent) : id ∉ doc.children other := by
  rw [h.linked, h.parent?_of_place hplace, Option.some.injEq]
  exact Ne.symm hother

/-- Parents follow from the lists of children. -/
theorem parent?_eq_of_mem_iff (h : doc.WellFormed) (hlater : later.WellFormed) {x : NodeId}
    (hsame : ∀ p, x ∈ later.children p ↔ x ∈ doc.children p) : later.parent? x = doc.parent? x := by
  refine Option.ext fun p => ?_
  rw [← h.linked, ← hlater.linked]
  exact hsame p

/-- **A node that is removed leaves its place and no other.** -/
theorem detach_spec (h : doc.WellFormed) (hplace : doc.children parent = before ++ id :: after) :
    (doc.detach id).WellFormed ∧ (doc.detach id).children parent = before ++ after ∧
      ∀ x, x ≠ parent → (doc.detach id).children x = doc.children x := by
  refine ⟨h.detach id, ?_, fun x hx => ?_⟩
  · rw [h.children_detach_eq, h.filter_place hplace]
  · rw [h.children_detach_eq]
    refine List.filter_eq_self.mpr fun y hy => ?_
    rw [bne_iff_ne]
    rintro rfl
    exact h.not_mem_of_ne hplace hx hy

/-- A node that is not attached is not below the root. -/
theorem isAttached_eq_false (h : doc.WellFormed) (hid : doc.knows id = true) (hroot : id ≠ root)
    (hfree : doc.parent? id = none) : doc.isAttached id = false := by
  rw [isAttached, List.contains_eq_mem, decide_eq_false_iff_not, h.mem_chain_iff hid]
  rintro (heq | habove)
  · exact hroot heq.symm
  · obtain ⟨p, hp, -⟩ := Relation.TransGen.head'_iff.mp habove
    rw [hfree] at hp
    cases hp

theorem isAttached_eq_true (h : doc.WellFormed) (hid : doc.knows id = true)
    (habove : doc.Above root id) : doc.isAttached id = true := by
  rw [isAttached, List.contains_eq_mem, decide_eq_true_iff, h.mem_chain_iff hid]
  exact .inr habove

/-! ## Giving way -/

theorem ne_of_parent? (h : doc.WellFormed) (hid : doc.parent? id = some parent) : parent ≠ id := by
  rintro rfl
  exact h.acyclic parent (.of_parent? hid)

/-- Nothing keeps a child of a node from becoming a child of the node above. -/
theorem obstacle?_eq_none (h : doc.WellFormed) {child : NodeId}
    (hid : doc.parent? id = some parent) (hchild : doc.parent? child = some id) :
    doc.obstacle? parent child = none := by
  obtain ⟨hknown, hroot⟩ := h.child_known id child ((h.linked id child).mpr hchild)
  have hdown : doc.Above parent child := (Above.of_parent? hid).trans (.of_parent? hchild)
  refine h.obstacle?_eq_none_iff.mpr ⟨hknown, hroot, ?_, ?_, fun hup => ?_⟩
  · have hkind := h.container parent (List.ne_nil_of_mem ((h.linked parent id).mpr hid))
    obtain ⟨data, hdata⟩ := knows_iff_data?.mp (h.knows_parent hid)
    refine ⟨data, hdata, ?_⟩
    rw [kind?, hdata] at hkind
    cases data <;> simp_all [NodeData.kind, NodeData.isContainer]
  · rintro rfl
    exact h.acyclic _ hdown
  · exact h.acyclic _ (hup.trans hdown)

/-- Without a node that is elsewhere, the list of children is the same. -/
theorem childrenWithout_eq (h : doc.WellFormed) {child other : NodeId}
    (hchild : doc.parent? child = some other) (hne : parent ≠ other) :
    doc.childrenWithout parent child = doc.children parent := by
  refine List.filter_eq_self.mpr fun x hx => ?_
  rw [bne_iff_ne]
  rintro rfl
  rw [h.linked, hchild, Option.some.injEq] at hx
  exact hne hx.symm

/-- The first child of a node moves right before it. -/
theorem insertBefore_spec (h : doc.WellFormed) {child : NodeId} {rest : List NodeId}
    (hplace : doc.children parent = before ++ id :: after)
    (hchildren : doc.children id = child :: rest) :
    ∃ later, outcome (insertBefore id child) doc = (.ok (), later) ∧ later.WellFormed ∧
      (∀ x, later.data? x = doc.data? x) ∧
      later.children parent = (before ++ [child]) ++ id :: after ∧ later.children id = rest ∧
      (∀ x, x ≠ parent → x ≠ id → later.children x = doc.children x) ∧
      ∀ x, x ≠ child → later.parent? x = doc.parent? x := by
  have hplaceChild : doc.children id = [] ++ child :: rest := hchildren
  have hid : doc.parent? id = some parent := h.parent?_of_place hplace
  have hchild : doc.parent? child = some id := h.parent?_of_place hplaceChild
  have hne : parent ≠ id := h.ne_of_parent? hid
  have hknown : doc.knows child = true := (h.child_known id child (by simp [hchildren])).1
  have hparentKnown : doc.knows parent = true := h.knows_parent hid
  have hobstacle := h.obstacle?_eq_none hid hchild
  have hwithout : doc.childrenWithout parent child = before ++ id :: after :=
    (h.childrenWithout_eq hchild hne).trans hplace
  have hindex : (doc.childrenWithout parent child).idxOf id = before.length := by
    have hnodup := h.nodup parent
    rw [hplace, List.nodup_middle, List.nodup_cons, List.mem_append, not_or] at hnodup
    rw [hwithout, List.idxOf_append_of_notMem hnodup.1.1, List.idxOf_cons_self, Nat.add_zero]
  have hle : before.length ≤ (doc.childrenWithout parent child).length := by
    rw [hwithout, List.length_append]
    exact Nat.le_add_right _ _
  refine ⟨(doc.detach child).attach parent before.length child, ?_, ?_, ?_, ?_, ?_, ?_, ?_⟩
  · rw [insertBefore, h.outcome_insertBeside (Nat.zero_le 1) (h.ne_of_parent? hchild) hid hobstacle,
      hindex, Nat.add_zero]
  · exact (evolves_move hobstacle hle h).1
  · intro x
    rw [data?_attach, data?_detach]
  · rw [children_attach (by simpa using hparentKnown), if_pos rfl,
      (h.detach_spec hplaceChild).2.2 parent hne, hplace, insertIdx_length_append,
      List.append_assoc, List.singleton_append]
  · rw [children_attach (by simpa using hparentKnown), if_neg (Ne.symm hne),
      (h.detach_spec hplaceChild).2.1, List.nil_append]
  · intro x hx hxid
    rw [children_attach (by simpa using hparentKnown), if_neg hx,
      (h.detach_spec hplaceChild).2.2 x hxid]
  · intro x hx
    rw [parent?_attach (by simpa using hknown), if_neg hx, parent?_detach, if_neg hx]

/-- All children of a node move right before it, in their order. -/
theorem insertAllBefore_spec (h : doc.WellFormed) {children : List NodeId}
    (hplace : doc.children parent = before ++ id :: after) (hchildren : doc.children id = children) :
    ∃ later, outcome (children.forM (insertBefore id)) doc = (.ok (), later) ∧ later.WellFormed ∧
      (∀ x, later.data? x = doc.data? x) ∧
      later.children parent = (before ++ children) ++ id :: after ∧ later.children id = [] ∧
      (∀ x, x ≠ parent → x ≠ id → later.children x = doc.children x) ∧
      ∀ x, x ∉ children → later.parent? x = doc.parent? x := by
  induction children generalizing doc before with
  | nil =>
    refine ⟨doc, outcome_forM_nil _, h, fun _ => rfl, ?_, hchildren, fun _ _ _ => rfl, fun _ _ => rfl⟩
    rw [hplace, List.append_nil]
  | cons child rest ih =>
    obtain ⟨next, hnext, hwf, hdata, hparent, hid, hother, hup⟩ :=
      h.insertBefore_spec hplace hchildren
    obtain ⟨later, hlater, hwf', hdata', hparent', hid', hother', hup'⟩ := ih hwf hparent hid
    refine ⟨later, ?_, hwf', fun x => (hdata' x).trans (hdata x), ?_, hid', fun x hx hxid => ?_,
      fun x hx => ?_⟩
    · rw [outcome_forM_cons, hnext]
      exact hlater
    · rw [hparent', List.append_assoc before, List.singleton_append]
    · rw [hother' x hx hxid, hother x hx hxid]
    · rw [List.mem_cons, not_or] at hx
      rw [hup' x hx.2, hup x hx.1]

/-- **A node gives way to its children.** They take its place in their order. -/
theorem replaceWithChildren_spec (h : doc.WellFormed)
    (hplace : doc.children parent = before ++ id :: after) :
    ∃ later, outcome (replaceWithChildren id) doc = (.ok (), later) ∧ later.WellFormed ∧
      (∀ x, later.data? x = doc.data? x) ∧
      later.children parent = before ++ doc.children id ++ after ∧ later.parent? id = none ∧
      (∀ x, x ≠ parent → x ≠ id → later.children x = doc.children x) ∧
      ∀ x, x ≠ id → x ∉ doc.children id → later.parent? x = doc.parent? x := by
  have hid := h.parent?_of_place hplace
  have hknown : doc.knows id = true := (h.child_known parent id (by simp [hplace])).1
  have hroot : id ≠ root := (h.child_known parent id (by simp [hplace])).2
  obtain ⟨next, hnext, hwf, hdata, hparent, -, hother, hup⟩ := h.insertAllBefore_spec hplace rfl
  have hknown' : next.knows id = true := by
    rw [knows_iff_data?, hdata, ← knows_iff_data?]
    exact hknown
  obtain ⟨hwf', hparent', hother'⟩ := hwf.detach_spec hparent
  refine ⟨next.detach id, ?_, hwf', fun x => ?_, hparent', ?_, fun x hx hxid => ?_,
    fun x hx hchild => ?_⟩
  · rw [outcome_replaceWithChildren, if_neg (by simp [hknown]), if_neg (by simp [hid]),
      outcome_bind, hnext]
    simp only
    rw [outcome_remove, if_neg (by simp [hknown']), if_neg hroot]
  · rw [data?_detach, hdata]
  · rw [parent?_detach, if_pos rfl]
  · rw [hother' x hx, hother x hx hxid]
  · rw [parent?_detach, if_neg hx, hup x hchild]

end WellFormed

end SvgTidy.Document
