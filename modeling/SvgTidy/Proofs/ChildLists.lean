import Mathlib.Data.List.Dedup
import SvgTidy.Proofs.Histories
import SvgTidy.Proofs.TreeSplices

/-!
# What a move does to the lists of children

Every move gives one node a new list of children. `Rearranged` says what that means for a whole
document: the nodes that were moved are gone from all other lists, the node's former children that
are not in its new list are detached, and nothing else is different. Parent links follow from the
lists, so each move is followed through the lists alone.

Principal results: `rearranged_move` — the single insertion that moves are made of;
`appendAll_spec` — one insertion after the other at the end of a list; `moves_rearrange` — the list
that each move means to give, in any document of a history.
-/

namespace SvgTidy.Document

variable {doc later : Document} {target parent child sibling id : NodeId}
  {list moved before after : List NodeId}

/-- The children of a node are now those of a list, some of which have been moved there. -/
structure Rearranged (doc later : Document) (target : NodeId) (list moved : List NodeId) : Prop where
  /-- Payloads stay, and nodes neither come nor go. -/
  data : ∀ id, later.data? id = doc.data? id
  children : later.children target = list
  /-- All other lists lose the nodes that were moved, and no others. -/
  others : ∀ id, id ≠ target → later.children id = (doc.children id).filter (· ∉ moved)
  listed : ∀ id ∈ list, later.parent? id = some target
  /-- Former children that are not in the list are detached. -/
  dropped : ∀ id ∈ doc.children target, id ∉ list → later.parent? id = none
  /-- All other nodes stay where they are. -/
  parents : ∀ id, id ∉ list → id ∉ doc.children target → later.parent? id = doc.parent? id

/-! ## Lists without some nodes -/

theorem filter_not_mem_singleton (list : List NodeId) (id : NodeId) :
    list.filter (· ∉ [id]) = list.filter (· != id) := by
  refine List.filter_congr fun x _ => ?_
  by_cases hx : x = id <;> simp [hx]

theorem filter_filter_not_mem (list : List NodeId) (id : NodeId) (rest : List NodeId) :
    (list.filter (· != id)).filter (· ∉ rest) = list.filter (· ∉ id :: rest) := by
  rw [List.filter_filter]
  refine List.filter_congr fun x _ => ?_
  by_cases hx : x = id <;> simp [hx]

theorem filter_not_mem_self (list : List NodeId) : list.filter (· ∉ list) = [] := by
  rw [List.filter_eq_nil_iff]
  simp

/-- To go last before some others do is to keep a place only if one is not among these. -/
theorem filter_concat_dedup (list : List NodeId) (id : NodeId) (rest : List NodeId) :
    (list.filter (· != id) ++ [id]).filter (· ∉ rest) ++ rest.dedup =
      list.filter (· ∉ id :: rest) ++ (id :: rest).dedup := by
  rw [List.filter_append, filter_filter_not_mem]
  by_cases hmem : id ∈ rest
  · simp [hmem]
  · simp [hmem]

/-! ## Parent links -/

/-- In well-formed documents, parent links follow from the lists of children. -/
theorem Rearranged.of_lists (h : doc.WellFormed) (hlater : later.WellFormed)
    (hdata : ∀ id, later.data? id = doc.data? id) (htarget : later.children target = list)
    (hothers : ∀ id, id ≠ target → later.children id = (doc.children id).filter (· ∉ moved))
    (hmoved : ∀ id ∈ moved, id ∈ list) : doc.Rearranged later target list moved := by
  -- whoever is not in the list has lost no parent but the target
  have hparent {id parent : NodeId} (hid : id ∉ list) (hlink : later.parent? id = some parent) :
      parent ≠ target ∧ doc.parent? id = some parent := by
    rw [← hlater.linked] at hlink
    have hne : parent ≠ target := by
      rintro rfl
      exact hid (htarget ▸ hlink)
    rw [hothers parent hne] at hlink
    exact ⟨hne, (h.linked parent id).mp (List.mem_of_mem_filter hlink)⟩
  refine ⟨hdata, htarget, hothers, fun id hid => ?_, fun id hold hid => ?_, fun id hid hold => ?_⟩
  · rw [← hlater.linked, htarget]
    exact hid
  · rw [h.linked] at hold
    refine Option.eq_none_iff_forall_ne_some.mpr fun parent hlink => ?_
    obtain ⟨hne, hlink⟩ := hparent hid hlink
    exact hne (Option.some.inj (hlink.symm.trans hold))
  · refine h.parent?_eq_of_mem_iff hlater fun parent => ?_
    by_cases hp : parent = target
    · subst hp
      rw [htarget]
      exact iff_of_false hid hold
    · have hstays : id ∉ moved := fun hmem => hid (hmoved id hmem)
      rw [hothers parent hp, List.mem_filter]
      exact and_iff_left (decide_eq_true hstays)

/-! ## One insertion -/

/-- A node may take in another: it can have children, and the other is neither the root nor the node
itself nor above it. -/
structure Takes (doc : Document) (parent child : NodeId) : Prop where
  container : doc.kind? parent = some .root ∨ doc.kind? parent = some .element
  known : doc.knows child = true
  ne_root : child ≠ root
  ne_parent : child ≠ parent
  not_above : ¬ doc.Above child parent

theorem Takes.knows_parent (h : doc.Takes parent child) : doc.knows parent = true :=
  knows_iff_kind?.mpr (h.container.elim (fun hroot => ⟨_, hroot⟩) fun helement => ⟨_, helement⟩)

theorem WellFormed.container_of_parent? (h : doc.WellFormed) (hid : doc.parent? id = some parent) :
    doc.kind? parent = some .root ∨ doc.kind? parent = some .element :=
  h.container parent (List.ne_nil_of_mem ((h.linked parent id).mpr hid))

theorem exists_isContainer_iff :
    (∃ data, doc.data? id = some data ∧ data.isContainer = true) ↔
      doc.kind? id = some .root ∨ doc.kind? id = some .element := by
  constructor
  · rintro ⟨data, hdata, hcontainer⟩
    exact kind?_of_isContainer hdata hcontainer
  · intro hkind
    rw [kind?] at hkind
    cases hdata : doc.data? id with
    | none => simp [hdata] at hkind
    | some data =>
      refine ⟨data, rfl, ?_⟩
      cases data <;> simp_all [NodeData.kind, NodeData.isContainer]

namespace WellFormed

theorem takes_iff (h : doc.WellFormed) :
    doc.Takes parent child ↔ doc.obstacle? parent child = none := by
  rw [h.obstacle?_eq_none_iff, exists_isContainer_iff]
  exact ⟨fun ⟨hcontainer, hknown, hroot, hne, habove⟩ => ⟨hknown, hroot, hcontainer, hne, habove⟩,
    fun ⟨hknown, hroot, hcontainer, hne, habove⟩ => ⟨hcontainer, hknown, hroot, hne, habove⟩⟩

/-- **A single insertion rearranges the list it goes to.** -/
theorem rearranged_move (h : doc.WellFormed) {index : Nat}
    (hobstacle : doc.obstacle? parent child = none)
    (hindex : index ≤ (doc.childrenWithout parent child).length) :
    doc.Rearranged ((doc.detach child).attach parent index child) parent
      ((doc.childrenWithout parent child).insertIdx index child) [child] := by
  obtain ⟨-, -, ⟨data, hdata, -⟩, -⟩ := h.obstacle?_eq_none_iff.mp hobstacle
  have hknown : (doc.detach child).knows parent = true := by
    rw [knows_detach, knows_iff_data?]
    exact ⟨data, hdata⟩
  refine .of_lists h (h.move hobstacle hindex) (fun id => ?_) ?_ (fun id hid => ?_) fun id hid => ?_
  · rw [data?_attach, data?_detach]
  · rw [children_attach hknown, if_pos rfl, h.children_detach_eq, childrenWithout]
  · rw [children_attach hknown, if_neg hid, h.children_detach_eq, filter_not_mem_singleton]
  · rw [List.mem_insertIdx hindex]
    exact .inl (List.mem_singleton.mp hid)

theorem outcome_insert (h : doc.WellFormed) {index : Nat} (htakes : doc.Takes parent child)
    (hindex : index ≤ (doc.childrenWithout parent child).length) :
    ∃ later, outcome (insert parent index child) doc = (.ok (), later) ∧
      doc.Rearranged later parent ((doc.childrenWithout parent child).insertIdx index child)
        [child] := by
  have hobstacle := h.takes_iff.mp htakes
  exact ⟨_, outcome_insert_of_fits hobstacle hindex, h.rearranged_move hobstacle hindex⟩

theorem outcome_append (h : doc.WellFormed) (htakes : doc.Takes parent child) :
    ∃ later, outcome (append parent child) doc = (.ok (), later) ∧
      doc.Rearranged later parent (doc.childrenWithout parent child ++ [child]) [child] := by
  obtain ⟨later, hlater, hlists⟩ := h.outcome_insert htakes (Nat.le_refl _)
  rw [List.insertIdx_length_self] at hlists
  exact ⟨later, by rw [Document.outcome_append, hlater], hlists⟩

/-! ## Beside a sibling -/

/-- Where a sibling stands in its list without another node. -/
theorem exists_place (h : doc.WellFormed) (hsibling : doc.parent? sibling = some parent)
    (hne : sibling ≠ child) :
    ∃ before after, doc.childrenWithout parent child = before ++ sibling :: after ∧
      (doc.childrenWithout parent child).idxOf sibling = before.length := by
  have hmem : sibling ∈ doc.childrenWithout parent child :=
    List.mem_filter.mpr ⟨(h.linked parent sibling).mpr hsibling, bne_iff_ne.mpr hne⟩
  obtain ⟨before, after, hlist, hfirst⟩ := List.eq_append_cons_of_mem hmem
  refine ⟨before, after, hlist, ?_⟩
  rw [hlist, List.idxOf_append_of_notMem hfirst, List.idxOf_cons_self, Nat.add_zero]

/-- A node goes right before its sibling, or right after it. -/
theorem outcome_beside (h : doc.WellFormed) (hsibling : doc.parent? sibling = some parent)
    (hne : sibling ≠ child) (htakes : doc.Takes parent child) :
    ∃ before after, doc.childrenWithout parent child = before ++ sibling :: after ∧
      (∃ later, outcome (insertBefore sibling child) doc = (.ok (), later) ∧ later.WellFormed ∧
        doc.Rearranged later parent (before ++ child :: sibling :: after) [child]) ∧
      ∃ later, outcome (insertAfter sibling child) doc = (.ok (), later) ∧ later.WellFormed ∧
        doc.Rearranged later parent (before ++ sibling :: child :: after) [child] := by
  obtain ⟨before, after, hlist, hindex⟩ := h.exists_place hsibling hne
  have hobstacle := h.takes_iff.mp htakes
  have hlength : (doc.childrenWithout parent child).length = before.length + (after.length + 1) := by
    rw [hlist, List.length_append, List.length_cons]
  have hmove {offset : Nat} (hoffset : offset ≤ 1) :
      ∃ later, outcome (insertBeside offset sibling child) doc = (.ok (), later) ∧
        later.WellFormed ∧ doc.Rearranged later parent
          ((before ++ sibling :: after).insertIdx (before.length + offset) child) [child] := by
    have hle : before.length + offset ≤ (doc.childrenWithout parent child).length := by omega
    refine ⟨_, h.outcome_insertBeside hoffset hne hsibling hobstacle, ?_⟩
    rw [hindex, ← hlist]
    exact ⟨h.move hobstacle hle, h.rearranged_move hobstacle hle⟩
  refine ⟨before, after, hlist, ?_, ?_⟩
  · have hbefore := hmove (Nat.zero_le 1)
    rwa [Nat.add_zero, insertIdx_length_append] at hbefore
  · have hafter := hmove (Nat.le_refl 1)
    have hsplit : before ++ sibling :: after = (before ++ [sibling]) ++ after := by simp
    have hspot : before.length + 1 = (before ++ [sibling]).length := by simp
    rwa [hsplit, hspot, insertIdx_length_append, List.append_assoc, List.singleton_append] at hafter

/-- A node takes the place of another, which is detached and keeps its own children. -/
theorem outcome_replace {old new : NodeId} (h : doc.WellFormed)
    (hold : doc.parent? old = some parent) (hne : old ≠ new) (htakes : doc.Takes parent new) :
    ∃ before after later, doc.childrenWithout parent new = before ++ old :: after ∧
      outcome (replace old new) doc = (.ok (), later) ∧
      doc.Rearranged later parent (before ++ new :: after) [new] ∧
      later.parent? old = none ∧ later.children old = (doc.children old).filter (· ≠ new) := by
  obtain ⟨before, after, hlist, ⟨next, hnext, hwf, hlists⟩, -⟩ := h.outcome_beside hold hne htakes
  have hplace : next.children parent = (before ++ [new]) ++ old :: after := by
    rw [hlists.children, List.append_assoc, List.singleton_append]
  obtain ⟨hwf', hchildren, hother⟩ := hwf.detach_spec hplace
  rw [List.append_assoc, List.singleton_append] at hchildren
  obtain ⟨hknown, hroot⟩ := h.child_known parent old ((h.linked parent old).mpr hold)
  have hknown' : next.knows old = true := by
    rw [knows_iff_data?, hlists.data, ← knows_iff_data?]
    exact hknown
  have hothers (id : NodeId) (hid : id ≠ parent) :
      (next.detach old).children id = (doc.children id).filter (· ∉ [new]) :=
    (hother id hid).trans (hlists.others id hid)
  refine ⟨before, after, next.detach old, hlist, ?_, ?_, ?_, ?_⟩
  · rw [replace, if_neg hne, outcome_bind, hnext]
    simp only
    rw [outcome_remove, if_neg (by simp [hknown']), if_neg hroot]
  · exact .of_lists h hwf' (fun id => by rw [data?_detach, hlists.data]) hchildren hothers (by simp)
  · rw [parent?_detach, if_pos rfl]
  · rw [hothers old (Ne.symm (h.ne_of_parent? hold))]
    simp

/-! ## Whole lists -/

/-- No child of one node is a child of another. -/
theorem filter_children_of_ne (h : doc.WellFormed) (hne : id ≠ parent) :
    (doc.children id).filter (· ∉ doc.children parent) = doc.children id := by
  refine List.filter_eq_self.mpr fun x hx => decide_eq_true fun hmem => hne ?_
  rw [h.linked] at hx hmem
  exact Option.some.inj (hx.symm.trans hmem)

/-- What may be moved may be moved after another move to the same place. -/
theorem obstacle?_move (h : doc.WellFormed) {other : NodeId} {index : Nat}
    (hchild : doc.obstacle? parent child = none)
    (hindex : index ≤ (doc.childrenWithout parent child).length)
    (hother : doc.obstacle? parent other = none) :
    ((doc.detach child).attach parent index child).obstacle? parent other = none := by
  obtain ⟨hknown, -, -, hne, habove⟩ :=
    (h.detach child).obstacle?_eq_none_iff.mp (h.obstacle?_detach hchild child)
  obtain ⟨hknown', hroot, hcontainer, hne', habove'⟩ :=
    (h.detach child).obstacle?_eq_none_iff.mp (h.obstacle?_detach hother child)
  refine (h.move hchild hindex).obstacle?_eq_none_iff.mpr
    ⟨?_, hroot, ?_, hne', fun hup => ?_⟩
  · rwa [knows_attach]
  · simpa only [data?_attach] using hcontainer
  · -- the new link leads to the parent, not up from it
    rcases above_attach hknown hne habove hup with hup | ⟨heq | hup, -⟩
    · exact habove' hup
    · exact hne heq.symm
    · exact habove hup

/-- Nodes that are put last one after the other end up in the order of their last mention. -/
theorem appendAll_spec (h : doc.WellFormed) {children : List NodeId}
    (hobstacle : ∀ child ∈ children, doc.obstacle? parent child = none) :
    ∃ later, outcome (children.forM (append parent)) doc = (.ok (), later) ∧ later.WellFormed ∧
      (∀ id, later.data? id = doc.data? id) ∧
      later.children parent = (doc.children parent).filter (· ∉ children) ++ children.dedup ∧
      ∀ id, id ≠ parent → later.children id = (doc.children id).filter (· ∉ children) := by
  induction children generalizing doc with
  | nil =>
    refine ⟨doc, outcome_forM_nil _, h, fun _ => rfl, ?_, fun id _ => ?_⟩ <;> simp
  | cons child rest ih =>
    have hchild := hobstacle child List.mem_cons_self
    have hindex := Nat.le_refl (doc.childrenWithout parent child).length
    have hnext := outcome_insert_of_fits hchild hindex
    have hlists := h.rearranged_move hchild hindex
    rw [List.insertIdx_length_self] at hlists
    obtain ⟨later, hlater, hwf, hdata, hchildren, hothers⟩ := ih (h.move hchild hindex)
      fun other hmem => h.obstacle?_move hchild hindex (hobstacle other (List.mem_cons_of_mem _ hmem))
    refine ⟨later, ?_, hwf, fun id => (hdata id).trans (hlists.data id), ?_, fun id hid => ?_⟩
    · rw [outcome_forM_cons, Document.outcome_append, hnext]
      exact hlater
    · rw [hchildren, hlists.children, childrenWithout, filter_concat_dedup]
    · rw [hothers id hid, hlists.others id hid, filter_not_mem_singleton, filter_filter_not_mem]

theorem foldl_detach_spec (h : doc.WellFormed) (parent : NodeId) (ids : List NodeId) :
    (ids.foldl Document.detach doc).WellFormed ∧
      (∀ id, (ids.foldl Document.detach doc).data? id = doc.data? id) ∧
      (∀ id, (ids.foldl Document.detach doc).children id = (doc.children id).filter (· ∉ ids)) ∧
      ∀ child, doc.obstacle? parent child = none →
        (ids.foldl Document.detach doc).obstacle? parent child = none := by
  induction ids generalizing doc with
  | nil =>
    refine ⟨h, fun _ => rfl, fun id => ?_, fun _ hchild => hchild⟩
    simp
  | cons id rest ih =>
    obtain ⟨hwf, hdata, hchildren, hobstacle⟩ := ih (h.detach id)
    refine ⟨hwf, fun x => ?_, fun x => ?_, fun child hchild => ?_⟩
    · rw [List.foldl_cons, hdata, data?_detach]
    · rw [List.foldl_cons, hchildren, h.children_detach_eq, filter_filter_not_mem]
    · exact hobstacle child (h.obstacle?_detach hchild id)

/-- A node gets exactly the children it is given, each at the place of its last mention. -/
theorem outcome_setChildren (h : doc.WellFormed) {children : List NodeId}
    (htakes : ∀ child ∈ children, doc.Takes parent child) :
    ∃ later, outcome (setChildren parent children) doc = (.ok (), later) ∧
      doc.Rearranged later parent children.dedup children := by
  have hobstacle : ∀ child ∈ children, doc.obstacle? parent child = none :=
    fun child hmem => h.takes_iff.mp (htakes child hmem)
  obtain ⟨hwf, hdata, hlists, hfree⟩ := h.foldl_detach_spec parent (doc.children parent)
  obtain ⟨later, hlater, hwf', hdata', hchildren, hothers⟩ :=
    hwf.appendAll_spec fun child hmem => hfree child (hobstacle child hmem)
  refine ⟨later, ?_, .of_lists h hwf' (fun id => (hdata' id).trans (hdata id)) ?_ (fun id hid => ?_)
    fun id hid => List.mem_dedup.mpr hid⟩
  · rw [Document.outcome_setChildren, List.findSome?_eq_none_iff.mpr hobstacle]
    exact hlater
  · rw [hchildren, hlists, filter_not_mem_self, List.filter_nil, List.nil_append]
  · rw [hothers id hid, hlists, h.filter_children_of_ne hid]

/-- A node's children take its place in their order, and it is left without parent and children. -/
theorem outcome_replaceWithChildren (h : doc.WellFormed) (hid : doc.parent? id = some parent) :
    ∃ before after later, doc.children parent = before ++ id :: after ∧
      outcome (replaceWithChildren id) doc = (.ok (), later) ∧
      doc.Rearranged later parent (before ++ doc.children id ++ after) (doc.children id) ∧
      later.parent? id = none ∧ later.children id = [] := by
  obtain ⟨before, after, hplace⟩ := List.append_of_mem ((h.linked parent id).mpr hid)
  obtain ⟨later, hlater, hwf, hdata, hlist, hfree, hothers, hparents⟩ :=
    h.replaceWithChildren_spec hplace
  have hne : parent ≠ id := h.ne_of_parent? hid
  have hempty : later.children id = [] := by
    refine List.eq_nil_iff_forall_not_mem.mpr fun x hx => ?_
    rw [hwf.linked] at hx
    by_cases hchild : x ∈ doc.children id
    · have hmoved : x ∈ later.children parent := by simp [hlist, hchild]
      rw [hwf.linked, hx, Option.some.injEq] at hmoved
      exact hne hmoved.symm
    · rw [hparents x (hwf.ne_of_parent? hx).symm hchild, ← h.linked] at hx
      exact hchild hx
  refine ⟨before, after, later, hplace, hlater, .of_lists h hwf hdata hlist (fun x hx => ?_)
    (fun x hx => by simp [hx]), hfree, hempty⟩
  by_cases hxid : x = id
  · subst hxid
    rw [hempty, filter_not_mem_self]
  · rw [hothers x hx hxid, h.filter_children_of_ne hxid]

end WellFormed

/-! ## All moves -/

/-- **In any document of a history, every move gives its target the list that it means to give.**
Where nothing speaks against it the move succeeds: the target can take the nodes, a sibling has a
parent and is another node, and an index is one of the list without the node. Beyond the list of the
target, the document changes only as `Rearranged` says. -/
theorem moves_rearrange {first doc : Document} (hfirst : first.Initial) (hdoc : History first doc) :
    (∀ parent index child, doc.Takes parent child →
      index ≤ (doc.childrenWithout parent child).length →
      ∃ later, outcome (insert parent index child) doc = (.ok (), later) ∧
        doc.Rearranged later parent ((doc.childrenWithout parent child).insertIdx index child)
          [child]) ∧
    (∀ parent child, doc.Takes parent child →
      ∃ later, outcome (append parent child) doc = (.ok (), later) ∧
        doc.Rearranged later parent (doc.childrenWithout parent child ++ [child]) [child]) ∧
    (∀ parent sibling child, doc.parent? sibling = some parent → sibling ≠ child →
      doc.Takes parent child →
      ∃ before after, doc.childrenWithout parent child = before ++ sibling :: after ∧
        (∃ later, outcome (insertBefore sibling child) doc = (.ok (), later) ∧
          doc.Rearranged later parent (before ++ child :: sibling :: after) [child]) ∧
        ∃ later, outcome (insertAfter sibling child) doc = (.ok (), later) ∧
          doc.Rearranged later parent (before ++ sibling :: child :: after) [child]) ∧
    (∀ parent old new, doc.parent? old = some parent → old ≠ new → doc.Takes parent new →
      ∃ before after later, doc.childrenWithout parent new = before ++ old :: after ∧
        outcome (replace old new) doc = (.ok (), later) ∧
        doc.Rearranged later parent (before ++ new :: after) [new] ∧
        later.parent? old = none ∧ later.children old = (doc.children old).filter (· ≠ new)) ∧
    (∀ parent children, (∀ child ∈ children, doc.Takes parent child) →
      ∃ later, outcome (setChildren parent children) doc = (.ok (), later) ∧
        doc.Rearranged later parent children.dedup children) ∧
    ∀ parent id, doc.parent? id = some parent →
      ∃ before after later, doc.children parent = before ++ id :: after ∧
        outcome (replaceWithChildren id) doc = (.ok (), later) ∧
        doc.Rearranged later parent (before ++ doc.children id ++ after) (doc.children id) ∧
        later.parent? id = none ∧ later.children id = [] := by
  obtain ⟨h, -⟩ := hdoc.evolves hfirst.wellFormed
  refine ⟨fun parent index child htakes hindex => h.outcome_insert htakes hindex,
    fun parent child htakes => h.outcome_append htakes,
    fun parent sibling child hsibling hne htakes => ?_,
    fun parent old new hold hne htakes => h.outcome_replace hold hne htakes,
    fun parent children htakes => h.outcome_setChildren htakes,
    fun parent id hid => h.outcome_replaceWithChildren hid⟩
  obtain ⟨before, after, hlist, ⟨first, hfirst, -, hbefore⟩, second, hsecond, -, hafter⟩ :=
    h.outcome_beside hsibling hne htakes
  exact ⟨before, after, hlist, ⟨first, hfirst, hbefore⟩, second, hsecond, hafter⟩

/-- A drawing with a path in a group and a shape after the group. -/
def groupedDrawing : Document :=
  [.createElement { name := "svg" }, .append root ⟨1⟩, .createElement { name := "g" },
    .append ⟨1⟩ ⟨2⟩, .createElement { name := "path" }, .append ⟨2⟩ ⟨3⟩,
    .createElement { name := "rect" }, .append ⟨1⟩ ⟨4⟩].foldl Call.apply .empty

/-- Of a shape named twice the last place counts, the path leaves its group for the list, and the
group, which is not in it, is detached. The group can also be replaced by what is in it. -/
theorem moves_rearrange_groupedDrawing :
    Initial .empty ∧ History .empty groupedDrawing ∧
      (∃ later, outcome (setChildren ⟨1⟩ [⟨4⟩, ⟨3⟩, ⟨4⟩]) groupedDrawing = (.ok (), later) ∧
        later.children ⟨1⟩ = [⟨3⟩, ⟨4⟩] ∧ later.children ⟨2⟩ = [] ∧ later.parent? ⟨2⟩ = none) ∧
      ∃ later, outcome (replace ⟨2⟩ ⟨3⟩) groupedDrawing = (.ok (), later) ∧
        later.children ⟨2⟩ = [] ∧ later.parent? ⟨3⟩ = some ⟨1⟩ := by
  have hdoc : History .empty groupedDrawing := .calls _ .empty
  have hwell : groupedDrawing.WellFormed := (hdoc.evolves .empty).1
  have htakes : ∀ child ∈ [⟨4⟩, ⟨3⟩, ⟨4⟩], groupedDrawing.Takes ⟨1⟩ child :=
    fun child hmem => hwell.takes_iff.mpr (by revert child; decide)
  obtain ⟨-, -, -, hreplace, hset, -⟩ := moves_rearrange .empty hdoc
  obtain ⟨later, hlater, hlists⟩ := hset ⟨1⟩ _ htakes
  obtain ⟨before, after, last, -, hlast, hlists', -, hchildren⟩ :=
    hreplace ⟨1⟩ ⟨2⟩ ⟨3⟩ rfl (by decide) (htakes ⟨3⟩ (by decide))
  refine ⟨.empty, hdoc, ⟨later, hlater, hlists.children, ?_, ?_⟩, last, hlast, ?_, ?_⟩
  · exact hlists.others ⟨2⟩ (by decide)
  · exact hlists.dropped ⟨2⟩ (by decide) (by decide)
  · exact hchildren
  · exact hlists'.listed ⟨3⟩ (by simp)

end SvgTidy.Document
