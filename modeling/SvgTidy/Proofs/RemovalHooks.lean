import SvgTidy.Proofs.Histories
import SvgTidy.Proofs.ThinnedTrees

/-!
# Hooks that only take away

Some hooks make no calls but those that remove a node or edit a payload. A document then loses links
to parents and gains none (`Document.Shrinks`): lists of children get shorter, what remains in them
keeps its order, and what is left of the forest is thinned.

Principal results: `Call.shrinks` — one call; `Visitor.TakesAway.shrinks` — one call of a hook;
`Shrinks.thinned` — the document that is left, as a tree.
-/

namespace SvgTidy

namespace Document

variable {doc mid later : Document} {id parent : NodeId}

/-- Some nodes were taken out, payloads may be other ones of the same kind, and nothing else has
changed. -/
structure Shrinks (doc later : Document) : Prop where
  wellFormed : later.WellFormed
  kind? : ∀ id, later.kind? id = doc.kind? id
  parent? : ∀ id, later.parent? id = doc.parent? id ∨ later.parent? id = none
  children : ∀ id, later.children id =
    (doc.children id).filter fun child => (later.parent? child).isSome

namespace Shrinks

theorem of_same (hlater : later.WellFormed) (hdoc : doc.WellFormed)
    (hkind : ∀ id, later.kind? id = doc.kind? id) (hparent : ∀ id, later.parent? id = doc.parent? id)
    (hchildren : ∀ id, later.children id = doc.children id) : doc.Shrinks later := by
  refine ⟨hlater, hkind, fun id => .inl (hparent id), fun id => ?_⟩
  rw [hchildren]
  refine (List.filter_eq_self.mpr fun child hchild => ?_).symm
  rw [hparent, (hdoc.linked id child).mp hchild]
  rfl

theorem refl (hdoc : doc.WellFormed) : doc.Shrinks doc :=
  of_same hdoc hdoc (fun _ => rfl) (fun _ => rfl) fun _ => rfl

theorem trans (h : doc.Shrinks mid) (h' : mid.Shrinks later) : doc.Shrinks later := by
  refine ⟨h'.wellFormed, fun id => (h'.kind? id).trans (h.kind? id), fun id => ?_, fun id => ?_⟩
  · rcases h'.parent? id with hsame | hnone
    · rw [hsame]
      exact h.parent? id
    · exact .inr hnone
  · rw [h'.children, h.children, List.filter_filter]
    refine List.filter_congr fun child _ => ?_
    rcases h'.parent? child with hsame | hnone
    · rw [hsame, Bool.and_self]
    · rw [hnone, Option.isSome_none, Bool.false_and]

theorem detach (hdoc : doc.WellFormed) (id : NodeId) : doc.Shrinks (doc.detach id) := by
  refine ⟨hdoc.detach id, kind?_detach id, fun x => ?_, fun x => ?_⟩
  · rw [parent?_detach]
    split
    · exact .inr rfl
    · exact .inl rfl
  · rw [hdoc.children_detach_eq]
    refine List.filter_congr fun child hchild => ?_
    rw [parent?_detach, (hdoc.linked x child).mp hchild]
    by_cases hid : child = id <;> simp [hid]

theorem modify_data (hdoc : doc.WellFormed) (id : NodeId) {change : NodeData → NodeData}
    (hkind : ∀ data, (change data).kind = data.kind) :
    doc.Shrinks (doc.modify id fun node => { node with data := change node.data }) := by
  exact of_same (hdoc.modify_data id hkind) hdoc (kind?_modify_data id hkind)
    (fun x => parent?_modify (by simp) x) fun x => children_modify (by simp) x

/-- A parent that is left was the parent before. -/
theorem parent?_of_some (h : doc.Shrinks later) (hlink : later.parent? id = some parent) :
    doc.parent? id = some parent := by
  rcases h.parent? id with hsame | hnone
  · rw [← hsame, hlink]
  · rw [hnone] at hlink
    cases hlink

theorem children_sublist (h : doc.Shrinks later) (id : NodeId) :
    (later.children id).Sublist (doc.children id) := by
  rw [h.children]
  exact List.filter_sublist

theorem knows (h : doc.Shrinks later) (hid : doc.knows id = true) : later.knows id = true := by
  rw [knows_iff_kind?] at hid ⊢
  rwa [h.kind?]

/-! ## The tree that is left -/

/-- What remains of a node when a document has become another one: nothing if it has lost its parent,
else the payload that it has now. -/
def remains (later : Document) (id : NodeId) (_ : NodeData) : Option NodeData :=
  if (later.parent? id).isSome then later.data? id else none

theorem isSome_remaining? (h : doc.Shrinks later) (hid : doc.knows id = true) :
    (doc.remaining? (remains later) id).isSome = (later.parent? id).isSome := by
  obtain ⟨data, hdata⟩ := knows_iff_data?.mp hid
  obtain ⟨data', hdata'⟩ := knows_iff_data?.mp (h.knows hid)
  rw [remaining?, hdata, Option.bind_some, remains, hdata']
  cases later.parent? id <;> rfl

theorem children_eq (h : doc.Shrinks later) (hdoc : doc.WellFormed) (id : NodeId) :
    later.children id =
      (doc.children id).filter fun child => (doc.remaining? (remains later) child).isSome := by
  rw [h.children]
  exact List.filter_congr fun child hchild =>
    (h.isSome_remaining? (hdoc.child_known id child hchild).1).symm

theorem shows (h : doc.Shrinks later) (hdoc : doc.WellFormed) {t : Tree} (ht : doc.Shows t) :
    ∀ s ∈ t.thin (remains later), later.Shows s := by
  induction ht with
  | @node id data children hdata hchildren hbelow ih =>
    intro s hs
    cases hremains : remains later id data with
    | none =>
      rw [Tree.thin_of_none hremains] at hs
      cases hs
    | some data' =>
      rw [Tree.thin_of_some hremains, List.mem_singleton] at hs
      subst hs
      refine .node ?_ ?_ fun t ht => ?_
      · unfold remains at hremains
        split at hremains
        · exact hremains
        · cases hremains
      · rw [h.children_eq hdoc, hchildren, map_id_thinAll hbelow]
      · rw [Tree.thinAll_eq_flatMap] at ht
        obtain ⟨u, hu, htu⟩ := List.mem_flatMap.mp ht
        exact ih u hu t htu

/-- **What is left is the forest without the subtrees that were taken out.** -/
theorem thinned (h : doc.Shrinks later) (hdoc : doc.WellFormed) :
    doc.Thinned later (remains later) := by
  obtain ⟨hroot, hshows, -⟩ := hdoc.forest_spec
  refine .of_forest hdoc h.wellFormed (h.wellFormed.forest_unique ?_ fun s hs => ?_)
  · rw [h.children_eq hdoc, hroot, map_id_thinAll hshows]
  · rw [Tree.thinAll_eq_flatMap] at hs
    obtain ⟨t, ht, hst⟩ := List.mem_flatMap.mp hs
    exact h.shows hdoc (hshows t ht) s hst

end Shrinks

end Document

/-! ## Calls and hooks -/

open Document (Shrinks)

/-- A call that removes a node or edits a payload. -/
def Call.takesAway : Call → Bool
  | .remove _ | .updateElement .. | .updateInstruction .. | .updateValue .. => true
  | _ => false

theorem Call.shrinks {doc : Document} (hdoc : doc.WellFormed) {call : Call}
    (h : call.takesAway = true) : doc.Shrinks (call.apply doc) := by
  cases call with
  | remove id =>
    rw [Call.apply, Document.outcome_remove]
    split
    · exact .refl hdoc
    · split
      · exact .refl hdoc
      · exact .detach hdoc id
  | updateElement id change => exact .modify_data hdoc id (NodeData.kind_mapElement change)
  | updateInstruction id change => exact .modify_data hdoc id (NodeData.kind_mapInstruction change)
  | updateValue id change => exact .modify_data hdoc id (NodeData.kind_mapValue change)
  | _ => cases h

theorem Call.shrinks_foldl {calls : List Call} (h : ∀ call ∈ calls, call.takesAway = true)
    {doc : Document} (hdoc : doc.WellFormed) : doc.Shrinks (calls.foldl Call.apply doc) := by
  induction calls generalizing doc with
  | nil => exact .refl hdoc
  | cons call rest ih =>
    have hfirst := Call.shrinks hdoc (h call List.mem_cons_self)
    exact hfirst.trans (ih (fun c hc => h c (List.mem_cons_of_mem _ hc)) hfirst.wellFormed)

/-- Whatever a hook is called on, it makes no calls but such that take away. -/
def Hook.TakesAway {S : Slots} {Memory α : Type} (hook : Hook S Memory α) : Prop :=
  ∀ bench, ∃ calls : List Call, (∀ call ∈ calls, call.takesAway = true) ∧
    (outcome hook bench).2.doc = calls.foldl Call.apply bench.doc

/-- All hooks of a visitor only take away. -/
def Visitor.TakesAway {S : Slots} (visitor : Visitor S) : Prop :=
  ∀ phase site, (visitor.hook phase site).TakesAway

/-- All visitors of a plugin only take away. -/
def Plugin.TakesAway {S : Slots} (plugin : Plugin S) : Prop :=
  ∀ info doc context visitor, (plugin.visitor info doc context).1 = some visitor →
    visitor.TakesAway

namespace Hook.TakesAway

variable {S : Slots} {Memory α β : Type}

theorem pure (value : α) : Hook.TakesAway (Pure.pure value : Hook S Memory α) :=
  fun _ => ⟨[], List.forall_mem_nil _, rfl⟩

theorem bind {hook : Hook S Memory α} {next : α → Hook S Memory β} (hhook : hook.TakesAway)
    (hnext : ∀ value, (next value).TakesAway) : Hook.TakesAway (hook >>= next) := by
  intro bench
  obtain ⟨calls, htakes, hcalls⟩ := hhook bench
  rw [outcome_bind]
  cases hon : outcome hook bench with
  | mk result after =>
    rw [hon] at hcalls
    cases result with
    | error error => exact ⟨calls, htakes, hcalls⟩
    | ok value =>
      obtain ⟨more, htakes', hmore⟩ := hnext value after
      exact ⟨calls ++ more, List.forall_mem_append.mpr ⟨htakes, htakes'⟩,
        by rw [hmore, hcalls, List.foldl_append]⟩

theorem updateElement (id : NodeId) (change : Element → Element) :
    Hook.TakesAway (Hook.change (·.updateElement id change) : Hook S Memory Unit) :=
  fun _ => ⟨[.updateElement id change], List.forall_mem_singleton.mpr rfl, rfl⟩

theorem remove (id : NodeId) :
    Hook.TakesAway (Hook.edit (Document.remove id) : Hook S Memory Unit) := by
  refine fun bench => ⟨[.remove id], List.forall_mem_singleton.mpr rfl, ?_⟩
  rw [outcome_edit, List.foldl_cons, List.foldl_nil, Call.apply]
  obtain ⟨_ | _, _⟩ := outcome (Document.remove id) bench.doc <;> rfl

end Hook.TakesAway

theorem Visitor.TakesAway.shrinks {S : Slots} {visitor : Visitor S} (h : visitor.TakesAway)
    (phase : Phase) (site : Site) (bench : Workbench S visitor.Memory)
    (hdoc : bench.doc.WellFormed) :
    bench.doc.Shrinks (outcome (visitor.hook phase site) bench).2.doc := by
  obtain ⟨calls, htakes, hcalls⟩ := h phase site bench
  rw [hcalls]
  exact Call.shrinks_foldl htakes hdoc

end SvgTidy
