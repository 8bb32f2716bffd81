import Mathlib.Data.List.Nodup
import Mathlib.Data.List.Perm.Subperm
import Mathlib.Logic.Relation
import SvgTidy.Proofs.Lookup

/-!
# Well-formed documents

Parent links and lists of children say the same thing twice, and moves change them separately.
`WellFormed` is what holds between them in every document that the interface can build: the root is
the only node of its kind and lies nowhere, links and lists agree, a node is in one list at most and
there only once, only containers have children, and no node lies above itself.

Principal results: `WellFormed.detach`, `WellFormed.attach`, `WellFormed.create`, `WellFormed.grow`
and `WellFormed.modify_data` — every elementary change keeps it; `chain_eq` and `mem_chain_iff` — the
budgeted way up is the whole way up.
-/

namespace SvgTidy.Document

open Relation

/-- One node lies above another: it is reached by one or more parent links. -/
def Above (doc : Document) (ancestor id : NodeId) : Prop :=
  TransGen (fun child parent => doc.parent? child = some parent) id ancestor

/-- What links, lists and kinds have in common in every document that the interface can build. -/
structure WellFormed (doc : Document) : Prop where
  root_iff : ∀ id, doc.kind? id = some .root ↔ id = root
  root_free : doc.parent? root = none
  child_known : ∀ parent, ∀ child ∈ doc.children parent, doc.knows child = true ∧ child ≠ root
  linked : ∀ parent child, child ∈ doc.children parent ↔ doc.parent? child = some parent
  nodup : ∀ parent, (doc.children parent).Nodup
  container : ∀ parent, doc.children parent ≠ [] →
    doc.kind? parent = some .root ∨ doc.kind? parent = some .element
  acyclic : ∀ id, ¬ doc.Above id id

variable {doc : Document}

theorem Above.of_parent? {id parent : NodeId} (h : doc.parent? id = some parent) :
    doc.Above parent id :=
  .single h

theorem Above.trans {a b c : NodeId} (hab : doc.Above a b) (hbc : doc.Above b c) :
    doc.Above a c :=
  TransGen.trans hbc hab

/-- Detaching adds no way up. -/
theorem Above.of_detach {id ancestor below : NodeId} (h : (doc.detach id).Above ancestor below) :
    doc.Above ancestor below := by
  refine TransGen.mono (fun a b hab => ?_) _ _ h
  rw [parent?_detach] at hab
  split at hab
  · cases hab
  · exact hab

theorem children_empty (id : NodeId) : Document.empty.children id = [] := by
  obtain ⟨index⟩ := id
  cases index <;> simp [Document.empty, children_eq, node?]

namespace WellFormed

theorem knows_root (h : doc.WellFormed) : doc.knows root = true :=
  knows_iff_kind?.mpr ⟨_, (h.root_iff root).mpr rfl⟩

theorem data?_root (h : doc.WellFormed) : doc.data? root = some .root := by
  obtain ⟨data, hdata, hkind⟩ := Option.map_eq_some_iff.mp ((h.root_iff root).mpr rfl)
  cases data <;> cases hkind
  exact hdata

theorem ne_root_of_parent? (h : doc.WellFormed) {id parent : NodeId}
    (hp : doc.parent? id = some parent) : id ≠ root := by
  rintro rfl
  rw [h.root_free] at hp
  cases hp

theorem knows_parent (h : doc.WellFormed) {id parent : NodeId}
    (hp : doc.parent? id = some parent) : doc.knows parent = true :=
  knows_of_mem_children ((h.linked parent id).mpr hp)

theorem empty : Document.empty.WellFormed := by
  have hparent (id : NodeId) : Document.empty.parent? id = none := by
    obtain ⟨index⟩ := id
    cases index <;> simp [Document.empty, parent?, node?]
  refine ⟨fun id => ?_, hparent root, fun p c hc => ?_, fun p c => ?_, fun p => ?_, fun p hp => ?_,
    fun id hid => ?_⟩
  · obtain ⟨index⟩ := id
    cases index <;> simp [Document.empty, root, kind?, data?, node?, NodeData.kind]
  · simp [children_empty] at hc
  · simp [children_empty, hparent]
  · simp [children_empty]
  · exact absurd (children_empty p) hp
  · obtain ⟨parent, hp, -⟩ := TransGen.head'_iff.mp hid
    rw [hparent] at hp
    cases hp

/-! ## Elementary changes -/

/-- Only payloads change, and none its kind. -/
theorem of_same_links {doc' : Document} (h : doc.WellFormed)
    (hkind : ∀ id, doc'.kind? id = doc.kind? id) (hparent : ∀ id, doc'.parent? id = doc.parent? id)
    (hchildren : ∀ id, doc'.children id = doc.children id) : doc'.WellFormed := by
  refine ⟨fun id => ?_, ?_, fun p c hc => ?_, fun p c => ?_, fun p => ?_, fun p hp => ?_,
    fun id hid => ?_⟩
  · rw [hkind, h.root_iff]
  · rw [hparent, h.root_free]
  · rw [knows_iff_kind?, hkind, ← knows_iff_kind?]
    exact h.child_known p c (hchildren p ▸ hc)
  · rw [hchildren, hparent, h.linked]
  · rw [hchildren]
    exact h.nodup p
  · rw [hkind]
    exact h.container p (hchildren p ▸ hp)
  · simp only [Above, hparent] at hid
    exact h.acyclic id hid

/-- A detached node is in no list of children. -/
theorem children_detach_eq (h : doc.WellFormed) (id p : NodeId) :
    (doc.detach id).children p = (doc.children p).filter (· != id) := by
  rw [children_detach]
  split
  · rfl
  · rename_i hp
    rw [List.filter_eq_self.mpr fun c hc => ?_]
    rw [bne_iff_ne]
    rintro rfl
    exact hp ((h.linked p c).mp hc)

theorem detach (h : doc.WellFormed) (id : NodeId) : (doc.detach id).WellFormed := by
  have hchildren := h.children_detach_eq id
  refine ⟨fun x => ?_, ?_, fun p c hc => ?_, fun p c => ?_, fun p => ?_, fun p hp => ?_,
    fun x hx => ?_⟩
  · rw [kind?_detach, h.root_iff]
  · rw [parent?_detach, h.root_free, ite_self]
  · rw [hchildren] at hc
    rw [knows_detach]
    exact h.child_known p c (List.mem_filter.mp hc).1
  · rw [hchildren, parent?_detach, List.mem_filter, h.linked, bne_iff_ne]
    by_cases hc : c = id <;> simp [hc]
  · rw [hchildren]
    exact (h.nodup p).filter _
  · rw [kind?_detach]
    refine h.container p fun hnil => hp ?_
    rw [hchildren, hnil, List.filter_nil]
  · exact h.acyclic x hx.of_detach

/-- A path up in the document after linking `child` to `parent` is one from before, or it passes the
new link, and then only once. -/
theorem above_attach {parent child : NodeId} {index : Nat} (hknown : doc.knows child = true)
    (hne : child ≠ parent) (habove : ¬ doc.Above child parent) {top id : NodeId}
    (hx : (doc.attach parent index child).Above top id) :
    doc.Above top id ∨
      (id = child ∨ doc.Above child id) ∧ (top = parent ∨ doc.Above top parent) := by
  have hstep {a b : NodeId} (hab : (doc.attach parent index child).parent? a = some b) :
      a = child ∧ b = parent ∨ a ≠ child ∧ doc.parent? a = some b := by
    rw [parent?_attach hknown] at hab
    split at hab
    · rename_i ha
      exact .inl ⟨ha, (Option.some.inj hab).symm⟩
    · rename_i ha
      exact .inr ⟨ha, hab⟩
  induction hx with
  | single hab =>
    rcases hstep hab with ⟨rfl, rfl⟩ | ⟨-, hold⟩
    · exact .inr ⟨.inl rfl, .inl rfl⟩
    · exact .inl (.of_parent? hold)
  | tail _ hab ih =>
    rcases hstep hab with ⟨rfl, rfl⟩ | ⟨-, hold⟩
    · rcases ih with hup | ⟨-, rfl | hup⟩
      · exact .inr ⟨.inr hup, .inl rfl⟩
      · exact absurd rfl hne
      · exact absurd hup habove
    · rcases ih with hup | ⟨hlow, rfl | hup⟩
      · exact .inl (hup.tail hold)
      · exact .inr ⟨hlow, .inr (.of_parent? hold)⟩
      · exact .inr ⟨hlow, .inr (hup.tail hold)⟩

theorem attach (h : doc.WellFormed) {parent child : NodeId} {index : Nat}
    (hparent : doc.kind? parent = some .root ∨ doc.kind? parent = some .element)
    (hknown : doc.knows child = true) (hroot : child ≠ root) (hfree : doc.parent? child = none)
    (hne : child ≠ parent) (habove : ¬ doc.Above child parent)
    (hindex : index ≤ (doc.children parent).length) :
    (doc.attach parent index child).WellFormed := by
  have hparentKnown : doc.knows parent = true := by
    rw [knows_iff_kind?]
    exact hparent.elim (fun hk => ⟨_, hk⟩) fun hk => ⟨_, hk⟩
  have hnew : child ∉ doc.children parent := by
    rw [h.linked, hfree]
    exact nofun
  refine ⟨fun x => ?_, ?_, fun p c hc => ?_, fun p c => ?_, fun p => ?_, fun p hp => ?_,
    fun x hx => ?_⟩
  · rw [kind?_attach, h.root_iff]
  · rw [parent?_attach hknown, if_neg (Ne.symm hroot), h.root_free]
  · rw [children_attach hparentKnown] at hc
    rw [knows_attach]
    split at hc
    · subst p
      rw [List.mem_insertIdx hindex] at hc
      rcases hc with rfl | hc
      · exact ⟨hknown, hroot⟩
      · exact h.child_known parent c hc
    · exact h.child_known p c hc
  · rw [children_attach hparentKnown, parent?_attach hknown]
    by_cases hp : p = parent
    · subst p
      rw [if_pos rfl, List.mem_insertIdx hindex]
      by_cases hc : c = child
      · simp [hc]
      · simp [hc, h.linked]
    · rw [if_neg hp]
      by_cases hc : c = child
      · subst c
        simp [h.linked, hfree, Ne.symm hp]
      · simp [hc, h.linked]
  · rw [children_attach hparentKnown]
    split
    · subst p
      rw [(List.perm_insertIdx child _ hindex).nodup_iff, List.nodup_cons]
      exact ⟨hnew, h.nodup parent⟩
    · exact h.nodup p
  · rw [kind?_attach]
    rw [children_attach hparentKnown] at hp
    split at hp
    · subst p
      exact hparent
    · exact h.container p hp
  · rcases above_attach hknown hne habove hx with hup | ⟨rfl | hlow, rfl | hup⟩
    · exact h.acyclic x hup
    · exact hne rfl
    · exact habove hup
    · exact habove hlow
    · exact habove (hlow.trans hup)

theorem create (h : doc.WellFormed) {data : NodeData} (hdata : data.kind ≠ .root) :
    (doc.create data).2.WellFormed := by
  refine ⟨fun id => ?_, ?_, fun p c hc => ?_, fun p c => ?_, fun p => ?_, fun p hp => ?_,
    fun id hid => ?_⟩
  · rw [kind?, data?_create]
    split
    · subst id
      have hne : doc.fresh ≠ root := (ne_fresh_of_knows h.knows_root).symm
      simp [hdata, hne]
    · exact h.root_iff id
  · rw [parent?_create, h.root_free]
  · rw [children_create] at hc
    obtain ⟨hknown, hroot⟩ := h.child_known p c hc
    refine ⟨?_, hroot⟩
    rw [knows_iff, size_create]
    exact Nat.lt_succ_of_lt (knows_iff.mp hknown)
  · rw [children_create, parent?_create, h.linked]
  · rw [children_create]
    exact h.nodup p
  · rw [children_create] at hp
    have hne : p ≠ doc.fresh := by
      rintro rfl
      exact hp children_fresh
    rw [kind?, data?_create, if_neg hne]
    exact h.container p hp
  · simp only [Above, parent?_create] at hid
    exact h.acyclic id hid

/-- Growing is creating and then attaching at the end. -/
theorem grow_eq_attach {parent : NodeId} (hknown : doc.knows parent = true) (data : NodeData) :
    doc.grow parent data =
      (doc.create data).2.attach parent (doc.children parent).length doc.fresh := by
  have hfresh : (doc.create data).2.knows doc.fresh = true := by
    simp [knows_iff, fresh]
  have hparent : (doc.create data).2.knows parent = true := by
    rw [knows_iff, size_create]
    exact Nat.lt_succ_of_lt (knows_iff.mp hknown)
  refine ext_views (fun id => ?_) (fun id => ?_) fun id => ?_
  · rw [data?_grow, data?_attach, data?_create]
  · rw [parent?_grow, parent?_attach hfresh, parent?_create]
  · rw [children_grow hknown, children_attach hparent, children_create]
    split
    · subst id
      rw [List.insertIdx_length_self]
    · rfl

theorem grow (h : doc.WellFormed) {parent : NodeId} {data : NodeData}
    (hparent : doc.kind? parent = some .root ∨ doc.kind? parent = some .element)
    (hdata : data.kind ≠ .root) : (doc.grow parent data).WellFormed := by
  have hknown : doc.knows parent = true := by
    rw [knows_iff_kind?]
    exact hparent.elim (fun hk => ⟨_, hk⟩) fun hk => ⟨_, hk⟩
  have hne : parent ≠ doc.fresh := ne_fresh_of_knows hknown
  rw [grow_eq_attach hknown]
  refine (h.create hdata).attach ?_ ?_ ?_ ?_ hne.symm ?_ ?_
  · simpa only [kind?, data?_create, if_neg hne] using hparent
  · simp [knows_iff, fresh]
  · exact (ne_fresh_of_knows h.knows_root).symm
  · rw [parent?_create, parent?_fresh]
  · -- nothing below the new node
    intro habove
    simp only [Above, parent?_create] at habove
    obtain ⟨below, -, hlast⟩ := TransGen.tail'_iff.mp habove
    exact ne_fresh_of_knows (h.knows_parent hlast) rfl
  · exact Nat.le_of_eq (by rw [children_create])

theorem modify_data (h : doc.WellFormed) (id : NodeId) {change : NodeData → NodeData}
    (hkind : ∀ data, (change data).kind = data.kind) :
    (doc.modify id fun node => { node with data := change node.data }).WellFormed := by
  exact h.of_same_links (fun x => kind?_modify_data id hkind x)
    (fun x => parent?_modify (by simp) x) fun x => children_modify (by simp) x

end WellFormed

/-! ## The way up -/

theorem climb_succ (steps : Nat) (id : NodeId) :
    doc.climb (steps + 1) id =
      id :: match doc.parent? id with
        | none => []
        | some parent => doc.climb steps parent := rfl

theorem eq_or_above_of_mem_climb {ancestor : NodeId} :
    ∀ {steps : Nat} {id : NodeId}, ancestor ∈ doc.climb steps id →
      ancestor = id ∨ doc.Above ancestor id
  | 0, _, h => by simp [climb] at h
  | steps + 1, id, h => by
    rw [climb_succ] at h
    rcases List.mem_cons.mp h with rfl | h
    · exact .inl rfl
    · cases hp : doc.parent? id with
      | none => simp [hp] at h
      | some parent =>
        simp only [hp] at h
        rcases eq_or_above_of_mem_climb h with rfl | hup
        · exact .inr (.of_parent? hp)
        · exact .inr (hup.trans (.of_parent? hp))

/-- A way up that ends within its budget is not longer with a greater one. -/
theorem climb_eq_of_length_le :
    ∀ {steps : Nat} {id : NodeId}, (doc.climb (steps + 1) id).length ≤ steps →
      doc.climb (steps + 1) id = doc.climb steps id
  | 0, _, h => by simp [climb_succ] at h
  | steps + 1, id, h => by
    rw [climb_succ] at h ⊢
    rw [climb_succ]
    cases hp : doc.parent? id with
    | none => rfl
    | some parent =>
      simp only [hp, List.length_cons] at h ⊢
      rw [climb_eq_of_length_le (Nat.le_of_succ_le_succ h)]

namespace WellFormed

theorem nodup_climb (h : doc.WellFormed) :
    ∀ (steps : Nat) (id : NodeId), (doc.climb steps id).Nodup
  | 0, _ => List.nodup_nil
  | steps + 1, id => by
    rw [climb_succ]
    cases hp : doc.parent? id with
    | none => simp
    | some parent =>
      refine List.nodup_cons.mpr ⟨fun hm => ?_, h.nodup_climb steps parent⟩
      rcases eq_or_above_of_mem_climb hm with rfl | hup
      · exact h.acyclic _ (.of_parent? hp)
      · exact h.acyclic _ (hup.trans (.of_parent? hp))

theorem knows_of_mem_climb (h : doc.WellFormed) {ancestor : NodeId} :
    ∀ {steps : Nat} {id : NodeId}, doc.knows id = true → ancestor ∈ doc.climb steps id →
      doc.knows ancestor = true
  | 0, _, _, hm => by simp [climb] at hm
  | steps + 1, id, hid, hm => by
    rw [climb_succ] at hm
    rcases List.mem_cons.mp hm with rfl | hm
    · exact hid
    · cases hp : doc.parent? id with
      | none => simp [hp] at hm
      | some parent =>
        simp only [hp] at hm
        exact h.knows_of_mem_climb (h.knows_parent hp) hm

/-- No way up is longer than the table: it names no node twice. -/
theorem length_climb_le (h : doc.WellFormed) (steps : Nat) {id : NodeId}
    (hid : doc.knows id = true) : (doc.climb steps id).length ≤ doc.nodes.size := by
  have hnodup : ((doc.climb steps id).map (·.index)).Nodup :=
    (h.nodup_climb steps id).map fun _ _ hab => NodeId_eq_iff.mpr hab
  have hsub : (doc.climb steps id).map (·.index) ⊆ List.range doc.nodes.size := by
    intro index hindex
    obtain ⟨ancestor, hm, rfl⟩ := List.mem_map.mp hindex
    exact List.mem_range.mpr (knows_iff.mp (h.knows_of_mem_climb hid hm))
  simpa using (List.subperm_of_subset hnodup hsub).length_le

theorem climb_size (h : doc.WellFormed) {id : NodeId} (hid : doc.knows id = true) :
    doc.climb (doc.nodes.size + 1) id = doc.chain id :=
  climb_eq_of_length_le (h.length_climb_le _ hid)

/-- The way up from a node is the node and the way up from its parent. -/
theorem chain_eq (h : doc.WellFormed) {id : NodeId} (hid : doc.knows id = true) :
    doc.chain id =
      id :: match doc.parent? id with
        | none => []
        | some parent => doc.chain parent := by
  rw [← h.climb_size hid, climb_succ]
  rfl

theorem mem_chain_iff (h : doc.WellFormed) {ancestor id : NodeId} (hid : doc.knows id = true) :
    ancestor ∈ doc.chain id ↔ ancestor = id ∨ doc.Above ancestor id := by
  refine ⟨eq_or_above_of_mem_climb, ?_⟩
  rintro (rfl | hup)
  · rw [h.chain_eq hid]
    exact List.mem_cons_self
  · induction hup using TransGen.head_induction_on with
    | single hp =>
      rw [h.chain_eq hid, hp]
      refine List.mem_cons_of_mem _ ?_
      simp only
      rw [h.chain_eq (h.knows_parent hp)]
      exact List.mem_cons_self
    | head hp _ ih =>
      rw [h.chain_eq hid, hp]
      exact List.mem_cons_of_mem _ (ih (h.knows_parent hp))

end WellFormed

end SvgTidy.Document
