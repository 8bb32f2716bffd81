import SvgTidy.Proofs.DocumentOrder
import SvgTidy.Proofs.Histories
import SvgTidy.Proofs.UnboundedLoops

/-!
# Finding one's way in a document

Three walks go through a document without counting their steps: up from a node until the root is met,
up from a node until a given one is met, and down from a node with a stack of what is still to be
visited. `rootRound`, `cycleRound` and `walkRound` are one round of each. On a table of nodes that is
no tree they may run forever or meet a node twice; `Navigable` says that this does not happen, and
that what they find agrees with the links, with the lists of children and with each other.

Principal results: `WellFormed.ends_rootRound`, `WellFormed.ends_cycleRound` and
`WellFormed.ends_walkRound` — the walks come to an end, with what the walks with a budget find;
`WellFormed.nextSibling?_iff` and `WellFormed.previousSibling?_iff` — siblings are neighbours;
`navigable_of_history` — all of it, in every document that can be reached.
-/

namespace SvgTidy.Document

open SvgTidy.Tree (ids idsAll mem_idsAll idsAll_append)

variable {doc : Document} {id parent : NodeId}

/-! ## The walks -/

/-- Going up until the root is met: at a node, one is there, one goes on at the parent, or there is
none. -/
def rootRound (doc : Document) (id : NodeId) : Round NodeId Bool :=
  if id = root then .done true
  else
    match doc.parent? id with
    | some parent => .again parent
    | none => .done false

/-- Going up until a given node is met, or no node is left. -/
def cycleRound (doc : Document) (child : NodeId) : Option NodeId → Round (Option NodeId) Bool
  | none => .done false
  | some id => if id = child then .done true else .again (doc.parent? id)

/-- A walk downwards: the nodes to visit, the next one last, and those that have been visited. -/
structure Walk where
  stack : List NodeId
  visited : List NodeId

/-- Before the nodes below one are visited. -/
def walkBelow (doc : Document) (id : NodeId) : Walk :=
  ⟨(doc.children id).reverse, []⟩

/-- Taking the next node from the stack and putting its children there. -/
def walkRound (doc : Document) (walk : Walk) : Round Walk (List NodeId) :=
  match walk.stack.getLast? with
  | none => .done walk.visited
  | some id =>
    .again ⟨walk.stack.dropLast ++ (doc.children id).reverse, walk.visited ++ [id]⟩

/-! ## Upwards -/

namespace WellFormed

section Upwards

variable (h : doc.WellFormed)
include h

/-- The way up from a node that need not be known. -/
theorem chain_cons (id : NodeId) :
    doc.chain id = id :: (doc.parent? id).elim [] doc.chain := by
  by_cases hid : doc.knows id = true
  · rw [h.chain_eq hid]
    cases doc.parent? id <;> rfl
  · have hsize : doc.nodes.size ≠ 0 := Nat.ne_zero_of_lt (knows_iff.mp h.knows_root)
    obtain ⟨size, hsize⟩ := Nat.exists_eq_succ_of_ne_zero hsize
    have hparent : doc.parent? id = none := by
      cases hparent : doc.parent? id with
      | none => rfl
      | some parent => exact absurd (knows_of_parent? hparent) hid
    rw [chain, hsize, climb_succ, hparent]
    rfl

/-- What holds of a node if it holds of its parent holds of every node. -/
theorem climb_induct {motive : NodeId → Prop}
    (step : ∀ id, (∀ parent, doc.parent? id = some parent → motive parent) → motive id)
    (id : NodeId) : motive id := by
  -- the way up from the parent is shorter by one node
  generalize hlength : (doc.chain id).length = length
  induction length using Nat.strongRecOn generalizing id with
  | ind length ih =>
    apply step
    intro parent hparent
    rw [h.chain_cons, hparent] at hlength
    exact ih _ (by simp [← hlength]) parent rfl

/-- **The walk up to the root ends**, and tells whether the node is attached. -/
theorem ends_rootRound (id : NodeId) : Ends doc.rootRound id (doc.isAttached id) := by
  induction id using h.climb_induct with
  | step id ih =>
    by_cases hroot : id = root
    · have hattached : doc.isAttached id = true := h.isAttached_iff.mpr (.inl hroot)
      rw [hattached]
      exact .done (by rw [rootRound, if_pos hroot])
    · have hattached : doc.isAttached id = (doc.parent? id).elim false doc.isAttached := by
        have hne : (root == id) = false := by simpa using Ne.symm hroot
        rw [isAttached, h.chain_cons, List.contains_cons, hne, Bool.false_or]
        cases doc.parent? id <;> rfl
      rw [hattached]
      cases hparent : doc.parent? id with
      | none => exact .done (by rw [rootRound, if_neg hroot, hparent]; rfl)
      | some parent => exact .again (by rw [rootRound, if_neg hroot, hparent]) (ih parent hparent)

/-- **The walk up to a given node ends**, and tells whether that node lies on the way up. -/
theorem ends_cycleRound (child id : NodeId) :
    Ends (doc.cycleRound child) (some id) (decide (child ∈ doc.chain id)) := by
  induction id using h.climb_induct with
  | step id ih =>
    rw [h.chain_cons id]
    by_cases hchild : id = child
    · have hmem : child ∈ id :: (doc.parent? id).elim [] doc.chain := by simp [hchild]
      rw [decide_eq_true hmem]
      exact .done (by rw [cycleRound, if_pos hchild])
    · have hround : doc.cycleRound child (some id) = .again (doc.parent? id) := by
        rw [cycleRound, if_neg hchild]
      cases hparent : doc.parent? id with
      | none =>
        have hnot : child ∉ id :: (none : Option NodeId).elim [] doc.chain := by
          simpa using Ne.symm hchild
        rw [decide_eq_false hnot]
        exact .again (hround.trans (by rw [hparent])) (.done rfl)
      | some parent =>
        have hmem : child ∈ id :: (some parent).elim [] doc.chain ↔ child ∈ doc.chain parent := by
          simp [Ne.symm hchild]
        rw [decide_eq_decide.mpr hmem]
        exact .again (hround.trans (by rw [hparent])) (ih parent hparent)

end Upwards

/-! ## Downwards -/

/-- With the tops of some trees on the stack, the first one last, the walk goes through the trees. -/
theorem ends_walk_of_shows (visited : List NodeId) {trees : List Tree}
    (hshows : ∀ t ∈ trees, doc.Shows t) :
    Ends doc.walkRound ⟨(trees.map Tree.id).reverse, visited⟩ (visited ++ idsAll trees) := by
  generalize hlength : (idsAll trees).length = length
  induction length using Nat.strongRecOn generalizing trees visited with
  | ind length ih =>
    cases trees with
    | nil =>
      rw [idsAll, List.append_nil]
      exact .done rfl
    | cons t others =>
      obtain ⟨id, data, children⟩ := t
      have hchildren : doc.children id = children.map Tree.id :=
        (hshows _ List.mem_cons_self).children
      have hbelow : ∀ t ∈ children ++ others, doc.Shows t := by
        intro t ht
        rcases List.mem_append.mp ht with ht | ht
        · exact (hshows _ List.mem_cons_self).subtrees t ht
        · exact hshows t (List.mem_cons_of_mem _ ht)
      rw [idsAll, ids, List.cons_append, ← idsAll_append, List.length_cons] at hlength
      have hrest := ih _ (by omega) (visited ++ [id]) hbelow rfl
      rw [idsAll, ids, List.cons_append, ← idsAll_append, List.append_cons]
      refine .again ?_ hrest
      rw [walkRound]
      simp [hchildren, Tree.id]

section Downwards

variable (h : doc.WellFormed)
include h

/-- The trees of the children of a node, which need not be known. -/
theorem exists_trees (id : NodeId) : ∃ trees : List Tree,
    doc.children id = trees.map Tree.id ∧ ∀ t ∈ trees, doc.Shows t := by
  by_cases hid : doc.knows id = true
  · obtain ⟨t, rfl, hshows, -⟩ := h.exists_shows (doc.nodes.size + 1) id hid (by omega)
    exact ⟨t.children, hshows.children, hshows.subtrees⟩
  · refine ⟨[], ?_, by simp⟩
    by_contra hne
    obtain ⟨child, hchild⟩ := List.exists_mem_of_ne_nil _ hne
    exact hid (knows_of_mem_children hchild)

/-- **The walk downwards ends**, and visits what the walk with a budget meets. -/
theorem ends_walkRound (id : NodeId) :
    Ends doc.walkRound (doc.walkBelow id) (doc.descendants id) := by
  obtain ⟨trees, hchildren, hshows⟩ := h.exists_trees id
  rw [walkBelow, h.descendants_of_trees hchildren hshows, hchildren]
  exact ends_walk_of_shows [] hshows

/-- **No node is visited twice.** -/
theorem nodup_descendants (id : NodeId) : (doc.descendants id).Nodup := by
  obtain ⟨trees, hchildren, hshows⟩ := h.exists_trees id
  rw [h.descendants_of_trees hchildren hshows]
  exact h.nodup_trees hchildren hshows

/-- **The nodes visited are those below.** -/
theorem mem_descendants_iff {x : NodeId} : x ∈ doc.descendants id ↔ doc.Above id x := by
  obtain ⟨trees, hchildren, hshows⟩ := h.exists_trees id
  rw [h.descendants_of_trees hchildren hshows]
  exact h.mem_trees_iff hchildren hshows

/-- **The order of the visits**: every child before the nodes below it, and these before the next
child. -/
theorem descendants_eq (id : NodeId) :
    doc.descendants id = (doc.children id).flatMap fun child => child :: doc.descendants child := by
  obtain ⟨trees, hchildren, hshows⟩ := h.exists_trees id
  rw [h.descendants_of_trees hchildren hshows, hchildren]
  clear hchildren
  induction trees with
  | nil => rfl
  | cons t others ih =>
    have ht := hshows t List.mem_cons_self
    have hids : t.ids = t.id :: doc.descendants t.id := by
      rw [h.descendants_of_trees ht.children ht.subtrees]
      cases t
      rfl
    rw [idsAll, List.map_cons, List.flatMap_cons, hids,
      ih fun s hs => hshows s (List.mem_cons_of_mem _ hs)]

end Downwards

/-! ## Beside a node -/

section Siblings

variable (h : doc.WellFormed)
include h

/-- A node has one place among the children of its parent. -/
theorem index?_eq_some_iff {i : Nat} (hparent : doc.parent? id = some parent) :
    doc.index? id = some i ↔ (doc.children parent)[i]? = some id := by
  rw [index?, hparent, Option.bind_some, List.idxOf?_eq_some_iff, List.getElem?_eq_some_iff]
  constructor
  · rintro ⟨hi, heq, -⟩
    exact ⟨hi, heq⟩
  · rintro ⟨hi, heq⟩
    refine ⟨hi, heq, fun j hj hsame => ?_⟩
    have hplace : j = i := (h.nodup parent).getElem_inj_iff.mp (hsame.trans heq.symm)
    omega

/-- **Where a node stands among the children of its parent**, and its neighbours there. -/
theorem exists_index? (hparent : doc.parent? id = some parent) :
    ∃ i, doc.index? id = some i ∧ (doc.children parent)[i]? = some id ∧
      doc.nextSibling? id = (doc.children parent)[i + 1]? ∧
      doc.previousSibling? id = if i = 0 then none else (doc.children parent)[i - 1]? := by
  obtain ⟨i, hi⟩ := List.mem_iff_getElem?.mp ((h.linked parent id).mpr hparent)
  have hindex := (h.index?_eq_some_iff hparent).mpr hi
  refine ⟨i, hindex, hi, ?_, ?_⟩
  · simp [nextSibling?, hparent, hindex]
  · simp [previousSibling?, hparent, hindex]

/-- **The sibling after a node is the one it comes before.** -/
theorem nextSibling?_eq_iff {next : NodeId} :
    doc.nextSibling? id = some next ↔ doc.previousSibling? next = some id := by
  constructor
  · intro hnext
    cases hparent : doc.parent? id with
    | none => simp [nextSibling?, hparent] at hnext
    | some parent =>
      obtain ⟨i, -, hi, heq, -⟩ := h.exists_index? hparent
      rw [heq] at hnext
      have hlink := (h.linked _ _).mp (List.mem_of_getElem? hnext)
      have hindex := (h.index?_eq_some_iff hlink).mpr hnext
      simp [previousSibling?, hlink, hindex, hi]
  · intro hprevious
    cases hparent : doc.parent? next with
    | none => simp [previousSibling?, hparent] at hprevious
    | some parent =>
      obtain ⟨i, -, hi, -, heq⟩ := h.exists_index? hparent
      rw [heq] at hprevious
      split at hprevious
      · cases hprevious
      · have hlink := (h.linked _ _).mp (List.mem_of_getElem? hprevious)
        have hindex := (h.index?_eq_some_iff hlink).mpr hprevious
        have hstep : i - 1 + 1 = i := by omega
        simp [nextSibling?, hlink, hindex, hstep, hi]

end Siblings

end WellFormed

/-! ## All of it -/

theorem map_fst_elements :
    doc.elements.map (·.1) = (doc.descendants root).filter fun id => (doc.element? id).isSome := by
  rw [elements, List.map_filterMap, ← List.filterMap_eq_filter]
  apply List.filterMap_congr
  intro id _
  cases hdata : doc.element? id <;> simp [Option.guard, hdata]

/-- The walks through a document come to an end, and what they find agrees. -/
structure Navigable (doc : Document) : Prop where
  attached : ∀ id, Ends doc.rootRound id (doc.isAttached id)
  cycle : ∀ child id, Ends (doc.cycleRound child) (some id) (decide (child ∈ doc.chain id))
  walk : ∀ id, Ends doc.walkRound (doc.walkBelow id) (doc.descendants id)
  /-- Downwards one meets the nodes below, -/
  below : ∀ id x, x ∈ doc.descendants id ↔ doc.Above id x
  /-- each of them once, -/
  once : ∀ id, (doc.descendants id).Nodup
  /-- every child before what lies below it, and this before the next child. -/
  order : ∀ id,
    doc.descendants id = (doc.children id).flatMap fun child => child :: doc.descendants child
  /-- Upwards one meets the root from the nodes that are met downwards from it. -/
  reached : ∀ id, doc.isAttached id = true ↔ id = root ∨ id ∈ doc.descendants root
  /-- A node is looked up where it stands among the children of its parent. -/
  placed : ∀ id parent, doc.parent? id = some parent → ∃ i, doc.index? id = some i ∧
    (doc.children parent)[i]? = some id ∧ doc.nextSibling? id = (doc.children parent)[i + 1]? ∧
    doc.previousSibling? id = if i = 0 then none else (doc.children parent)[i - 1]?
  siblings : ∀ id next, doc.nextSibling? id = some next ↔ doc.previousSibling? next = some id
  /-- The elements that are listed are the attached ones, -/
  elements : ∀ id e, (id, e) ∈ doc.elements ↔ doc.isAttached id = true ∧ doc.element? id = some e
  /-- in the order in which one meets them. -/
  listed : doc.elements.map (·.1) =
    (doc.descendants root).filter fun id => (doc.element? id).isSome

theorem WellFormed.navigable (h : doc.WellFormed) : doc.Navigable where
  attached := h.ends_rootRound
  cycle := h.ends_cycleRound
  walk := h.ends_walkRound
  below _ _ := h.mem_descendants_iff
  once := h.nodup_descendants
  order := h.descendants_eq
  reached id := by rw [h.isAttached_iff, h.mem_descendants_iff]
  placed _ _ := h.exists_index?
  siblings _ _ := h.nextSibling?_eq_iff
  elements _ _ := h.mem_elements
  listed := map_fst_elements

/-- **In every document of a history one finds one's way**: the walks come to an end, and what they
find agrees. -/
theorem navigable_of_history {first : Document} (hfirst : first.Initial)
    (hdoc : History first doc) : doc.Navigable :=
  (wellFormed_of_history hfirst hdoc .refl).1.navigable

/-- The comment and the group of the drawing, from below and from above. -/
theorem navigable_of_history_drawing :
    Initial .empty ∧ History .empty drawing ∧ drawing.Navigable ∧
      drawing.descendants root = [⟨1⟩, ⟨3⟩, ⟨2⟩] ∧ drawing.nextSibling? ⟨3⟩ = some ⟨2⟩ := by
  have hdrawing : History .empty drawing := .calls _ .empty
  exact ⟨.empty, hdrawing, navigable_of_history .empty hdrawing, by decide +kernel, by decide +kernel⟩

end SvgTidy.Document
