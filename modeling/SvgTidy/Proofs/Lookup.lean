import SvgTidy.Document.Edit

/-!
# What an edit does to each look-up

A document is seen through `data?`, `parent?` and `children`. Each elementary change (`modify`,
`create`, `grow`, `detach`, `attach` and the payload updates) has one equation for each of the three
views; nothing after this module opens the table of nodes again.

Principal results: `parent?_detach`, `children_detach`, `parent?_attach`, `children_attach` — the
two halves of a move; `data?_grow`, `parent?_grow`, `children_grow` — the step of the reader.
-/

namespace SvgTidy.Document

variable {doc : Document}

/-- The identifier that the next node gets. -/
def fresh (doc : Document) : NodeId :=
  ⟨doc.nodes.size⟩

theorem NodeId_eq_iff {a b : NodeId} : a = b ↔ a.index = b.index := by
  cases a; cases b; simp

theorem knows_iff {id : NodeId} : doc.knows id = true ↔ id.index < doc.nodes.size := by
  simp [knows, node?]

theorem knows_iff_data? {id : NodeId} : doc.knows id = true ↔ ∃ data, doc.data? id = some data := by
  rw [← Option.isSome_iff_exists]
  simp [knows, data?]

theorem knows_iff_kind? {id : NodeId} : doc.knows id = true ↔ ∃ kind, doc.kind? id = some kind := by
  rw [← Option.isSome_iff_exists]
  simp [knows, kind?, data?]

theorem children_eq (id : NodeId) :
    doc.children id = ((doc.node? id).map (·.children)).getD [] := by
  unfold children
  cases doc.node? id <;> rfl

theorem knows_of_parent? {id parent : NodeId} (h : doc.parent? id = some parent) :
    doc.knows id = true := by
  unfold parent? at h
  unfold knows
  cases hn : doc.node? id with
  | none => simp [hn] at h
  | some _ => rfl

theorem knows_of_mem_children {id child : NodeId} (h : child ∈ doc.children id) :
    doc.knows id = true := by
  unfold children at h
  unfold knows
  cases hn : doc.node? id with
  | none => simp [hn] at h
  | some _ => rfl

theorem ne_fresh_of_knows {id : NodeId} (h : doc.knows id = true) : id ≠ doc.fresh := by
  rintro rfl
  rw [knows_iff] at h
  exact Nat.lt_irrefl _ h

@[simp] theorem knows_fresh : doc.knows doc.fresh = false := by
  rw [Bool.eq_false_iff]
  exact fun h => ne_fresh_of_knows h rfl

theorem parent?_fresh : doc.parent? doc.fresh = none := by
  simp [parent?, node?, fresh]

theorem children_fresh : doc.children doc.fresh = [] := by
  simp [children, node?, fresh]

theorem node?_eq_of_views {a b : Document} {id : NodeId} (hdata : a.data? id = b.data? id)
    (hparent : a.parent? id = b.parent? id) (hchildren : a.children id = b.children id) :
    a.node? id = b.node? id := by
  simp only [data?, parent?, children_eq] at hdata hparent hchildren
  cases ha : a.node? id with
  | none =>
    cases hb : b.node? id with
    | none => rfl
    | some y => simp [ha, hb] at hdata
  | some x =>
    cases hb : b.node? id with
    | none => simp [ha, hb] at hdata
    | some y =>
      obtain ⟨px, cx, dx⟩ := x
      obtain ⟨py, cy, dy⟩ := y
      simp_all

/-- A document is what the three views show of it. -/
theorem ext_views {a b : Document} (hdata : ∀ id, a.data? id = b.data? id)
    (hparent : ∀ id, a.parent? id = b.parent? id)
    (hchildren : ∀ id, a.children id = b.children id) : a = b := by
  obtain ⟨xs⟩ := a
  obtain ⟨ys⟩ := b
  have hxy : xs = ys :=
    Array.ext_getElem? fun i => node?_eq_of_views (hdata ⟨i⟩) (hparent ⟨i⟩) (hchildren ⟨i⟩)
  rw [hxy]

/-! ## Changing one entry -/

@[simp] theorem size_modify (id : NodeId) (change : Node → Node) :
    (doc.modify id change).nodes.size = doc.nodes.size := by
  simp [modify]

theorem node?_modify (id other : NodeId) (change : Node → Node) :
    (doc.modify id change).node? other =
      if other = id then (doc.node? other).map change else doc.node? other := by
  simp only [node?, modify, Array.getElem?_modify, NodeId_eq_iff, eq_comm]

theorem data?_modify {id : NodeId} {change : Node → Node}
    (h : ∀ node, (change node).data = node.data) (other : NodeId) :
    (doc.modify id change).data? other = doc.data? other := by
  simp only [data?, node?_modify]
  split
  · cases doc.node? other <;> simp [h]
  · rfl

theorem parent?_modify {id : NodeId} {change : Node → Node}
    (h : ∀ node, (change node).parent = node.parent) (other : NodeId) :
    (doc.modify id change).parent? other = doc.parent? other := by
  simp only [parent?, node?_modify]
  split
  · cases doc.node? other <;> simp [h]
  · rfl

theorem children_modify {id : NodeId} {change : Node → Node}
    (h : ∀ node, (change node).children = node.children) (other : NodeId) :
    (doc.modify id change).children other = doc.children other := by
  simp only [children_eq, node?_modify]
  split
  · cases doc.node? other <;> simp [h]
  · rfl

/-- Setting a parent link. -/
theorem parent?_modify_parent {id : NodeId} (h : doc.knows id = true) (parent : Option NodeId)
    (other : NodeId) :
    (doc.modify id fun node => { node with parent }).parent? other =
      if other = id then parent else doc.parent? other := by
  simp only [parent?, node?_modify]
  split
  · subst other
    obtain ⟨node, hnode⟩ := Option.isSome_iff_exists.mp h
    simp [hnode]
  · rfl

/-- Changing a list of children. -/
theorem children_modify_children {id : NodeId} (h : doc.knows id = true)
    (change : List NodeId → List NodeId) (other : NodeId) :
    (doc.modify id fun node => { node with children := change node.children }).children other =
      if other = id then change (doc.children other) else doc.children other := by
  simp only [children_eq, node?_modify]
  split
  · subst other
    obtain ⟨node, hnode⟩ := Option.isSome_iff_exists.mp h
    simp [hnode]
  · rfl

/-- Changing a payload. -/
theorem data?_modify_data (id : NodeId) (change : NodeData → NodeData) (other : NodeId) :
    (doc.modify id fun node => { node with data := change node.data }).data? other =
      if other = id then (doc.data? other).map change else doc.data? other := by
  simp only [data?, node?_modify]
  split
  · cases doc.node? other <;> rfl
  · rfl

/-- Changing a payload to one of its kind. -/
theorem kind?_modify_data (id : NodeId) {change : NodeData → NodeData}
    (hkind : ∀ data, (change data).kind = data.kind) (other : NodeId) :
    (doc.modify id fun node => { node with data := change node.data }).kind? other =
      doc.kind? other := by
  simp only [kind?, data?_modify_data]
  split
  · cases doc.data? other <;> simp [hkind]
  · rfl

@[simp] theorem knows_modify (id other : NodeId) (change : Node → Node) :
    (doc.modify id change).knows other = doc.knows other := by
  rw [Bool.eq_iff_iff, knows_iff, knows_iff, size_modify]

/-! ## Adding a node -/

theorem node?_push (doc : Document) (node : Node) (other : NodeId) :
    (⟨doc.nodes.push node⟩ : Document).node? other =
      if other = doc.fresh then some node else doc.node? other := by
  simp only [node?, Array.getElem?_push, fresh, NodeId_eq_iff]

@[simp] theorem create_fst (data : NodeData) : (doc.create data).1 = doc.fresh := rfl

@[simp] theorem size_create (data : NodeData) :
    (doc.create data).2.nodes.size = doc.nodes.size + 1 := by
  simp [create]

theorem data?_create (data : NodeData) (other : NodeId) :
    (doc.create data).2.data? other =
      if other = doc.fresh then some data else doc.data? other := by
  simp only [create, data?, node?_push]
  split <;> rfl

theorem parent?_create (data : NodeData) (other : NodeId) :
    (doc.create data).2.parent? other = doc.parent? other := by
  simp only [create, parent?, node?_push]
  split
  · subst other
    exact parent?_fresh.symm
  · rfl

theorem children_create (data : NodeData) (other : NodeId) :
    (doc.create data).2.children other = doc.children other := by
  simp only [create, children_eq, node?_push]
  split
  · subst other
    simpa [children_eq] using children_fresh.symm
  · rfl

@[simp] theorem size_grow (parent : NodeId) (data : NodeData) :
    (doc.grow parent data).nodes.size = doc.nodes.size + 1 := by
  simp [grow]

theorem grow_eq (parent : NodeId) (data : NodeData) :
    doc.grow parent data =
      ⟨(doc.modify parent fun node =>
        { node with children := node.children ++ [doc.fresh] }).nodes.push
          { parent := some parent, children := [], data }⟩ := rfl

theorem fresh_modify (id : NodeId) (change : Node → Node) :
    (doc.modify id change).fresh = doc.fresh := by
  simp [fresh]

theorem data?_grow (parent : NodeId) (data : NodeData) (other : NodeId) :
    (doc.grow parent data).data? other =
      if other = doc.fresh then some data else doc.data? other := by
  rw [grow_eq, data?, node?_push, fresh_modify]
  split
  · rfl
  · rw [← data?, data?_modify (by simp)]

theorem parent?_grow (parent : NodeId) (data : NodeData) (other : NodeId) :
    (doc.grow parent data).parent? other =
      if other = doc.fresh then some parent else doc.parent? other := by
  rw [grow_eq, parent?, node?_push, fresh_modify]
  split
  · rfl
  · rw [← parent?, parent?_modify (by simp)]

theorem children_grow {parent : NodeId} (h : doc.knows parent = true) (data : NodeData)
    (other : NodeId) :
    (doc.grow parent data).children other =
      if other = parent then doc.children other ++ [doc.fresh] else doc.children other := by
  rw [grow_eq, children_eq, node?_push, fresh_modify]
  split
  · subst other
    rw [if_neg (ne_fresh_of_knows h).symm]
    exact children_fresh.symm
  · rw [← children_eq, children_modify_children h (· ++ [doc.fresh])]

/-! ## The two halves of a move -/

@[simp] theorem size_detach (id : NodeId) : (doc.detach id).nodes.size = doc.nodes.size := by
  unfold detach
  split <;> simp

@[simp] theorem size_attach (parent : NodeId) (index : Nat) (child : NodeId) :
    (doc.attach parent index child).nodes.size = doc.nodes.size := by
  simp [attach]

@[simp] theorem knows_detach (id other : NodeId) :
    (doc.detach id).knows other = doc.knows other := by
  rw [Bool.eq_iff_iff, knows_iff, knows_iff, size_detach]

@[simp] theorem knows_attach (parent : NodeId) (index : Nat) (child other : NodeId) :
    (doc.attach parent index child).knows other = doc.knows other := by
  rw [Bool.eq_iff_iff, knows_iff, knows_iff, size_attach]

@[simp] theorem data?_detach (id other : NodeId) :
    (doc.detach id).data? other = doc.data? other := by
  unfold detach
  split
  · rfl
  · rw [data?_modify (by simp), data?_modify (by simp)]

theorem parent?_detach (id other : NodeId) :
    (doc.detach id).parent? other = if other = id then none else doc.parent? other := by
  unfold detach
  split
  · rename_i hid
    split
    · subst other
      exact hid
    · rfl
  · rename_i parent hid
    rw [parent?_modify_parent (by simpa using knows_of_parent? hid), parent?_modify (by simp)]

theorem children_detach (id other : NodeId) :
    (doc.detach id).children other =
      if doc.parent? id = some other then (doc.children other).filter (· != id)
      else doc.children other := by
  unfold detach
  split
  · rename_i hid
    simp [hid]
  · rename_i parent hid
    rw [children_modify (by simp)]
    by_cases hk : doc.knows parent = true
    · rw [children_modify_children hk (·.filter (· != id))]
      simp only [hid, Option.some.injEq, eq_comm]
    · -- a parent that is not in the table has no list to change
      have hnone : doc.node? parent = none := by simpa [knows] using hk
      rw [children_eq, children_eq, node?_modify, hid]
      by_cases hother : other = parent
      · simp [hother, hnone]
      · simp [hother, Ne.symm hother]

@[simp] theorem data?_attach (parent : NodeId) (index : Nat) (child other : NodeId) :
    (doc.attach parent index child).data? other = doc.data? other := by
  rw [attach, data?_modify (by simp), data?_modify (by simp)]

theorem parent?_attach {child : NodeId} (h : doc.knows child = true) (parent : NodeId)
    (index : Nat) (other : NodeId) :
    (doc.attach parent index child).parent? other =
      if other = child then some parent else doc.parent? other := by
  rw [attach, parent?_modify_parent (by simpa using h), parent?_modify (by simp)]

theorem children_attach {parent : NodeId} (h : doc.knows parent = true) (index : Nat)
    (child other : NodeId) :
    (doc.attach parent index child).children other =
      if other = parent then (doc.children other).insertIdx index child
      else doc.children other := by
  rw [attach, children_modify (by simp), children_modify_children h (·.insertIdx index child)]

@[simp] theorem kind?_detach (id other : NodeId) :
    (doc.detach id).kind? other = doc.kind? other := by
  simp [kind?]

@[simp] theorem kind?_attach (parent : NodeId) (index : Nat) (child other : NodeId) :
    (doc.attach parent index child).kind? other = doc.kind? other := by
  simp [kind?]

end SvgTidy.Document
