import SvgTidy.Proofs.Outcome
import SvgTidy.Proofs.WellFormed

/-!
# Moves keep documents well-formed

Each move has an equation for its outcome on a document, which shows its checks in order. `Evolves`
relates a document to a later one: if the first is well-formed then so is the second, and nodes keep
their kinds. Steps that evolve documents, refused or not, are closed under sequencing, which gives the
composite moves from the elementary ones.

Principal results: `outcome_insert`, `outcome_insertBeside`, `outcome_remove` — what a move does;
`Editing.Sound` of every move — it leaves an evolved document, whether it is refused or not.
-/

namespace SvgTidy

namespace Document

variable {doc : Document}

/-! ## What a move does -/

theorem obstacle?_eq_none_iff {parent child : NodeId} :
    doc.obstacle? parent child = none ↔
      doc.knows child = true ∧ child ≠ root ∧
        (∃ data, doc.data? parent = some data ∧ data.isContainer = true) ∧
        child ∉ doc.chain parent := by
  unfold obstacle?
  cases hn : doc.node? parent with
  | none => simp [data?, hn]
  | some node =>
    have hdata : doc.data? parent = some node.data := by simp [data?, hn]
    simp only [hdata, Option.some.injEq, exists_eq_left']
    split
    · simp_all
    · split
      · simp_all
      · split
        · simp_all
        · split <;> simp_all

theorem outcome_insert (parent : NodeId) (index : Nat) (child : NodeId) :
    outcome (insert parent index child) doc =
      match doc.obstacle? parent child with
      | some error => (.error error, doc)
      | none =>
        if (doc.childrenWithout parent child).length < index then
          (.error (.indexOutOfBounds index (doc.childrenWithout parent child).length), doc)
        else (.ok (), (doc.detach child).attach parent index child) := by
  simp only [insert, outcome_bind, outcome_get]
  cases doc.obstacle? parent child with
  | some error => simp
  | none =>
    simp only
    split <;> simp

theorem outcome_insert_of_fits {parent child : NodeId} {index : Nat}
    (hobstacle : doc.obstacle? parent child = none)
    (hindex : index ≤ (doc.childrenWithout parent child).length) :
    outcome (insert parent index child) doc =
      (.ok (), (doc.detach child).attach parent index child) := by
  rw [outcome_insert, hobstacle]
  simp only
  rw [if_neg (Nat.not_lt.mpr hindex)]

/-- What keeps a node from its place is found again when it is inserted there. -/
theorem outcome_append (parent child : NodeId) :
    outcome (append parent child) doc =
      outcome (insert parent (doc.childrenWithout parent child).length child) doc := by
  simp only [append, outcome_bind, outcome_get]
  cases hobstacle : doc.obstacle? parent child with
  | some error => simp [outcome_insert, hobstacle]
  | none => rfl

theorem outcome_insertBeside (offset : Nat) (sibling child : NodeId) :
    outcome (insertBeside offset sibling child) doc =
      if sibling = child then (.ok (), doc)
      else
        match doc.parent? sibling with
        | none => (.error (.detached sibling), doc)
        | some parent =>
          match doc.obstacle? parent child with
          | some error => (.error error, doc)
          | none =>
            match (doc.detach child).index? sibling with
            | none => (.error (.detached sibling), doc.detach child)
            | some index => outcome (insert parent (index + offset) child) (doc.detach child) := by
  unfold insertBeside
  split
  · simp
  · simp only [outcome_bind, outcome_get]
    cases doc.parent? sibling with
    | none => simp
    | some parent =>
      simp only
      cases doc.obstacle? parent child with
      | some error => simp
      | none =>
        simp only [outcome_bind, outcome_set]
        cases (doc.detach child).index? sibling <;> simp

theorem outcome_remove (id : NodeId) :
    outcome (remove id) doc =
      if doc.knows id = false then (.error (.unknownNode id), doc)
      else if id = root then (.error .rootNode, doc)
      else (.ok (), doc.detach id) := by
  simp only [remove, outcome_bind, outcome_get]
  split
  · simp_all
  · split <;> simp_all

theorem outcome_setChildren (parent : NodeId) (children : List NodeId) :
    outcome (setChildren parent children) doc =
      match children.findSome? (doc.obstacle? parent) with
      | some error => (.error error, doc)
      | none =>
        outcome (children.forM (append parent)) ((doc.children parent).foldl detach doc) := by
  simp only [setChildren, outcome_bind, outcome_get]
  cases children.findSome? (doc.obstacle? parent) <;> simp [outcome_bind]

theorem outcome_replaceWithChildren (id : NodeId) :
    outcome (replaceWithChildren id) doc =
      if doc.knows id = false then (.error (.unknownNode id), doc)
      else if doc.parent? id = none then (.error (.detached id), doc)
      else outcome ((doc.children id).forM (insertBefore id) >>= fun _ => remove id) doc := by
  rw [replaceWithChildren, outcome_bind, outcome_get]
  simp only
  split
  · simp_all
  · split <;> simp_all

/-! ## Evolution -/

/-- A well-formed document stays one, and its nodes keep their kinds. -/
def Evolves (doc later : Document) : Prop :=
  doc.WellFormed →
    later.WellFormed ∧ ∀ id kind, doc.kind? id = some kind → later.kind? id = some kind

namespace Evolves

theorem refl (doc : Document) : doc.Evolves doc :=
  fun h => ⟨h, fun _ _ hk => hk⟩

theorem trans {a b c : Document} (hab : a.Evolves b) (hbc : b.Evolves c) : a.Evolves c := by
  intro ha
  obtain ⟨hb, hkab⟩ := hab ha
  obtain ⟨hc, hkbc⟩ := hbc hb
  exact ⟨hc, fun id kind hk => hkbc id kind (hkab id kind hk)⟩

theorem detach (doc : Document) (id : NodeId) : doc.Evolves (doc.detach id) :=
  fun h => ⟨h.detach id, fun x kind hk => by rwa [kind?_detach]⟩

theorem create (doc : Document) {data : NodeData} (hdata : data.kind ≠ .root) :
    doc.Evolves (doc.create data).2 := by
  refine fun h => ⟨h.create hdata, fun id kind hk => ?_⟩
  have hne : id ≠ doc.fresh := ne_fresh_of_knows (knows_iff_kind?.mpr ⟨kind, hk⟩)
  rwa [kind?, data?_create, if_neg hne]

theorem modify_data (doc : Document) (id : NodeId) {change : NodeData → NodeData}
    (hkind : ∀ data, (change data).kind = data.kind) :
    doc.Evolves (doc.modify id fun node => { node with data := change node.data }) := by
  exact fun h => ⟨h.modify_data id hkind, fun x kind hk => (kind?_modify_data id hkind x).trans hk⟩

theorem foldl_detach (ids : List NodeId) (doc : Document) :
    doc.Evolves (ids.foldl Document.detach doc) := by
  induction ids generalizing doc with
  | nil => exact refl doc
  | cons id rest ih => exact (detach doc id).trans (ih (doc.detach id))

end Evolves

theorem kind?_of_isContainer {id : NodeId} {data : NodeData} (hdata : doc.data? id = some data)
    (hcontainer : data.isContainer = true) :
    doc.kind? id = some .root ∨ doc.kind? id = some .element := by
  rw [kind?, hdata]
  cases data <;> simp_all [NodeData.isContainer, NodeData.kind]

theorem detach_of_free {id : NodeId} (h : doc.parent? id = none) : doc.detach id = doc := by
  rw [Document.detach, h]

namespace WellFormed

/-- Nothing obstructs a move to a container from which the way up does not meet the node. -/
theorem obstacle?_eq_none_iff (h : doc.WellFormed) {parent child : NodeId} :
    doc.obstacle? parent child = none ↔
      doc.knows child = true ∧ child ≠ root ∧
        (∃ data, doc.data? parent = some data ∧ data.isContainer = true) ∧
        child ≠ parent ∧ ¬ doc.Above child parent := by
  rw [Document.obstacle?_eq_none_iff]
  refine and_congr_right fun _ => and_congr_right fun _ => and_congr_right fun hcontainer => ?_
  obtain ⟨data, hdata, -⟩ := hcontainer
  rw [h.mem_chain_iff (knows_iff_data?.mpr ⟨data, hdata⟩), not_or]

/-- What may be moved may be moved after detaching any node. -/
theorem obstacle?_detach (h : doc.WellFormed) {parent child : NodeId}
    (hobstacle : doc.obstacle? parent child = none) (id : NodeId) :
    (doc.detach id).obstacle? parent child = none := by
  obtain ⟨hknown, hroot, hcontainer, hne, habove⟩ := h.obstacle?_eq_none_iff.mp hobstacle
  refine (h.detach id).obstacle?_eq_none_iff.mpr ⟨?_, hroot, ?_, hne, fun hup => habove hup.of_detach⟩
  · rwa [knows_detach]
  · simpa only [data?_detach] using hcontainer

/-- A move that meets no obstacle leaves a well-formed document. -/
theorem move (h : doc.WellFormed) {parent child : NodeId} {index : Nat}
    (hobstacle : doc.obstacle? parent child = none)
    (hindex : index ≤ (doc.childrenWithout parent child).length) :
    ((doc.detach child).attach parent index child).WellFormed := by
  obtain ⟨hknown, hroot, ⟨data, hdata, hcontainer⟩, hne, habove⟩ :=
    h.obstacle?_eq_none_iff.mp hobstacle
  refine (h.detach child).attach ?_ ?_ hroot ?_ hne (fun hup => habove hup.of_detach) ?_
  · simpa using kind?_of_isContainer hdata hcontainer
  · rwa [knows_detach]
  · rw [parent?_detach, if_pos rfl]
  · rwa [h.children_detach_eq]

/-- A node placed beside another one is inserted once: the sibling is still where it was when the
node has been detached, and nothing obstructs the insertion then. -/
theorem outcome_insertBeside (h : doc.WellFormed) {offset : Nat} (hoffset : offset ≤ 1)
    {sibling child parent : NodeId} (hne : sibling ≠ child)
    (hparent : doc.parent? sibling = some parent) (hobstacle : doc.obstacle? parent child = none) :
    outcome (insertBeside offset sibling child) doc =
      (.ok (), (doc.detach child).attach parent
        ((doc.childrenWithout parent child).idxOf sibling + offset) child) := by
  have hlist : (doc.detach child).children parent = doc.childrenWithout parent child :=
    h.children_detach_eq child parent
  have hmem : sibling ∈ doc.childrenWithout parent child :=
    List.mem_filter.mpr ⟨(h.linked parent sibling).mpr hparent, bne_iff_ne.mpr hne⟩
  have hindex : (doc.detach child).index? sibling =
      some ((doc.childrenWithout parent child).idxOf sibling) := by
    rw [index?, parent?_detach, if_neg hne, hparent, Option.bind_some, hlist]
    exact List.findIdx?_eq_some_iff_findIdx_eq.mpr ⟨List.idxOf_lt_length_of_mem hmem, rfl⟩
  have hwithout : (doc.detach child).childrenWithout parent child =
      doc.childrenWithout parent child := by
    rw [childrenWithout, hlist, childrenWithout, List.filter_filter]
    simp
  have hdetach : (doc.detach child).detach child = doc.detach child :=
    detach_of_free (by rw [parent?_detach, if_pos rfl])
  have hlt := List.idxOf_lt_length_of_mem hmem
  rw [Document.outcome_insertBeside, if_neg hne, hparent]
  simp only [hobstacle, hindex]
  rw [outcome_insert_of_fits (h.obstacle?_detach hobstacle child) (by rw [hwithout]; omega), hdetach]

end WellFormed

/-- A move that meets no obstacle evolves the document. -/
theorem evolves_move {parent child : NodeId} {index : Nat}
    (hobstacle : doc.obstacle? parent child = none)
    (hindex : index ≤ (doc.childrenWithout parent child).length) :
    doc.Evolves ((doc.detach child).attach parent index child) := by
  refine fun h => ⟨h.move hobstacle hindex, fun id kind hk => ?_⟩
  rwa [kind?_attach, kind?_detach]

end Document

open Document

/-- Refused or not, the step evolves any document. -/
def Editing.Sound {α : Type} (step : Editing α) : Prop :=
  ∀ doc : Document, doc.Evolves (outcome step doc).2

namespace Editing.Sound

theorem bind {α β : Type} {step : Editing α} {next : α → Editing β} (hstep : step.Sound)
    (hnext : ∀ value, (next value).Sound) : (step >>= next).Sound := by
  intro doc
  rw [outcome_bind]
  have h := hstep doc
  cases hon : outcome step doc with
  | mk result after =>
    rw [hon] at h
    cases result with
    | ok value => exact h.trans (hnext value after)
    | error error => exact h

theorem forM {α : Type} {step : α → Editing Unit} (hstep : ∀ a, (step a).Sound) :
    ∀ items : List α, (items.forM step).Sound
  | [] => fun doc => Evolves.refl doc
  | a :: rest => bind (hstep a) fun _ => forM hstep rest

theorem insert (parent : NodeId) (index : Nat) (child : NodeId) :
    (Document.insert parent index child).Sound := by
  intro doc
  rw [outcome_insert]
  cases hobstacle : doc.obstacle? parent child with
  | some error => exact Evolves.refl doc
  | none =>
    simp only
    split
    · exact Evolves.refl doc
    · rename_i hindex
      exact evolves_move hobstacle (Nat.le_of_not_lt hindex)

theorem append (parent child : NodeId) : (Document.append parent child).Sound := by
  intro doc
  rw [outcome_append]
  exact insert parent _ child doc

theorem insertBeside (offset : Nat) (sibling child : NodeId) :
    (Document.insertBeside offset sibling child).Sound := by
  intro doc
  rw [outcome_insertBeside]
  split
  · exact Evolves.refl doc
  · cases doc.parent? sibling with
    | none => exact Evolves.refl doc
    | some parent =>
      simp only
      cases doc.obstacle? parent child with
      | some error => exact Evolves.refl doc
      | none =>
        simp only
        cases (doc.detach child).index? sibling with
        | none => exact Evolves.detach doc child
        | some index => exact (Evolves.detach doc child).trans (insert parent _ child _)

theorem remove (id : NodeId) : (Document.remove id).Sound := by
  intro doc
  rw [outcome_remove]
  split
  · exact Evolves.refl doc
  · split
    · exact Evolves.refl doc
    · exact Evolves.detach doc id

theorem replace (old new : NodeId) : (Document.replace old new).Sound := by
  unfold Document.replace
  split
  · exact Evolves.refl
  · exact bind (insertBeside 0 old new) fun _ => remove old

theorem setChildren (parent : NodeId) (children : List NodeId) :
    (Document.setChildren parent children).Sound := by
  intro doc
  rw [outcome_setChildren]
  cases children.findSome? (doc.obstacle? parent) with
  | some error => exact Evolves.refl doc
  | none => exact (Evolves.foldl_detach _ doc).trans (forM (append parent) children _)

theorem replaceWithChildren (id : NodeId) : (Document.replaceWithChildren id).Sound := by
  intro doc
  rw [outcome_replaceWithChildren]
  split
  · exact Evolves.refl doc
  · split
    · exact Evolves.refl doc
    · exact bind (forM (insertBeside 0 id) (doc.children id)) (fun _ => remove id) doc

end Editing.Sound

end SvgTidy
