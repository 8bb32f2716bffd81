import SvgTidy.Proofs.ChildLists

/-!
# Moves that are refused

A move is made of several steps, most of which check their arguments again, and some detach a node
before the last check. In a well-formed document these later checks find nothing: whether a move is
refused, and for what, is settled by `Move.refusal?`, which looks at the document before the call and
changes nothing.

Principal results: `Move.settled_run` — a move is refused for its `refusal?`, or it succeeds;
`Move.untouched_of_refused` — a refused move leaves the document as it was;
`Move.refused_iff_not_idle` — with an illegal argument, all moves are refused but those that ask for
nothing.
-/

namespace SvgTidy

open Document

/-- A call that changes lists of children. -/
inductive Move where
  | append (parent child : NodeId)
  | insert (parent : NodeId) (index : Nat) (child : NodeId)
  | insertBefore (sibling child : NodeId)
  | insertAfter (sibling child : NodeId)
  | remove (id : NodeId)
  | replace (old new : NodeId)
  | setChildren (parent : NodeId) (children : List NodeId)
  | replaceWithChildren (id : NodeId)

namespace Move

/-- The call itself. -/
def run : Move → Editing Unit
  | append parent child => Document.append parent child
  | insert parent index child => Document.insert parent index child
  | insertBefore sibling child => Document.insertBefore sibling child
  | insertAfter sibling child => Document.insertAfter sibling child
  | remove id => Document.remove id
  | replace old new => Document.replace old new
  | setChildren parent children => Document.setChildren parent children
  | replaceWithChildren id => Document.replaceWithChildren id

/-- Why a node may not be placed beside another, if there is a reason. -/
def refusalBeside? (doc : Document) (sibling child : NodeId) : Option TreeError :=
  if sibling = child then none
  else
    match doc.parent? sibling with
    | none => some (.detached sibling)
    | some parent => doc.obstacle? parent child

/-- Why a move is refused, if there is a reason, as told by the document before the call. -/
def refusal? (doc : Document) : Move → Option TreeError
  | append parent child => doc.obstacle? parent child
  | insert parent index child =>
    match doc.obstacle? parent child with
    | some error => some error
    | none =>
      let length := (doc.childrenWithout parent child).length
      if length < index then some (.indexOutOfBounds index length) else none
  | insertBefore sibling child | insertAfter sibling child | replace sibling child =>
    refusalBeside? doc sibling child
  | remove id =>
    if !doc.knows id then some (.unknownNode id) else if id = root then some .rootNode else none
  | setChildren parent children => children.findSome? (doc.obstacle? parent)
  | replaceWithChildren id =>
    if !doc.knows id then some (.unknownNode id)
    else if doc.parent? id = none then some (.detached id)
    else none

variable {doc : Document}

/-! ## Only the document before the call counts -/

/-- The step is refused for the reason given, leaving the document as it was, or it succeeds. -/
def Settled (doc : Document) (step : Editing Unit) : Option TreeError → Prop
  | some error => outcome step doc = (.error error, doc)
  | none => ∃ later, outcome step doc = (.ok (), later)

theorem settled_insert (parent : NodeId) (index : Nat) (child : NodeId) :
    Settled doc (Document.insert parent index child) ((insert parent index child).refusal? doc) := by
  simp only [refusal?]
  cases hobstacle : doc.obstacle? parent child with
  | some error => simp only [Settled, outcome_insert, hobstacle]
  | none =>
    simp only
    split
    · rename_i hindex
      simp only [Settled, outcome_insert, hobstacle, if_pos hindex]
    · rename_i hindex
      exact ⟨_, outcome_insert_of_fits hobstacle (Nat.le_of_not_lt hindex)⟩

theorem settled_append (parent child : NodeId) :
    Settled doc (Document.append parent child) ((append parent child).refusal? doc) := by
  simp only [refusal?]
  cases hobstacle : doc.obstacle? parent child with
  | some error => simp only [Settled, outcome_append, outcome_insert, hobstacle]
  | none =>
    have hfits := outcome_insert_of_fits hobstacle (Nat.le_refl _)
    exact ⟨_, (outcome_append parent child).trans hfits⟩

/-- Once the child is detached, the sibling is still found and nothing else is refused. -/
theorem settled_insertBeside (h : doc.WellFormed) {offset : Nat} (hoffset : offset ≤ 1)
    (sibling child : NodeId) :
    Settled doc (insertBeside offset sibling child) (refusalBeside? doc sibling child) := by
  unfold refusalBeside?
  split
  · rename_i heq
    exact ⟨doc, by rw [outcome_insertBeside, if_pos heq]⟩
  · rename_i hne
    cases hparent : doc.parent? sibling with
    | none => simp only [Settled, outcome_insertBeside, if_neg hne, hparent]
    | some parent =>
      simp only
      cases hobstacle : doc.obstacle? parent child with
      | some error => simp only [Settled, outcome_insertBeside, if_neg hne, hparent, hobstacle]
      | none => exact ⟨_, h.outcome_insertBeside hoffset hne hparent hobstacle⟩

theorem settled_remove (id : NodeId) :
    Settled doc (Document.remove id) ((remove id).refusal? doc) := by
  simp only [refusal?, Bool.not_eq_true']
  split
  · rename_i hknown
    simp only [Settled, outcome_remove, if_pos hknown]
  · rename_i hknown
    split
    · rename_i hroot
      simp only [Settled, outcome_remove, if_neg hknown, if_pos hroot]
    · rename_i hroot
      exact ⟨_, by rw [outcome_remove, if_neg hknown, if_neg hroot]⟩

/-- Once the new node is in its place, the old one can be removed. -/
theorem settled_replace (h : doc.WellFormed) (old new : NodeId) :
    Settled doc (Document.replace old new) ((replace old new).refusal? doc) := by
  have hbeside := settled_insertBeside h (Nat.zero_le 1) old new
  simp only [refusal?]
  cases hrefusal : refusalBeside? doc old new with
  | some error =>
    rw [hrefusal] at hbeside
    have hne : old ≠ new := fun heq => by simp [refusalBeside?, heq] at hrefusal
    have hbefore : outcome (Document.insertBefore old new) doc = (.error error, doc) := hbeside
    simp only [Settled, Document.replace, if_neg hne, outcome_bind, hbefore]
  | none =>
    unfold refusalBeside? at hrefusal
    split at hrefusal
    · rename_i heq
      exact ⟨doc, by rw [Document.replace, if_pos heq, outcome_pure]⟩
    · rename_i hne
      split at hrefusal
      · cases hrefusal
      · rename_i parent hparent
        obtain ⟨before, after, later, -, hlater, -⟩ :=
          h.outcome_replace hparent hne (h.takes_iff.mpr hrefusal)
        exact ⟨later, hlater⟩

/-- Once the former children are detached, all new ones can be appended. -/
theorem settled_setChildren (h : doc.WellFormed) (parent : NodeId) (children : List NodeId) :
    Settled doc (Document.setChildren parent children)
      ((setChildren parent children).refusal? doc) := by
  simp only [refusal?]
  cases hrefusal : children.findSome? (doc.obstacle? parent) with
  | some error => simp only [Settled, outcome_setChildren, hrefusal]
  | none =>
    rw [List.findSome?_eq_none_iff] at hrefusal
    obtain ⟨later, hlater, -⟩ :=
      h.outcome_setChildren fun child hmem => h.takes_iff.mpr (hrefusal child hmem)
    exact ⟨later, hlater⟩

/-- Once the children are moved one by one, the node itself can be removed. -/
theorem settled_replaceWithChildren (h : doc.WellFormed) (id : NodeId) :
    Settled doc (Document.replaceWithChildren id) ((replaceWithChildren id).refusal? doc) := by
  simp only [refusal?, Bool.not_eq_true']
  split
  · rename_i hknown
    simp only [Settled, outcome_replaceWithChildren, if_pos hknown]
  · rename_i hknown
    cases hparent : doc.parent? id with
    | none => simp only [Settled, outcome_replaceWithChildren, if_neg hknown, hparent, if_pos]
    | some parent =>
      obtain ⟨before, after, later, -, hlater, -⟩ := h.outcome_replaceWithChildren hparent
      rw [if_neg nofun]
      exact ⟨later, hlater⟩

/-- **A move is refused for what the document before the call tells, and untouched then, or it
succeeds.** -/
theorem settled_run (h : doc.WellFormed) (move : Move) :
    Settled doc move.run (move.refusal? doc) := by
  cases move with
  | append parent child => exact settled_append parent child
  | insert parent index child => exact settled_insert parent index child
  | insertBefore sibling child => exact settled_insertBeside h (Nat.zero_le 1) sibling child
  | insertAfter sibling child => exact settled_insertBeside h (Nat.le_refl 1) sibling child
  | remove id => exact settled_remove id
  | replace old new => exact settled_replace h old new
  | setChildren parent children => exact settled_setChildren h parent children
  | replaceWithChildren id => exact settled_replaceWithChildren h id

/-- **A refused move leaves the document as it was.** It is refused before it has changed anything,
for what the document before the call tells. -/
theorem untouched_of_refused {first doc : Document} (hfirst : first.Initial)
    (hdoc : History first doc) (move : Move) {error : TreeError} {later : Document}
    (h : outcome move.run doc = (.error error, later)) :
    later = doc ∧ move.refusal? doc = some error := by
  obtain ⟨hwell, -⟩ := hdoc.evolves hfirst.wellFormed
  have hsettled := settled_run hwell move
  cases hrefusal : move.refusal? doc with
  | some reason =>
    rw [hrefusal] at hsettled
    cases h.symm.trans hsettled
    exact ⟨rfl, rfl⟩
  | none =>
    rw [hrefusal] at hsettled
    obtain ⟨after, hafter⟩ := hsettled
    cases h.symm.trans hafter

/-- The group cannot be given its own parent, although the shape named before it could come in. -/
theorem untouched_of_refused_groupedDrawing :
    Initial .empty ∧ History .empty groupedDrawing ∧
      outcome (setChildren ⟨2⟩ [⟨4⟩, ⟨1⟩]).run groupedDrawing =
        (.error (.cycle ⟨1⟩), groupedDrawing) ∧
      (setChildren ⟨2⟩ [⟨4⟩, ⟨1⟩]).refusal? groupedDrawing = some (.cycle ⟨1⟩) := by
  have hdoc : History .empty groupedDrawing := .calls _ .empty
  have hrefused : outcome (setChildren ⟨2⟩ [⟨4⟩, ⟨1⟩]).run groupedDrawing =
      (.error (.cycle ⟨1⟩), groupedDrawing) := rfl
  exact ⟨.empty, hdoc, hrefused, (untouched_of_refused .empty hdoc _ hrefused).2⟩

/-! ## Illegal arguments -/

/-- The nodes that a call names. -/
def ids : Move → List NodeId
  | append parent child | insert parent _ child => [parent, child]
  | insertBefore sibling child | insertAfter sibling child => [sibling, child]
  | remove id | replaceWithChildren id => [id]
  | replace old new => [old, new]
  | setChildren parent children => parent :: children

/-- The node whose list of children the call is to change. -/
def target? (doc : Document) : Move → Option NodeId
  | append parent _ | insert parent _ _ | setChildren parent _ => some parent
  | insertBefore sibling _ | insertAfter sibling _ => doc.parent? sibling
  | remove id | replaceWithChildren id => doc.parent? id
  | replace old _ => doc.parent? old

/-- The call names a node that the document does not know, or it is to change the children of a node
that cannot have any. -/
def Illegal (doc : Document) (move : Move) : Prop :=
  (∃ id ∈ move.ids, doc.knows id = false) ∨
    ∃ id kind, move.target? doc = some id ∧ doc.kind? id = some kind ∧
      kind ≠ .root ∧ kind ≠ .element

/-- The call asks for nothing: it places a node beside itself, replaces a node by itself, or names no
children. -/
inductive Idle : Move → Prop where
  | insertBefore (id : NodeId) : Idle (.insertBefore id id)
  | insertAfter (id : NodeId) : Idle (.insertAfter id id)
  | replace (id : NodeId) : Idle (.replace id id)
  | setChildren (parent : NodeId) : Idle (.setChildren parent [])

/-- The opposite of an illegal call. -/
structure Legal (doc : Document) (move : Move) : Prop where
  known : ∀ id ∈ move.ids, doc.knows id = true
  container : ∀ id, move.target? doc = some id →
    doc.kind? id = some .root ∨ doc.kind? id = some .element

theorem Illegal.not_legal {move : Move} (h : move.Illegal doc) : ¬ move.Legal doc := by
  intro hlegal
  rcases h with ⟨id, hid, hunknown⟩ | ⟨id, kind, htarget, hkind, hroot, helement⟩
  · rw [hlegal.known id hid] at hunknown
    cases hunknown
  · rcases hlegal.container id htarget with hcontainer | hcontainer
    · exact hroot (Option.some.inj (hkind.symm.trans hcontainer))
    · exact helement (Option.some.inj (hkind.symm.trans hcontainer))

theorem legal_of_takes {parent child : NodeId} (htakes : doc.Takes parent child) {move : Move}
    (hids : move.ids = [parent, child]) (htarget : move.target? doc = some parent) :
    move.Legal doc := by
  refine ⟨fun id hid => ?_, fun id hid => ?_⟩
  · rw [hids, List.mem_pair] at hid
    rcases hid with rfl | rfl
    · exact htakes.knows_parent
    · exact htakes.known
  · cases htarget.symm.trans hid
    exact htakes.container

theorem legal_beside (h : doc.WellFormed) {sibling child : NodeId} (hne : sibling ≠ child)
    (hrefusal : refusalBeside? doc sibling child = none) {move : Move}
    (hids : move.ids = [sibling, child]) (htarget : move.target? doc = doc.parent? sibling) :
    move.Legal doc := by
  rw [refusalBeside?, if_neg hne] at hrefusal
  split at hrefusal
  · cases hrefusal
  · rename_i parent hparent
    have htakes := h.takes_iff.mpr hrefusal
    refine ⟨fun id hid => ?_, fun id hid => ?_⟩
    · rw [hids, List.mem_pair] at hid
      rcases hid with rfl | rfl
      · exact knows_of_parent? hparent
      · exact htakes.known
    · cases (htarget.trans hparent).symm.trans hid
      exact htakes.container

theorem legal_alone (h : doc.WellFormed) {id : NodeId} (hknown : doc.knows id = true) {move : Move}
    (hids : move.ids = [id]) (htarget : move.target? doc = doc.parent? id) : move.Legal doc := by
  refine ⟨fun other hother => ?_, fun parent hparent => ?_⟩
  · rw [hids, List.mem_singleton] at hother
    exact hother ▸ hknown
  · exact h.container_of_parent? (htarget ▸ hparent)

/-- What nothing speaks against, and what asks for something, has legal arguments. -/
theorem legal_of_accepted (h : doc.WellFormed) {move : Move} (hrefusal : move.refusal? doc = none)
    (hbusy : ¬ move.Idle) : move.Legal doc := by
  cases move with
  | append parent child => exact legal_of_takes (h.takes_iff.mpr hrefusal) rfl rfl
  | insert parent index child =>
    refine legal_of_takes (h.takes_iff.mpr ?_) rfl rfl
    simp only [refusal?] at hrefusal
    split at hrefusal
    · cases hrefusal
    · assumption
  | insertBefore sibling child =>
    refine legal_beside h (fun heq => hbusy ?_) hrefusal rfl rfl
    exact heq ▸ .insertBefore sibling
  | insertAfter sibling child =>
    refine legal_beside h (fun heq => hbusy ?_) hrefusal rfl rfl
    exact heq ▸ .insertAfter sibling
  | remove id =>
    refine legal_alone h ?_ rfl rfl
    by_contra hunknown
    rw [Bool.not_eq_true] at hunknown
    simp [refusal?, hunknown] at hrefusal
  | replace old new =>
    refine legal_beside h (fun heq => hbusy ?_) hrefusal rfl rfl
    exact heq ▸ .replace old
  | setChildren parent children =>
    have htakes : ∀ child ∈ children, doc.Takes parent child :=
      fun child hmem => h.takes_iff.mpr (List.findSome?_eq_none_iff.mp hrefusal child hmem)
    cases children with
    | nil => exact absurd (.setChildren parent) hbusy
    | cons first rest =>
      have hfirst := htakes first List.mem_cons_self
      refine ⟨fun id hid => ?_, fun id hid => ?_⟩
      · rcases List.mem_cons.mp hid with rfl | hid
        · exact hfirst.knows_parent
        · exact (htakes id hid).known
      · cases hid
        exact hfirst.container
  | replaceWithChildren id =>
    refine legal_alone h ?_ rfl rfl
    by_contra hunknown
    rw [Bool.not_eq_true] at hunknown
    simp [refusal?, hunknown] at hrefusal

theorem Idle.refusal?_eq_none {move : Move} (h : move.Idle) : move.refusal? doc = none := by
  cases h <;> simp [refusal?, refusalBeside?]

/-- **With an illegal argument a call is refused, unless it asks for nothing.** -/
theorem refused_iff_not_idle {first doc : Document} (hfirst : first.Initial)
    (hdoc : History first doc) (move : Move) (hillegal : move.Illegal doc) :
    (∃ error later, outcome move.run doc = (.error error, later)) ↔ ¬ move.Idle := by
  obtain ⟨hwell, -⟩ := hdoc.evolves hfirst.wellFormed
  have hsettled := settled_run hwell move
  constructor
  · rintro ⟨error, later, hrefused⟩ hidle
    rw [hidle.refusal?_eq_none] at hsettled
    obtain ⟨after, hafter⟩ := hsettled
    cases hrefused.symm.trans hafter
  · intro hbusy
    cases hrefusal : move.refusal? doc with
    | some error =>
      rw [hrefusal] at hsettled
      exact ⟨error, doc, hsettled⟩
    | none => exact absurd (legal_of_accepted hwell hrefusal hbusy) hillegal.not_legal

/-- A group cannot be replaced by a node that is not there; a node that is not there can be replaced
by itself. -/
theorem refused_iff_not_idle_groupedDrawing :
    Initial .empty ∧ History .empty groupedDrawing ∧
      (replace ⟨2⟩ ⟨9⟩).Illegal groupedDrawing ∧ (replace ⟨9⟩ ⟨9⟩).Illegal groupedDrawing ∧
      (∃ error later, outcome (replace ⟨2⟩ ⟨9⟩).run groupedDrawing = (.error error, later)) ∧
      ¬ ∃ error later, outcome (replace ⟨9⟩ ⟨9⟩).run groupedDrawing = (.error error, later) := by
  have hdoc : History .empty groupedDrawing := .calls _ .empty
  have hold : (replace ⟨2⟩ ⟨9⟩).Illegal groupedDrawing := .inl ⟨⟨9⟩, by decide, rfl⟩
  have hself : (replace ⟨9⟩ ⟨9⟩).Illegal groupedDrawing := .inl ⟨⟨9⟩, by decide, rfl⟩
  refine ⟨.empty, hdoc, hold, hself, (refused_iff_not_idle .empty hdoc _ hold).mpr nofun, ?_⟩
  exact fun hrefused => (refused_iff_not_idle .empty hdoc _ hself).mp hrefused (.replace ⟨9⟩)

end Move

end SvgTidy
