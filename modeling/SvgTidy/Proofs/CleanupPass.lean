import SvgTidy.Proofs.CleanupHooks
import SvgTidy.Proofs.DocumentOrder

/-!
# A pass with cleanups sweeps the forest

Some trees stand side by side below a node (`Sited`). Visiting them puts there what `Cleanup.sweepAll`
leaves of them (`Becomes`): the other nodes keep their payloads, their parents and their children,
which is why the visits to siblings do not disturb each other.

Principal results: `visitChildren_spec` — the walk below one node; `run_spec` — a pass with any list
of cleanups succeeds, and sweeps the forest of the document.
-/

namespace SvgTidy

open Pass

namespace Document

variable {doc mid later : Document} {parent : NodeId} {before after : List NodeId}

/-- Some trees stand side by side among the children of a node that hangs below the root, or of the
root itself. -/
structure Sited (doc : Document) (parent : NodeId) (before after : List NodeId) (fixed : Bool)
    (trees : List Tree) : Prop where
  wellFormed : doc.WellFormed
  place : doc.children parent = before ++ trees.map Tree.id ++ after
  shows : ∀ t ∈ trees, doc.Shows t
  fixed : Cleanup.keepsGroups doc parent = fixed
  attached : parent = root ∨ doc.Above root parent

/-- In the place of nodes that go stand some trees, and nothing else changes. -/
structure Becomes (doc later : Document) (parent : NodeId) (before after : List NodeId)
    (gone : List NodeId) (result : List Tree) : Prop where
  wellFormed : later.WellFormed
  place : later.children parent = before ++ result.map Tree.id ++ after
  shows : ∀ t ∈ result, later.Shows t
  data? : ∀ x, x ∉ gone → later.data? x = doc.data? x
  parent? : ∀ x, x ∉ gone → later.parent? x = doc.parent? x
  children : ∀ x, x ∉ gone → x ≠ parent → later.children x = doc.children x

namespace Sited

variable {fixed : Bool} {trees : List Tree}

theorem parent? (h : doc.Sited parent before after fixed trees) {t : Tree} (ht : t ∈ trees) :
    doc.parent? t.id = some parent := by
  rw [← h.wellFormed.linked, h.place]
  simp only [List.mem_append]
  exact .inl (.inr (List.mem_map_of_mem ht))

theorem nodup (h : doc.Sited parent before after fixed trees) : (Tree.idsAll trees).Nodup := by
  refine h.wellFormed.nodup_idsAll_of_siblings parent (fun t ht =>
    ⟨h.shows t ht, h.wellFormed.nodup_ids (h.shows t ht), h.parent? ht⟩) ?_
  have hnodup := h.wellFormed.nodup parent
  rw [h.place] at hnodup
  exact (List.nodup_append.mp (List.nodup_append.mp hnodup).1).2.1

/-- The node above and its ancestors are not in the trees. -/
theorem not_mem (h : doc.Sited parent before after fixed trees) {x : NodeId}
    (hx : x = parent ∨ doc.Above x parent) : x ∉ Tree.idsAll trees := by
  intro hmem
  obtain ⟨t, ht, hxt⟩ := Tree.mem_idsAll.mp hmem
  have hdown : doc.Above parent x := by
    have hlink := Above.of_parent? (h.parent? ht)
    rcases h.wellFormed.eq_or_above_of_mem_ids (h.shows t ht) hxt with rfl | hup
    · exact hlink
    · exact hlink.trans hup
  rcases hx with rfl | hup
  · exact h.wellFormed.acyclic _ hdown
  · exact h.wellFormed.acyclic _ (hdown.trans hup)

theorem head {t : Tree} {others : List Tree}
    (h : doc.Sited parent before after fixed (t :: others)) :
    doc.Sited parent before (others.map Tree.id ++ after) fixed [t] := by
  refine ⟨h.wellFormed, ?_, fun x hx => ?_, h.fixed, h.attached⟩
  · simp [h.place]
  · rw [List.mem_singleton] at hx
    exact h.shows x (hx ▸ List.mem_cons_self)

section Single

variable {id : NodeId} {data : NodeData} {children : List Tree}
  (h : doc.Sited parent before after fixed [.node id data children])
include h

theorem link : doc.parent? id = some parent :=
  h.parent? List.mem_cons_self

theorem above_not_mem : parent ∉ id :: Tree.idsAll children := by
  have hmem := h.not_mem (.inl rfl)
  rwa [Tree.idsAll, Tree.idsAll, List.append_nil] at hmem

theorem self_not_mem : id ∉ Tree.idsAll children :=
  (List.nodup_cons.mp (h.wellFormed.nodup_ids (h.shows _ List.mem_cons_self))).1

end Single

end Sited

/-- Ancestors stay where no parent on the way changes. -/
theorem Above.frame {a x : NodeId} (h : doc.Above a x)
    (hsame : ∀ y, y = x ∨ doc.Above y x → later.parent? y = doc.parent? y) : later.Above a x := by
  induction h using Relation.TransGen.head_induction_on with
  | single hlink => exact .of_parent? ((hsame _ (.inl rfl)).trans hlink)
  | head hlink _ ih =>
    refine Above.trans (ih fun y hy => hsame y (.inr ?_)) ?_
    · rcases hy with rfl | hy
      · exact .of_parent? hlink
      · exact hy.trans (.of_parent? hlink)
    · exact .of_parent? ((hsame _ (.inl rfl)).trans hlink)

namespace Becomes

variable {fixed : Bool} {gone : List NodeId} {result : List Tree}

/-- Where trees take the place of all below the root, they are the forest. -/
theorem forest_eq (h : doc.Becomes later root [] [] gone result) : later.forest = result :=
  h.wellFormed.forest_unique (by simp [h.place]) h.shows

/-- Where trees take the place of the forest, what was detached is as before. -/
theorem node?_of_detached {id : NodeId}
    (h : doc.Becomes later root [] [] (Tree.idsAll doc.forest) result) (hdoc : doc.WellFormed)
    (hid : doc.isAttached id = false) : later.node? id = doc.node? id := by
  rw [Bool.eq_false_iff, Ne, hdoc.isAttached_iff_mem, not_or] at hid
  exact node?_eq_of_views (h.data? id hid.2) (h.parent? id hid.2) (h.children id hid.2 hid.1)

theorem shows_of_disjoint (h : doc.Becomes later parent before after gone result) {t : Tree}
    (ht : doc.Shows t) (hgone : ∀ x ∈ t.ids, x ∉ gone) (hparent : parent ∉ t.ids) :
    later.Shows t := by
  refine ht.frame fun x hx => ⟨h.data? x (hgone x hx), h.children x (hgone x hx) ?_⟩
  rintro rfl
  exact hparent hx

theorem keepsGroups (h : doc.Becomes later parent before after gone result)
    (hparent : parent ∉ gone) :
    Cleanup.keepsGroups later parent = Cleanup.keepsGroups doc parent := by
  rw [Cleanup.keepsGroups, Cleanup.keepsGroups, element?, element?, h.data? parent hparent]

theorem attached (h : doc.Becomes later parent before after gone result)
    (hgone : ∀ x, x = parent ∨ doc.Above x parent → x ∉ gone)
    (hattached : parent = root ∨ doc.Above root parent) :
    parent = root ∨ later.Above root parent :=
  hattached.imp_right fun habove => habove.frame fun y hy => h.parent? y (hgone y hy)

/-- What stands behind a tree is as before when the tree has been visited. -/
theorem tail {t : Tree} {others : List Tree}
    (h : doc.Becomes later parent before (others.map Tree.id ++ after) t.ids result)
    (hsited : doc.Sited parent before after fixed (t :: others)) :
    later.Sited parent (before ++ result.map Tree.id) after fixed others := by
  have hgone : ∀ x, x = parent ∨ doc.Above x parent → x ∉ t.ids := by
    intro x hx hmem
    exact hsited.not_mem hx (List.mem_append_left _ hmem)
  refine ⟨h.wellFormed, ?_, fun x hx => ?_, ?_, h.attached hgone hsited.attached⟩
  · rw [h.place]
    simp only [List.append_assoc]
  · refine h.shows_of_disjoint (hsited.shows x (List.mem_cons_of_mem _ hx)) (fun y hy hmem => ?_)
      fun hmem => ?_
    · exact (List.nodup_append.mp hsited.nodup).2.2 y hmem y
        (Tree.mem_idsAll.mpr ⟨x, hx, hy⟩) rfl
    · exact hsited.not_mem (.inl rfl)
        (Tree.mem_idsAll.mpr ⟨x, List.mem_cons_of_mem _ hx, hmem⟩)
  · rw [h.keepsGroups (hgone parent (.inl rfl)), hsited.fixed]

/-- The visit to a tree and the visits to what stands behind it. -/
theorem append {t : Tree} {others first rest : List Tree}
    (hfirst : doc.Becomes mid parent before (others.map Tree.id ++ after) t.ids first)
    (hrest : mid.Becomes later parent (before ++ first.map Tree.id) after (Tree.idsAll others) rest)
    (hsub : Tree.idsAll first ⊆ t.ids)
    (hsited : doc.Sited parent before after fixed (t :: others)) :
    doc.Becomes later parent before after (Tree.idsAll (t :: others)) (first ++ rest) := by
  refine ⟨hrest.wellFormed, ?_, fun x hx => ?_, fun x hx => ?_, fun x hx => ?_, fun x hx hne => ?_⟩
  · rw [hrest.place, List.map_append, List.append_assoc before]
  · rcases List.mem_append.mp hx with hx | hx
    · have hids : ∀ y ∈ x.ids, y ∈ t.ids := fun y hy => hsub (Tree.mem_idsAll.mpr ⟨x, hx, hy⟩)
      refine hrest.shows_of_disjoint (hfirst.shows x hx) (fun y hy hmem => ?_) fun hmem => ?_
      · exact (List.nodup_append.mp hsited.nodup).2.2 y (hids y hy) y hmem rfl
      · exact hsited.not_mem (.inl rfl) (List.mem_append_left _ (hids _ hmem))
    · exact hrest.shows x hx
  · rw [Tree.idsAll, List.mem_append, not_or] at hx
    rw [hrest.data? x hx.2, hfirst.data? x hx.1]
  · rw [Tree.idsAll, List.mem_append, not_or] at hx
    rw [hrest.parent? x hx.2, hfirst.parent? x hx.1]
  · rw [Tree.idsAll, List.mem_append, not_or] at hx
    rw [hrest.children x hx.2 hne, hfirst.children x hx.1 hne]

end Becomes

namespace Touches

variable {id : NodeId} {data data' : NodeData} {stays : Bool} {fixed : Bool}
  {children : List Tree} {e : Element}

theorem parent?_eq (hdoc : doc.WellFormed) (h : doc.Touches later id data' true) (x : NodeId) :
    later.parent? x = doc.parent? x :=
  hdoc.parent?_eq_of_mem_iff h.wellFormed fun p => by rw [h.children p, if_pos rfl]

theorem keepsGroups (h : doc.Touches later id data' stays) (hne : parent ≠ id) :
    Cleanup.keepsGroups later parent = Cleanup.keepsGroups doc parent := by
  rw [Cleanup.keepsGroups, Cleanup.keepsGroups, element?, element?, h.data? parent hne]

/-- A node that does not stay is gone with all that hangs below it. -/
theorem becomes_nil (h : doc.Touches later id data' false)
    (hsited : doc.Sited parent before after fixed [.node id data children]) :
    doc.Becomes later parent before after (id :: Tree.idsAll children) [] := by
  have hplace : doc.children parent = before ++ id :: after := by simp [hsited.place, Tree.id]
  have hchildren (x : NodeId) : later.children x = (doc.children x).filter (· != id) :=
    h.children x
  refine ⟨h.wellFormed, ?_, fun t ht => ?_, fun x hx => ?_, fun x hx => ?_, fun x _ hne => ?_⟩
  · rw [hchildren, hsited.wellFormed.filter_place hplace, List.map_nil, List.append_nil]
  · cases ht
  · exact h.data? x (List.ne_of_not_mem_cons hx)
  · refine hsited.wellFormed.parent?_eq_of_mem_iff h.wellFormed fun p => ?_
    rw [hchildren, List.mem_filter]
    simp [List.ne_of_not_mem_cons hx]
  · rw [hchildren, ← hsited.wellFormed.children_detach_eq]
    exact (hsited.wellFormed.detach_spec hplace).2.2 x hne

/-- A node that stays has its place and its children as before. -/
theorem becomes_self (h : doc.Touches later id data' true)
    (hsited : doc.Sited parent before after fixed [.node id data children]) :
    doc.Becomes later parent before after (id :: Tree.idsAll children)
      [.node id data' children] := by
  have hsame (x : NodeId) : later.children x = doc.children x := h.children x
  have hshown := hsited.shows _ List.mem_cons_self
  refine ⟨h.wellFormed, ?_, fun t ht => ?_, fun x hx => ?_, fun x _ => ?_, fun x _ _ => hsame x⟩
  · rw [hsame, hsited.place]
    rfl
  · rw [List.mem_singleton] at ht
    subst ht
    cases hshown with
    | node _ hchildren hbelow =>
      refine .node h.data?_self ((hsame id).trans hchildren) fun t ht => ?_
      refine (hbelow t ht).frame fun x hx => ⟨h.data? x ?_, hsame x⟩
      rintro rfl
      exact hsited.self_not_mem (Tree.mem_idsAll.mpr ⟨t, ht, hx⟩)
  · exact h.data? x (List.ne_of_not_mem_cons hx)
  · exact h.parent?_eq hsited.wellFormed x

/-- The children of an element that has been entered. -/
theorem sited (h : doc.Touches later id (.element e) true)
    (hsited : doc.Sited parent before after fixed [.node id data children]) :
    later.Sited id [] [] (e.is "switch") children := by
  have hbecomes := h.becomes_self hsited
  have hroot := hsited.wellFormed.ne_root_of_parent? hsited.link
  have hshown := hbecomes.shows _ List.mem_cons_self
  refine ⟨h.wellFormed, ?_, ?_, ?_, .inr ?_⟩
  · exact (hshown.children).trans (by simp [Tree.children])
  · cases hshown with
    | node _ _ hbelow => exact hbelow
  · rw [Cleanup.keepsGroups, element?, h.data?_self, decide_eq_false hroot]
    rfl
  · have hup : doc.Above root id := by
      rcases hsited.attached with rfl | habove
      · exact .of_parent? hsited.link
      · exact habove.trans (.of_parent? hsited.link)
    exact hup.frame fun y _ => h.parent?_eq hsited.wellFormed y

end Touches

end Document

namespace Cleanup

open Document

variable {doc mid low later : Document} {parent id : NodeId} {before after : List NodeId}
  {fixed : Bool} {data : NodeData} {e : Element} {children below : List Tree} {jobs : List Job}

/-- An element has been entered and its children have been visited. -/
theorem standing_of_touches (htouches : doc.Touches mid id (.element e) true)
    (hsited : doc.Sited parent before after fixed [.node id data children])
    (hbelow : mid.Becomes low id [] [] (Tree.idsAll children) below) :
    Standing low parent before after fixed id e below := by
  have hplace := (htouches.becomes_self hsited).place
  have hlow := htouches.sited hsited
  have hlink : mid.parent? id = some parent :=
    (htouches.parent?_eq hsited.wellFormed id).trans hsited.link
  have hne := List.ne_of_not_mem_cons hsited.above_not_mem
  have hup := List.not_mem_of_not_mem_cons hsited.above_not_mem
  refine ⟨hbelow.wellFormed, ?_, ?_, ?_, ?_, ?_⟩
  · rw [hbelow.children parent hup hne, hplace]
    simp [Tree.id]
  · rw [hbelow.data? id hsited.self_not_mem, htouches.data?_self]
  · simp [hbelow.place]
  · rw [Cleanup.keepsGroups, element?, hbelow.data? parent hup, ← element?,
      ← Cleanup.keepsGroups, htouches.keepsGroups hne, hsited.fixed]
  · rcases hbelow.attached (fun x hx => hlow.not_mem hx) hlow.attached with hroot | hup
    · exact absurd hroot (hlow.wellFormed.ne_root_of_parent? hlink)
    · exact hup

/-- The trees that are left of an element are there. -/
theorem Leaves.shows (hleaves : Leaves low later parent before after id
      (leaveAll jobs fixed id e below))
    (h : Standing low parent before after fixed id e below) (hshows : ∀ t ∈ below, low.Shows t)
    (hparent : parent ∉ Tree.idsAll below) (hself : id ∉ Tree.idsAll below) :
    ∀ t ∈ leaveAll jobs fixed id e below, later.Shows t := by
  have hkept : ∀ t ∈ below, later.Shows t := by
    intro t ht
    refine (hshows t ht).frame fun x hx => ⟨hleaves.data? x, hleaves.children x ?_ ?_⟩
    · rintro rfl
      exact hparent (Tree.mem_idsAll.mpr ⟨t, ht, hx⟩)
    · rintro rfl
      exact hself (Tree.mem_idsAll.mpr ⟨t, ht, hx⟩)
  unfold leaveAll at hleaves ⊢
  split at hleaves
  · rename_i hgives
    rw [if_pos hgives]
    exact hkept
  · rename_i hgives
    rw [if_neg hgives]
    split at hleaves
    · rename_i hpruned
      rw [if_pos hpruned]
      intro t ht
      cases ht
    · rename_i hpruned
      rw [if_neg hpruned]
      have hmem : id ∈ later.children parent := by simp [hleaves.place, Tree.id]
      have hlink := (hleaves.wellFormed.linked _ _).mp hmem
      intro t ht
      rw [List.mem_singleton] at ht
      subst ht
      rcases hleaves.gone with hgone | rfl
      · rw [hgone] at hlink
        cases hlink
      · exact .node h.data h.below hshows

/-- What happens to an element and all below it. -/
theorem becomes_leaveAll (htouches : doc.Touches mid id (.element e) true)
    (hsited : doc.Sited parent before after fixed [.node id data children])
    (hbelow : mid.Becomes low id [] [] (Tree.idsAll children) below)
    (hsub : Tree.idsAll below ⊆ Tree.idsAll children)
    (hleaves : Leaves low later parent before after id (leaveAll jobs fixed id e below)) :
    doc.Becomes later parent before after (id :: Tree.idsAll children)
      (leaveAll jobs fixed id e below) := by
  have hstanding := standing_of_touches htouches hsited hbelow
  have hfirst := htouches.becomes_self hsited
  refine ⟨hleaves.wellFormed, hleaves.place, ?_, fun x hx => ?_, fun x hx => ?_,
    fun x hx hne => ?_⟩
  · exact hleaves.shows hstanding hbelow.shows
      (fun hmem => List.not_mem_of_not_mem_cons hsited.above_not_mem (hsub hmem))
      fun hmem => hsited.self_not_mem (hsub hmem)
  · rw [hleaves.data? x, hbelow.data? x (List.not_mem_of_not_mem_cons hx), hfirst.data? x hx]
  · rw [hleaves.parent? x (List.ne_of_not_mem_cons hx) ?_,
      hbelow.parent? x (List.not_mem_of_not_mem_cons hx), hfirst.parent? x hx]
    rw [hstanding.below, List.mem_map]
    rintro ⟨t, ht, rfl⟩
    exact List.not_mem_of_not_mem_cons hx
      (hsub (Tree.mem_idsAll.mpr ⟨t, ht, Tree.id_mem_ids t⟩))
  · rw [hleaves.children x hne (List.ne_of_not_mem_cons hx),
      hbelow.children x (List.not_mem_of_not_mem_cons hx) (List.ne_of_not_mem_cons hx),
      hfirst.children x hx hne]

/-! ## The walk -/

variable {S : Slots} {σ : Type} (observe : Observer S σ) {s : Progress S σ}

/-- A part of a pass succeeds and puts trees in the place of nodes that go. -/
def Sweeps (o : Outcome S σ) (doc : Document) (parent : NodeId) (before after gone : List NodeId)
    (result : List Job × List Tree) : Prop :=
  ∃ next, o = ⟨.ok (), next⟩ ∧ Manned next result.1 ∧
    doc.Becomes next.doc parent before after gone result.2

theorem leave_idle (parent : NodeId) {kind : NodeKind} (hjobs : Manned s jobs)
    (hdoc : s.doc.WellFormed) (hid : s.doc.knows id = true) (hroot : id ≠ root)
    (hgone : kind = .element → s.doc.parent? id = none) :
    ∃ next, leave observe (.node kind id parent) s = ⟨.ok (), next⟩ ∧ next.doc = s.doc ∧
      Manned next jobs := by
  refine inTurn_idle observe hjobs (fun place hplace => ?_) fun job _ =>
    job.idles_leave parent hdoc hid hroot hgone
  rw [List.mem_reverse, List.mem_range, hjobs.length] at hplace
  exact hplace

theorem visit_eq {visitBelow : NodeId → Progress S σ → Outcome S σ} {kind : NodeKind}
    {next : Progress S σ} (hkind : s.doc.kind? id = some kind)
    (henter : enter observe (.node kind id parent) s = ⟨.ok (), next⟩) :
    visit observe visitBelow parent id s =
      andThen (if kind = .element ∧ next.doc.parent? id = some parent then visitBelow id next
        else done next) (leave observe (.node kind id parent)) := by
  unfold visit
  rw [hkind]
  simp only
  rw [henter]
  rfl

/-- The visit to a node whose children are not visited. -/
theorem visit_shallow {visitBelow : NodeId → Progress S σ → Outcome S σ} {result : List Tree}
    {next : Progress S σ} {jobs' : List Job} (hkind : s.doc.kind? id = some data.kind)
    (henter : enter observe (.node data.kind id parent) s = ⟨.ok (), next⟩)
    (hjobs : Manned next jobs') (hknown : next.doc.knows id = true) (hroot : id ≠ root)
    (hgone : data.kind = .element → next.doc.parent? id = none)
    (hbecomes : doc.Becomes next.doc parent before after (id :: Tree.idsAll children) result) :
    Sweeps (visit observe visitBelow parent id s) doc parent before after
      (id :: Tree.idsAll children) (jobs', result) := by
  obtain ⟨last, hleave, hdoc, hlast⟩ := leave_idle observe parent hjobs
    hbecomes.wellFormed hknown hroot hgone
  refine ⟨last, ?_, hlast, hdoc ▸ hbecomes⟩
  rw [visit_eq observe hkind henter, if_neg]
  · exact hleave
  · rintro ⟨helement, hlink⟩
    rw [hgone helement] at hlink
    cases hlink

/-- **A visit to a node sweeps its tree**, if the visit to its children sweeps theirs. -/
theorem visit_spec {visitBelow : NodeId → Progress S σ → Outcome S σ} {t : Tree}
    (hsited : s.doc.Sited parent before after fixed [t]) (hjobs : Manned s jobs)
    (hvisit : ∀ (mid : Progress S σ) (jobs' : List Job) (fixed' : Bool), Manned mid jobs' →
      mid.doc.Sited t.id [] [] fixed' t.children →
      Sweeps (visitBelow t.id mid) mid.doc t.id [] [] (Tree.idsAll t.children)
        (sweepAll fixed' jobs' t.children)) :
    Sweeps (visit observe visitBelow parent t.id s) s.doc parent before after t.ids
      (sweep fixed jobs t) := by
  obtain ⟨id, data, children⟩ := t
  have hdata : s.doc.data? id = some data := (hsited.shows _ List.mem_cons_self).data?
  have hkind : s.doc.kind? id = some data.kind := by rw [kind?, hdata]; rfl
  have hroot := hsited.wellFormed.ne_root_of_parent? hsited.link
  obtain ⟨mid, henter, hmid, htouches⟩ :=
    enter_spec observe parent hjobs hsited.wellFormed hdata hroot
  have hknown : mid.doc.knows id = true := knows_iff_data?.mpr ⟨_, htouches.data?_self⟩
  show Sweeps (visit observe visitBelow parent id s) s.doc parent before after
    (id :: Tree.idsAll children) _
  unfold sweep
  split
  · rename_i hkeeps
    rw [hkeeps] at htouches
    split
    · rename_i e hrewrite
      rw [hrewrite] at htouches
      have helement : data.kind = .element := by
        rw [← kind_rewriteAll jobs data, hrewrite]
        rfl
      obtain ⟨low, hlow, hmanned, hbelow⟩ :=
        hvisit mid (turnAll jobs data) (e.is "switch") hmid (htouches.sited hsited)
      obtain ⟨last, hleave, hlast, hleaves⟩ := leave_spec observe hmanned
        (standing_of_touches htouches hsited hbelow)
      rw [leaveAll_congr ((rested_sweepAll _ _ _).trans (rested_turnAll jobs data))] at hleaves
      refine ⟨last, ?_, hlast, becomes_leaveAll htouches hsited hbelow
        (ids_sweepAll_subset _ _ _) hleaves⟩
      have hstill := (htouches.parent?_eq hsited.wellFormed id).trans hsited.link
      rw [visit_eq observe hkind henter, if_pos ⟨helement, hstill⟩, helement]
      show andThen (visitBelow id mid) _ = _
      rw [show visitBelow id mid = _ from hlow]
      exact hleave
    · rename_i other hother
      refine visit_shallow observe hkind henter hmid hknown hroot (fun helement => ?_)
        (htouches.becomes_self hsited)
      rw [← kind_rewriteAll jobs data] at helement
      obtain ⟨e, he⟩ := NodeData.exists_element helement
      exact absurd he (hother e)
  · rename_i hkeeps
    rw [Bool.not_eq_true] at hkeeps
    rw [hkeeps] at htouches
    refine visit_shallow observe hkind henter hmid hknown hroot (fun _ => ?_)
      (htouches.becomes_nil hsited)
    refine Option.eq_none_iff_forall_ne_some.mpr fun p hp => ?_
    rw [← htouches.wellFormed.linked, htouches.children] at hp
    simp at hp

/-- **Visiting the children of a node sweeps their trees**, one after the other. -/
theorem inTurn_visit_spec {visitBelow : NodeId → Progress S σ → Outcome S σ} {trees : List Tree}
    (hsited : s.doc.Sited parent before after fixed trees) (hjobs : Manned s jobs)
    (hvisit : ∀ t ∈ trees, ∀ (mid : Progress S σ) (jobs' : List Job) (fixed' : Bool),
      Manned mid jobs' → mid.doc.Sited t.id [] [] fixed' t.children →
      Sweeps (visitBelow t.id mid) mid.doc t.id [] [] (Tree.idsAll t.children)
        (sweepAll fixed' jobs' t.children)) :
    Sweeps (inTurn (fun id s => if s.doc.parent? id = some parent
          then visit observe visitBelow parent id s else done s) (trees.map Tree.id) s)
      s.doc parent before after (Tree.idsAll trees) (sweepAll fixed jobs trees) := by
  induction trees generalizing s jobs before with
  | nil =>
    refine ⟨s, rfl, hjobs, hsited.wellFormed, hsited.place, fun t ht => ?_, fun _ _ => rfl,
      fun _ _ => rfl, fun _ _ _ => rfl⟩
    cases ht
  | cons t others ih =>
    obtain ⟨mid, hfirst, hmid, hbecomes⟩ :=
      visit_spec observe hsited.head hjobs (hvisit t List.mem_cons_self)
    obtain ⟨next, hrest, hnext, hbecomes'⟩ := ih (hbecomes.tail hsited) hmid
      fun x hx => hvisit x (List.mem_cons_of_mem _ hx)
    refine ⟨next, ?_, hnext, hbecomes.append hbecomes' (ids_sweep_subset fixed jobs t) hsited⟩
    rw [List.map_cons, inTurn_cons, hrest]
    rw [if_pos (hsited.parent? List.mem_cons_self), hfirst]

/-- **The walk below one node.** It needs one level more than the trees have. -/
theorem visitChildren_spec (depth : Nat) {trees : List Tree}
    (hsited : s.doc.Sited parent [] [] fixed trees) (hjobs : Manned s jobs)
    (hdepth : Tree.heightAll trees < depth) :
    Sweeps (visitChildren observe depth parent s) s.doc parent [] [] (Tree.idsAll trees)
      (sweepAll fixed jobs trees) := by
  induction depth generalizing s parent fixed jobs trees with
  | zero => exact absurd hdepth (Nat.not_lt_zero _)
  | succ depth ih =>
    have hchildren : s.doc.children parent = trees.map Tree.id := by simp [hsited.place]
    unfold visitChildren
    rw [hchildren]
    refine inTurn_visit_spec observe hsited hjobs fun t ht mid jobs' fixed' hmid hlow =>
      ih hlow hmid ?_
    have hheight := Nat.le_trans (Tree.height_le_heightAll ht) (Nat.le_of_lt_succ hdepth)
    cases t
    exact hheight

/-! ## A pass -/

/-- The jobs of a list of cleanups, in their order. -/
def jobsOf (cleanups : List Cleanup) : List Job :=
  cleanups.filterMap job?

theorem ask_spec (cleanup : Cleanup) (info : PassInfo) (place : Nat) (hjobs : Manned s jobs) :
    (ask observe info cleanup.plugin place s).doc = s.doc ∧
      Manned (ask observe info cleanup.plugin place s) (jobs ++ cleanup.job?.toList) := by
  refine ⟨rfl, ?_⟩
  show (s.active ++ (cleanup.visitor?.map (Active.mk cleanup.name)).toList).map Active.visitor = _
  rw [List.map_append, List.map_append, hjobs, visitor?_eq]
  cases cleanup.job? <;> rfl

/-- The cleanups that have a visitor are at work in their order. -/
theorem recruit_spec (cleanups : List Cleanup) (info : PassInfo) (hjobs : Manned s jobs) :
    (recruit observe info (cleanups.map Cleanup.plugin) s).doc = s.doc ∧
      Manned (recruit observe info (cleanups.map Cleanup.plugin) s) (jobs ++ jobsOf cleanups) := by
  unfold recruit
  generalize 0 = first
  induction cleanups generalizing s jobs first with
  | nil =>
    rw [jobsOf, List.filterMap_nil, List.append_nil]
    exact ⟨rfl, hjobs⟩
  | cons cleanup rest ih =>
    obtain ⟨hdoc, hmanned⟩ := ask_spec observe cleanup info first hjobs
    obtain ⟨hlast, hall⟩ := ih hmanned (first + 1)
    have hjobsOf : jobsOf (cleanup :: rest) = cleanup.job?.toList ++ jobsOf rest := by
      rw [jobsOf, List.filterMap_cons]
      cases cleanup.job? <;> rfl
    rw [List.map_cons, List.zipIdx_cons, List.foldl_cons, hjobsOf, ← List.append_assoc]
    exact ⟨hlast.trans hdoc, hall⟩

theorem enter_root (hjobs : Manned s jobs) :
    ∃ next, enter observe .root s = ⟨.ok (), next⟩ ∧ next.doc = s.doc ∧ Manned next jobs :=
  inTurn_idle observe hjobs (by simp [hjobs.length]) fun job _ => job.idles_root .enter s.doc

theorem leave_root (hjobs : Manned s jobs) :
    ∃ next, leave observe .root s = ⟨.ok (), next⟩ ∧ next.doc = s.doc ∧ Manned next jobs :=
  inTurn_idle observe hjobs (by simp [hjobs.length]) fun job _ => job.idles_root .leave s.doc

/-- A pass with cleanups puts the trees that a sweep leaves in the place of the forest. No hook fails,
and nodes that are not attached are left alone. -/
theorem run_becomes (cleanups : List Cleanup) (info : PassInfo) {doc : Document}
    (hdoc : doc.WellFormed) (context : Context S) (seen : σ) :
    ∃ next, run observe (cleanups.map Cleanup.plugin) info doc context seen = ⟨.ok (), next⟩ ∧
      doc.Becomes next.doc root [] [] (Tree.idsAll doc.forest)
        (sweepAll true (jobsOf cleanups) doc.forest).2 := by
  obtain ⟨hroot, hshows, hheight⟩ := hdoc.forest_spec
  have hnone : Manned ({ doc, context, active := [], seen } : Progress S σ) [] := rfl
  obtain ⟨hsame, hmanned⟩ := recruit_spec observe cleanups info hnone
  unfold run runWithin
  generalize recruit observe info (cleanups.map Cleanup.plugin) _ = s at hsame hmanned
  rw [List.nil_append] at hmanned
  change s.doc = doc at hsame
  subst hsame
  obtain ⟨mid, henter, hmid, hmanned'⟩ := enter_root observe hmanned
  have hsited : mid.doc.Sited root [] [] true s.doc.forest := by
    rw [hmid]
    exact ⟨hdoc, by simp [hroot], hshows, by simp [keepsGroups], .inl rfl⟩
  obtain ⟨low, hwalk, hmanned'', hbecomes⟩ := visitChildren_spec observe
    (s.doc.nodes.size + headroom) hsited hmanned' (by unfold headroom; omega)
  obtain ⟨last, hleave, hlast, -⟩ := leave_root observe hmanned''
  refine ⟨last, ?_, ?_⟩
  · unfold walk
    rw [henter]
    show andThen (visitChildren observe _ root mid) _ = _
    rw [hwalk]
    exact hleave
  · rwa [hmid, ← hlast] at hbecomes

/-- **A pass with cleanups sweeps the forest.** No hook fails, and the document stays well formed. -/
theorem run_spec (cleanups : List Cleanup) (info : PassInfo) {doc : Document}
    (hdoc : doc.WellFormed) (context : Context S) (seen : σ) :
    ∃ next, run observe (cleanups.map Cleanup.plugin) info doc context seen = ⟨.ok (), next⟩ ∧
      next.doc.WellFormed ∧
      next.doc.forest = (sweepAll true (jobsOf cleanups) doc.forest).2 := by
  obtain ⟨next, hrun, hbecomes⟩ := run_becomes observe cleanups info hdoc context seen
  exact ⟨next, hrun, hbecomes.wellFormed, hbecomes.forest_eq⟩

end Cleanup

end SvgTidy
