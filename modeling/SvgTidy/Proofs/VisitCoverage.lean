import SvgTidy.Proofs.Navigation
import SvgTidy.Proofs.RemovalHooks
import SvgTidy.Proofs.Snapshots

/-!
# What a pass visits when its hooks only take away

Hooks that remove nodes may do so anywhere: the node they are called for, what is above it, what has
been visited and what is still to come. The visits go by lists of children that were taken earlier
(`Follows`). All documents of the pass lie between the first one and the last one
(`Document.Between`), and this decides what is visited: no node but where it stood at first, and
every node that is attached in the end.

Principal results: `walk_ne_tooDeep` — a pass ends, whatever bound on its levels it is given beyond
the number of nodes; `Follows.ids_sublist` — the nodes visited are nodes of the first document in
their order; `Follows.covers` — none is left out that stays; `run_covers` — a whole pass.
-/

namespace SvgTidy

open Document (Shrinks)

/-- The node that a hook is called for. -/
def Site.id : Site → NodeId
  | .root => Document.root
  | .node _ id _ => id

/-- What a hook is told of a node is so in a document. -/
def Site.Holds (doc : Document) : Site → Prop
  | .root => True
  | .node kind id parent => doc.kind? id = some kind ∧ doc.parent? id = some parent

namespace Document

/-- A document between two others: some of what the last one has lost is gone, and no more. -/
structure Between (first last doc : Document) : Prop where
  before : first.Shrinks doc
  after : doc.Shrinks last

end Document

open Document (Between)

namespace Pass

/-! ## The end of a pass -/

section Ending

variable {S : Slots} {σ : Type} {observe : Observer S σ} {J : Progress S σ → Prop}

theorem done_ne_tooDeep (s : Progress S σ) : (done s).result ≠ .error .tooDeep :=
  nofun

theorem andThen_ne_tooDeep {o : Outcome S σ} {next : Progress S σ → Outcome S σ}
    (ho : o.result ≠ .error .tooDeep) (hnext : (next o.state).result ≠ .error .tooDeep) :
    (andThen o next).result ≠ .error .tooDeep := by
  unfold andThen
  split
  · exact hnext
  · exact ho

theorem inTurn_ne_tooDeep {α : Type} {action : α → Progress S σ → Outcome S σ}
    (hkeeps : ∀ a s, J s → J (action a s).state)
    (haction : ∀ a s, J s → (action a s).result ≠ .error .tooDeep) :
    ∀ (items : List α) (s : Progress S σ), J s → (inTurn action items s).result ≠ .error .tooDeep
  | [], s, _ => done_ne_tooDeep s
  | a :: rest, s, hs => andThen_ne_tooDeep (haction a s hs)
      (inTurn_ne_tooDeep hkeeps haction rest _ (hkeeps a s hs))

theorem call_ne_tooDeep (phase : Phase) (site : Site) (place : Nat) (s : Progress S σ) :
    (call observe phase site place s).result ≠ .error .tooDeep := by
  unfold call
  split
  · exact done_ne_tooDeep s
  · rename_i name visitor _
    generalize (visitor.hook phase site).run.run ⟨s.doc, s.context, visitor.memory⟩ = out
    obtain ⟨_ | _, _⟩ := out <;> exact nofun

theorem enter_ne_tooDeep (site : Site) (s : Progress S σ) :
    (enter observe site s).result ≠ .error .tooDeep :=
  inTurn_ne_tooDeep (J := fun _ => True) (fun _ _ _ => trivial)
    (fun place s _ => call_ne_tooDeep .enter site place s) _ s trivial

theorem leave_ne_tooDeep (site : Site) (s : Progress S σ) :
    (leave observe site s).result ≠ .error .tooDeep :=
  inTurn_ne_tooDeep (J := fun _ => True) (fun _ _ _ => trivial)
    (fun place s _ => call_ne_tooDeep .leave site place s) _ s trivial

end Ending

/-- The document has shrunk from a given one, and the hooks to come only take away. -/
structure Dwindling {S : Slots} {σ : Type} (first : Document) (s : Progress S σ) : Prop where
  shrinks : first.Shrinks s.doc
  takesAway : ∀ a ∈ s.active, a.visitor.TakesAway

namespace Dwindling

variable {S : Slots} {σ : Type} {first : Document} {s : Progress S σ}

theorem call (observe : Observer S σ) (h : Dwindling first s) (phase : Phase) (site : Site)
    (place : Nat) :
    Dwindling first (Pass.call observe phase site place s).state ∧
      s.doc.Shrinks (Pass.call observe phase site place s).state.doc := by
  obtain ⟨htakes, hsame | ⟨visitor, bench, hvisitor, hbench, hdoc, -⟩⟩ :=
    call_spec observe (fun _ _ h => h) h.takesAway phase site place
  · rw [hsame]
    exact ⟨h, .refl h.shrinks.wellFormed⟩
  · have hshrinks := hvisitor.shrinks phase site bench (hbench ▸ h.shrinks.wellFormed)
    rw [← hdoc, hbench] at hshrinks
    exact ⟨⟨h.shrinks.trans hshrinks, htakes⟩, hshrinks⟩

theorem ask (observe : Observer S σ) (h : Dwindling first s) {plugin : Plugin S}
    (hplugin : plugin.TakesAway) (info : PassInfo) (place : Nat) :
    Dwindling first (Pass.ask observe info plugin place s) :=
  ⟨h.shrinks, ask_spec observe h.takesAway hplugin info place⟩

/-- A visit goes down no further than the first document does: the way up from a node is as long as
it was, as long as the node is where it stood. -/
theorem visitChildren_ne_tooDeep (observe : Observer S σ) (hfirst : first.WellFormed) (depth : Nat)
    {parent : NodeId} (hs : Dwindling first s) (hparent : first.knows parent = true)
    (hdepth : first.nodes.size < depth + (first.chain parent).length) :
    (visitChildren observe depth parent s).result ≠ .error .tooDeep := by
  induction depth generalizing parent s with
  | zero =>
    have := hfirst.length_climb_le first.nodes.size hparent
    rw [Document.chain] at hdepth
    omega
  | succ depth ih =>
    have hcall (phase : Phase) (site : Site) (place : Nat) (s : Progress S σ)
        (hs : Dwindling first s) := (hs.call observe phase site place).1
    have hbelow := visitChildren_induct hcall depth
    unfold visitChildren
    refine inTurn_ne_tooDeep (J := Dwindling first) (fun id s hs => ?_) (fun id s hs => ?_) _ s hs
    · split
      · exact visit_induct hcall hbelow parent id s hs
      · exact hs
    · split
      · rename_i hstays
        have hlink := hs.shrinks.parent?_of_some hstays
        have hknown : first.knows id = true := Document.knows_of_parent? hlink
        have hchain : (first.chain id).length = (first.chain parent).length + 1 := by
          rw [hfirst.chain_eq hknown, hlink]
          rfl
        unfold visit
        split
        · exact done_ne_tooDeep _
        · rename_i kind _
          have hentered := enter_induct hcall (.node kind id parent) s hs
          refine andThen_ne_tooDeep (enter_ne_tooDeep _ s) ?_
          refine andThen_ne_tooDeep ?_ (leave_ne_tooDeep _ _)
          split
          · exact ih hentered hknown (by omega)
          · exact done_ne_tooDeep _
      · exact done_ne_tooDeep _

/-- **A pass ends.** It does not come to the bound on the levels that it may go down, if this is the
number of nodes or more. -/
theorem walk_ne_tooDeep (observe : Observer S σ) (h : Dwindling first s)
    (hfirst : first.WellFormed) {depth : Nat} (hdepth : first.nodes.size ≤ depth) :
    (walk observe depth s).result ≠ .error .tooDeep := by
  have hchain : (first.chain Document.root).length = 1 := by
    rw [hfirst.chain_eq hfirst.knows_root, hfirst.root_free]
    rfl
  have hentered := enter_induct (fun phase site place s (hs : Dwindling first s) =>
    (hs.call observe phase site place).1) .root s h
  unfold walk
  refine andThen_ne_tooDeep (enter_ne_tooDeep _ s) ?_
  refine andThen_ne_tooDeep ?_ (leave_ne_tooDeep _ _)
  exact visitChildren_ne_tooDeep observe hfirst depth hentered hfirst.knows_root (by omega)

end Dwindling

/-! ## The sites of a pass -/

/-- The site of a call of the hook of one visitor in one phase. -/
def siteOf? (place : Nat) (phase : Phase) : Event → Option Site
  | .called place' phase' site => if place' = place ∧ phase' = phase then some site else none
  | .asked _ _ => none

/-- The sites for which the hook of one visitor is called in one phase, in the order of the calls. -/
def sites (place : Nat) (phase : Phase) (events : List Event) : List Site :=
  events.filterMap (siteOf? place phase)

section Sites

variable {n place : Nat}

theorem sites_append (place : Nat) (phase : Phase) (first rest : List Event) :
    sites place phase (first ++ rest) = sites place phase first ++ sites place phase rest :=
  List.filterMap_append

theorem sites_called (place : Nat) (phase : Phase) (site : Site) (places : List Nat) :
    sites place phase (places.map (.called · phase site)) =
      List.replicate (places.count place) site := by
  induction places with
  | nil => rfl
  | cons p rest ih =>
    rw [sites] at ih
    rw [List.map_cons, sites, List.filterMap_cons, siteOf?, ih]
    by_cases hp : p = place
    · rw [if_pos ⟨hp, rfl⟩, hp, List.count_cons_self, List.replicate_succ]
    · rw [if_neg fun h => hp h.1, List.count_cons_of_ne hp]

theorem sites_of_ne (place : Nat) {phase phase' : Phase} (hne : phase' ≠ phase) (site : Site)
    (places : List Nat) : sites place phase (places.map (.called · phase' site)) = [] := by
  rw [sites, List.filterMap_map, List.filterMap_eq_nil_iff]
  exact fun p _ => if_neg fun h => hne h.2

/-- Each visitor is called once for a site in each phase. -/
theorem sites_entering (hplace : place < n) (site : Site) :
    sites place .enter (entering n site) = [site] ∧ sites place .leave (entering n site) = [] := by
  have hcount : (List.range n).count place = 1 :=
    List.count_eq_one_of_mem List.nodup_range (List.mem_range.mpr hplace)
  refine ⟨?_, sites_of_ne place (by decide) site _⟩
  rw [entering, sites_called, hcount]
  rfl

theorem sites_leaving (hplace : place < n) (site : Site) :
    sites place .leave (leaving n site) = [site] ∧ sites place .enter (leaving n site) = [] := by
  have hcount : (List.range n).reverse.count place = 1 := by
    rw [List.count_reverse]
    exact List.count_eq_one_of_mem List.nodup_range (List.mem_range.mpr hplace)
  refine ⟨?_, sites_of_ne place (by decide) site _⟩
  rw [leaving, sites_called, hcount]
  rfl

end Sites

/-! ## All visits of a pass -/

namespace Visit

/-- The kind of the node visited. -/
def kind : Visit → NodeKind
  | mk kind _ _ _ _ _ => kind

/-- The container through which it was reached. -/
def parent : Visit → NodeId
  | mk _ _ parent _ _ _ => parent

/-- The site of the node visited. -/
def site (visit : Visit) : Site :=
  .node visit.kind visit.id visit.parent

mutual

/-- A visit and all visits in it, as they begin. -/
def flat : Visit → List Visit
  | mk kind id parent entered inner left => mk kind id parent entered inner left :: flatAll inner

/-- Visits one after the other, with all visits in them. -/
def flatAll : List Visit → List Visit
  | [] => []
  | visit :: rest => visit.flat ++ flatAll rest

end

mutual

/-- The sites of a visit and of all visits in it, as they end. -/
def ends : Visit → List Site
  | mk kind id parent _ inner _ => endsAll inner ++ [.node kind id parent]

/-- The sites of visits one after the other, as they end. -/
def endsAll : List Visit → List Site
  | [] => []
  | visit :: rest => visit.ends ++ endsAll rest

end

theorem self_mem_flat (visit : Visit) : visit ∈ visit.flat := by
  cases visit
  exact List.mem_cons_self

theorem flat_sublist_flatAll {visit : Visit} : ∀ {visits : List Visit}, visit ∈ visits →
    visit.flat.Sublist (flatAll visits)
  | first :: rest, h => by
    rw [flatAll]
    rcases List.mem_cons.mp h with rfl | h
    · exact List.sublist_append_left _ _
    · exact (flat_sublist_flatAll h).trans (List.sublist_append_right _ _)

mutual

theorem mem_flat_of_inner {visit below : Visit} (hbelow : below ∈ visit.inner) :
    ∀ {v : Visit}, visit ∈ v.flat → below ∈ v.flat
  | mk kind id parent entered inner left, h => by
    rw [flat] at h ⊢
    rcases List.mem_cons.mp h with rfl | h
    · exact List.mem_cons_of_mem _ ((flat_sublist_flatAll hbelow).subset below.self_mem_flat)
    · exact List.mem_cons_of_mem _ (mem_flatAll_of_inner hbelow h)

/-- The visits in one of the visits are among all visits. -/
theorem mem_flatAll_of_inner {visit below : Visit} (hbelow : below ∈ visit.inner) :
    ∀ {visits : List Visit}, visit ∈ flatAll visits → below ∈ flatAll visits
  | first :: rest, h => by
    rw [flatAll, List.mem_append] at h ⊢
    exact h.imp (mem_flat_of_inner hbelow) (mem_flatAll_of_inner hbelow)

end

mutual

theorem ends_perm : ∀ visit : Visit, visit.ends.Perm (visit.flat.map site)
  | mk kind id parent entered inner left => by
    rw [ends, flat, List.map_cons]
    exact (List.perm_append_singleton _ _).trans ((endsAll_perm inner).cons _)

/-- Visits end in another order than they begin. -/
theorem endsAll_perm : ∀ visits : List Visit, (endsAll visits).Perm ((flatAll visits).map site)
  | [] => .nil
  | visit :: rest => by
    rw [endsAll, flatAll, List.map_append]
    exact (ends_perm visit).append (endsAll_perm rest)

end

end Visit

/-- All documents have a property while visits go on, from the one before the first of them. -/
def Throughout (P : Document → Prop) (doc : Document) (visits : List Visit) : Prop :=
  P doc ∧ ∀ moment ∈ Visit.momentsAll visits, P moment.doc

namespace Throughout

variable {P : Document → Prop} {doc : Document} {kind : NodeKind} {id container : NodeId}
  {entered left : List Moment} {below visits : List Visit}

theorem inner (h : Throughout P doc (.mk kind id container entered below left :: visits)) :
    Throughout P (docAfter doc entered) below := by
  obtain ⟨hdoc, hall⟩ := h
  simp only [Visit.momentsAll, Visit.moments, List.mem_append] at hall
  exact ⟨docAfter_induct hdoc fun m hm => hall m (.inl (.inl hm)),
    fun m hm => hall m (.inl (.inr (.inl hm)))⟩

theorem rest (h : Throughout P doc (.mk kind id container entered below left :: visits)) :
    Throughout P (docAfter doc (Visit.mk kind id container entered below left).moments) visits := by
  obtain ⟨hdoc, hall⟩ := h
  simp only [Visit.momentsAll, List.mem_append] at hall
  exact ⟨docAfter_induct hdoc fun m hm => hall m (.inl hm), fun m hm => hall m (.inr hm)⟩

end Throughout

namespace Follows

open Visit (flat flatAll endsAll)

variable {n place : Nat} {first last doc : Document} {container id : NodeId}
  {entries : List NodeId} {visits : List Visit} {trees : List Tree}

/-- What a visitor is called for on entering, and what on leaving. -/
theorem sites_moments (h : Follows n doc container entries visits) (hplace : place < n) :
    sites place .enter ((Visit.momentsAll visits).map Moment.event) =
        (flatAll visits).map Visit.site ∧
      sites place .leave ((Visit.momentsAll visits).map Moment.event) = endsAll visits := by
  induction h with
  | nil => exact ⟨rfl, rfl⟩
  | passed _ _ ih => exact ih
  | @visited doc container id kind entries entered left inner visits _ _ henter _ hleave _ ihinner
      ihrest =>
    have hentering := sites_entering hplace (.node kind id container)
    have hleaving := sites_leaving hplace (.node kind id container)
    simp only [Visit.momentsAll, Visit.moments, List.map_append, henter, hleave, sites_append]
    rw [hentering.1, hentering.2, hleaving.1, hleaving.2, ihinner.1, ihinner.2, ihrest.1, ihrest.2]
    simp [flatAll, flat, endsAll, Visit.ends, Visit.site, Visit.kind, Visit.id, Visit.parent]

/-- **The nodes visited are nodes of the first document, in their order**, if the entries are. -/
theorem ids_sublist (h : Follows n doc container entries visits)
    (hthrough : Throughout first.Shrinks doc visits) (hshows : ∀ t ∈ trees, first.Shows t)
    (hentries : entries.Sublist (trees.map Tree.id)) :
    ((flatAll visits).map Visit.id).Sublist (Tree.idsAll trees) := by
  induction h generalizing trees with
  | nil => exact List.nil_sublist _
  | passed _ _ ih => exact ih hthrough hshows (List.sublist_of_cons_sublist hentries)
  | @visited doc container id kind entries entered left inner visits _ _ _ _ _ _ ihinner ihrest =>
    -- the entries after this one are among the trees after its tree
    obtain ⟨before, after, hsplit, hid, hrest⟩ := List.cons_sublist_iff.mp hentries
    obtain ⟨front, back, rfl, rfl, rfl⟩ := List.map_eq_append_iff.mp hsplit
    obtain ⟨t, ht, rfl⟩ := List.mem_map.mp hid
    obtain ⟨early, late, rfl⟩ := List.append_of_mem ht
    have htree := hshows t (by simp)
    have hsnapshot : (snapshot (docAfter doc entered) kind t.id container).Sublist
        (t.children.map Tree.id) := by
      unfold snapshot
      split
      · rw [← htree.children]
        exact hthrough.inner.1.children_sublist t.id
      · exact List.nil_sublist _
    have hinner := ihinner hthrough.inner htree.subtrees hsnapshot
    have hlater := ihrest hthrough.rest (fun x hx => hshows x (List.mem_append_right _ hx)) hrest
    have hself : ((Visit.mk kind t.id container entered inner left).flat.map Visit.id).Sublist
        t.ids := by
      obtain ⟨top, data, children⟩ := t
      exact hinner.cons_cons top
    rw [flatAll, List.map_append, Tree.idsAll_append, Tree.idsAll_append, Tree.idsAll]
    refine List.Sublist.append ?_ hlater
    exact (hself.trans (List.sublist_append_left _ _)).trans (List.sublist_append_right _ _)

theorem descendants_sublist
    (h : Follows n doc Document.root (doc.children Document.root) visits) (hfirst : first.WellFormed)
    (hthrough : Throughout first.Shrinks doc visits) :
    ((flatAll visits).map Visit.id).Sublist (first.descendants Document.root) := by
  obtain ⟨hroot, hshows, -⟩ := hfirst.forest_spec
  rw [hfirst.descendants_root]
  refine h.ids_sublist hthrough hshows ?_
  rw [← hroot]
  exact hthrough.1.children_sublist Document.root

/-- **No entry is left out that keeps its parent.** -/
theorem exists_visit (h : Follows n doc container entries visits)
    (hthrough : Throughout (Between first last) doc visits) (hid : id ∈ entries)
    (hlink : last.parent? id = some container) : ∃ visit ∈ visits, visit.id = id := by
  induction h with
  | nil => cases hid
  | passed hmoved _ ih =>
    rcases List.mem_cons.mp hid with rfl | hid
    · exact absurd (hthrough.1.after.parent?_of_some hlink) hmoved
    · exact ih hthrough hid hlink
  | visited _ _ _ _ _ _ _ ihrest =>
    rcases List.mem_cons.mp hid with rfl | hid
    · exact ⟨_, List.mem_cons_self, rfl⟩
    · obtain ⟨visit, hvisit, hsame⟩ := ihrest hthrough.rest hid hlink
      exact ⟨visit, List.mem_cons_of_mem _ hvisit, hsame⟩

end Follows

/-- A visit to a node where it stood at first. The visits in it follow the children that it has when
it has been entered. -/
structure Visit.Sound (n : Nat) (first last : Document) (visit : Visit) : Prop where
  parent? : first.parent? visit.id = some visit.parent
  kind? : first.kind? visit.id = some visit.kind
  inner : ∃ doc, Throughout (Between first last) doc visit.inner ∧
    Follows n doc visit.id (snapshot doc visit.kind visit.id visit.parent) visit.inner

theorem Follows.sound {n : Nat} {first last doc : Document} {container : NodeId}
    {entries : List NodeId} {visits : List Visit} (h : Follows n doc container entries visits)
    (hthrough : Throughout (Between first last) doc visits) :
    ∀ visit ∈ Visit.flatAll visits, visit.Sound n first last := by
  induction h with
  | nil => exact nofun
  | passed _ _ ih => exact ih hthrough
  | @visited doc container id kind entries entered left inner visits hstays hkind _ hinner _ _ ihinner
      ihrest =>
    intro visit hvisit
    rw [Visit.flatAll, Visit.flat, List.cons_append, List.mem_cons, List.mem_append] at hvisit
    rcases hvisit with rfl | hvisit | hvisit
    · exact ⟨hthrough.1.before.parent?_of_some hstays, (hthrough.1.before.kind? id).symm.trans hkind,
        _, hthrough.inner, hinner⟩
    · exact ihinner hthrough.inner visit hvisit
    · exact ihrest hthrough.rest visit hvisit

/-- **All nodes that are attached in the end have been visited.** -/
theorem Follows.covers {n : Nat} {first last doc : Document} {visits : List Visit} {id : NodeId}
    (h : Follows n doc Document.root (doc.children Document.root) visits)
    (hthrough : Throughout (Between first last) doc visits) (hfirst : first.WellFormed)
    (hlast : last.WellFormed) (hid : last.isAttached id = true) :
    id = Document.root ∨ ∃ visit ∈ Visit.flatAll visits, visit.id = id := by
  have hchild {doc : Document} {id parent : NodeId} (hbetween : Between first last doc)
      (hlink : last.parent? id = some parent) : id ∈ doc.children parent :=
    (hbetween.after.children_sublist parent).subset ((hlast.linked parent id).mpr hlink)
  refine hlast.attached_induct (motive := fun id =>
    id = Document.root ∨ ∃ visit ∈ Visit.flatAll visits, visit.id = id) (.inl rfl)
    (fun id parent hlink hparent ih => .inr ?_) hid
  rcases ih with rfl | ⟨visit, hvisit, rfl⟩
  · obtain ⟨below, hbelow, hsame⟩ := h.exists_visit hthrough (hchild hthrough.1 hlink) hlink
    exact ⟨below, (Visit.flat_sublist_flatAll hbelow).subset below.self_mem_flat, hsame⟩
  · have hsound := h.sound hthrough visit hvisit
    obtain ⟨later, hthrough', hfollows⟩ := hsound.inner
    have hroot : visit.id ≠ Document.root := hfirst.ne_root_of_parent? hsound.parent?
    have hplace : later.parent? visit.id = some visit.parent := by
      obtain hid | ⟨place, hplace, -⟩ := hlast.attached_cases hparent
      · exact absurd hid hroot
      · have hlater := hthrough'.1.after.parent?_of_some hplace
        rw [hlater, ← hthrough'.1.before.parent?_of_some hlater, hsound.parent?]
    have hkind : visit.kind = .element := by
      have hsame : last.kind? visit.id = some visit.kind := by
        rw [hthrough'.1.after.kind?, hthrough'.1.before.kind?, hsound.kind?]
      rcases hlast.container _ (List.ne_nil_of_mem ((hlast.linked _ id).mpr hlink)) with h | h
      · exact absurd ((hlast.root_iff _).mp h) hroot
      · exact Option.some.inj (hsame.symm.trans h)
    -- the node visited is a container and stays in its place, so its children are looked at
    have hsnapshot : id ∈ snapshot later visit.kind visit.id visit.parent := by
      rw [snapshot, if_pos ⟨hkind, hplace⟩]
      exact hchild hthrough'.1 hlink
    obtain ⟨below, hbelow, hsame⟩ := hfollows.exists_visit hthrough' hsnapshot hlink
    exact ⟨below, Visit.mem_flatAll_of_inner hbelow hvisit, hsame⟩

/-! ## Whole passes -/

/-- **A pass with `n` visitors goes over a document, from which it takes some away.** The hook of each
visitor is called for the root and for nodes below it in their order, for none twice and always with
the kind and the parent that the node had at first. It is called once for each node that is left,
on entering as on leaving. What is left is the tree without the subtrees that were taken out. -/
structure Covers (n : Nat) (doc next : Document) (events : List Event) : Prop where
  shrinks : doc.Shrinks next
  thinned : doc.Thinned next (Shrinks.remains next)
  order : ∀ place < n, ((sites place .enter events).map Site.id).Sublist
    (Document.root :: doc.descendants Document.root)
  once : ∀ place < n, ∀ phase, ((sites place phase events).map Site.id).Nodup
  holds : ∀ place < n, ∀ phase, ∀ site ∈ sites place phase events, site.Holds doc
  left : ∀ place < n, ∀ phase id, next.isAttached id = true →
    ((sites place phase events).map Site.id).count id = 1

/-- The sites of a whole pass: the root, and those of its visits in one order or another. -/
theorem Follows.sites_perm {n place : Nat} {doc : Document} {container : NodeId}
    {entries : List NodeId} {visits : List Visit} {entered left : List Moment}
    (h : Follows n doc container entries visits)
    (hentered : entered.map Moment.event = entering n .root)
    (hleft : left.map Moment.event = leaving n .root) (hplace : place < n) :
    let events := (entered ++ (Visit.momentsAll visits ++ left)).map Moment.event
    sites place .enter events = .root :: (Visit.flatAll visits).map Visit.site ∧
      ∀ phase, (sites place phase events).Perm
        (.root :: (Visit.flatAll visits).map Visit.site) := by
  intro events
  have hvisits := h.sites_moments hplace
  have hentering := sites_entering hplace .root
  have hleaving := sites_leaving hplace .root
  have henter : sites place .enter events = .root :: (Visit.flatAll visits).map Visit.site := by
    simp only [events, List.map_append, hentered, hleft, sites_append]
    rw [hentering.1, hvisits.1, hleaving.2, List.append_nil, List.singleton_append]
  have hleave : sites place .leave events = Visit.endsAll visits ++ [.root] := by
    simp only [events, List.map_append, hentered, hleft, sites_append]
    rw [hentering.2, hvisits.2, hleaving.1, List.nil_append]
  refine ⟨henter, fun phase => ?_⟩
  cases phase with
  | enter => rw [henter]
  | leave =>
    rw [hleave]
    exact (List.perm_append_singleton _ _).trans ((Visit.endsAll_perm visits).cons _)

/-- Visits that follow the lists of children go over the document. -/
theorem Obeys.covers {n : Nat} {doc last : Document} {moments : List Moment}
    (h : Obeys n doc moments) (hdoc : doc.WellFormed) (hlast : doc.Shrinks last)
    (hbetween : ∀ moment ∈ moments, Between doc last moment.doc) :
    Covers n doc last (moments.map Moment.event) := by
  obtain ⟨entered, visits, left, rfl, hentered, hvisits, hleft, -⟩ := h
  simp only [List.mem_append] at hbetween
  have hthrough : Throughout (Between doc last) (docAfter doc entered) visits :=
    ⟨docAfter_induct ⟨.refl hdoc, hlast⟩ fun m hm => hbetween m (.inl hm),
      fun m hm => hbetween m (.inr (.inl hm))⟩
  have horder := hvisits.descendants_sublist hdoc
    ⟨hthrough.1.before, fun m hm => (hthrough.2 m hm).before⟩
  have hids : (Site.root :: (Visit.flatAll visits).map Visit.site).map Site.id =
      Document.root :: (Visit.flatAll visits).map Visit.id := by
    rw [List.map_cons, List.map_map]
    rfl
  have hperm {place : Nat} (hplace : place < n) (phase : Phase) :=
    (hvisits.sites_perm hentered hleft hplace).2 phase
  have honce : (Document.root :: (Visit.flatAll visits).map Visit.id).Nodup := by
    refine List.Nodup.sublist (horder.cons_cons _) (List.nodup_cons.mpr ⟨fun hmem => ?_, ?_⟩)
    · exact (hdoc.mem_descendants_root.mp hmem).2 rfl
    · exact hdoc.nodup_descendants Document.root
  refine ⟨hlast, hlast.thinned hdoc, fun place hplace => ?_, fun place hplace phase => ?_,
    fun place hplace phase site hsite => ?_, fun place hplace phase id hid => ?_⟩
  · rw [(hvisits.sites_perm hentered hleft hplace).1, hids]
    exact horder.cons_cons _
  · rw [((hperm hplace phase).map Site.id).nodup_iff, hids]
    exact honce
  · rcases List.mem_cons.mp ((hperm hplace phase).subset hsite) with rfl | hsite
    · trivial
    · obtain ⟨visit, hvisit, rfl⟩ := List.mem_map.mp hsite
      have hsound := hvisits.sound hthrough visit hvisit
      exact ⟨hsound.kind?, hsound.parent?⟩
  · rw [((hperm hplace phase).map Site.id).count_eq, hids]
    refine List.count_eq_one_of_mem honce ?_
    rcases hvisits.covers hthrough hdoc hlast.wellFormed hid with rfl | ⟨visit, hvisit, rfl⟩
    · exact List.mem_cons_self
    · exact List.mem_cons_of_mem _ (List.mem_map_of_mem hvisit)

/-- The document has shrunk from a given one at every moment told and since, and the hooks to come
only take away. -/
structure Narrowing {S : Slots} (first : Document) (s : Progress S (List Moment)) : Prop where
  dwindling : Dwindling first s
  moments : ∀ moment ∈ s.seen, Between first s.doc moment.doc

namespace Narrowing

variable {S : Slots} {first : Document} {s : Progress S (List Moment)}

theorem call (h : Narrowing first s) (phase : Phase) (site : Site) (place : Nat) :
    Narrowing first (Pass.call chronicle phase site place s).state := by
  obtain ⟨hnext, hdoc⟩ := h.dwindling.call chronicle phase site place
  refine ⟨hnext, fun moment hmoment => ?_⟩
  obtain ⟨-, hsame | ⟨_, _, _, _, _, hseen⟩⟩ :=
    call_spec chronicle (fun _ _ h => h) h.dwindling.takesAway phase site place
  · rw [hsame] at hmoment ⊢
    exact h.moments moment hmoment
  · rw [hseen] at hmoment
    rcases List.mem_append.mp hmoment with hmoment | hmoment
    · have hold := h.moments moment hmoment
      exact ⟨hold.before, hold.after.trans hdoc⟩
    · rw [List.mem_singleton.mp hmoment]
      exact ⟨hnext.shrinks, .refl hnext.shrinks.wellFormed⟩

theorem ask (h : Narrowing first s) {plugin : Plugin S} (hplugin : plugin.TakesAway)
    (info : PassInfo) (place : Nat) : Narrowing first (Pass.ask chronicle info plugin place s) := by
  refine ⟨h.dwindling.ask chronicle hplugin info place, fun moment hmoment => ?_⟩
  rcases List.mem_append.mp hmoment with hmoment | hmoment
  · exact h.moments moment hmoment
  · rw [List.mem_singleton.mp hmoment]
    exact ⟨h.dwindling.shrinks, .refl h.dwindling.shrinks.wellFormed⟩

theorem sane (h : Narrowing first s) : Sane s :=
  ⟨h.dwindling.shrinks.wellFormed,
    fun a ha phase site bench hbench =>
      ((h.dwindling.takesAway a ha).shrinks phase site bench hbench).wellFormed,
    fun moment hmoment => (h.moments moment hmoment).before.wellFormed⟩

end Narrowing

/-- **A pass of plugins that only take away ends, and goes over the whole document.** The bound on
the levels that it may go down has no part in it. If no hook fails, the hooks are called for every
node that is left, once on entering it and once on leaving it. -/
theorem run_covers {S : Slots} {plugins : List (Plugin S)} {first doc : Document}
    (hfirst : first.Initial) (hdoc : Document.History first doc)
    (hplugins : ∀ plugin ∈ plugins, plugin.TakesAway) (info : PassInfo) (context : Context S) :
    (∀ {σ : Type} (observe : Observer S σ) (seen : σ),
        (run observe plugins info doc context seen).result ≠ .error .tooDeep ∧
          ∀ depth, doc.nodes.size ≤ depth →
            (walk observe depth (recruit observe info plugins
              { doc, context, active := [], seen })).result ≠ .error .tooDeep) ∧
      ((run chronicle plugins info doc context []).result = .ok () → ∃ moments,
        (run chronicle plugins info doc context []).state.seen =
            (requests info plugins).map (⟨·, doc⟩) ++ moments ∧
          Covers (roster info doc plugins context).length doc
            (run chronicle plugins info doc context []).state.doc (moments.map Moment.event)) := by
  obtain ⟨hwell, -⟩ := Document.wellFormed_of_history hfirst hdoc .refl
  have hstart {σ : Type} (seen : σ) :
      Dwindling doc ({ doc, context, active := [], seen } : Progress S σ) := ⟨.refl hwell, nofun⟩
  refine ⟨fun observe seen => ?_, fun hok => ?_⟩
  · have hrecruited : Dwindling doc
        (recruit observe info plugins { doc, context, active := [], seen }) :=
      recruit_induct (I := Dwindling doc)
        (fun plugin hplugin place s hs => hs.ask observe (hplugins plugin hplugin) info place) _
        (hstart seen)
    exact ⟨hrecruited.walk_ne_tooDeep observe hwell (Nat.le_add_right _ _), fun _ hdepth =>
      hrecruited.walk_ne_tooDeep observe hwell hdepth⟩
  · have hrecruited : Narrowing doc
        (recruit chronicle info plugins { doc, context, active := [], seen := [] }) :=
      recruit_induct (fun plugin hplugin place s hs => hs.ask (hplugins plugin hplugin) info place) _
        ⟨hstart [], nofun⟩
    have hlast : Narrowing doc (run chronicle plugins info doc context []).state :=
      walk_induct (fun phase site place s hs => hs.call phase site place) _ _ hrecruited
    obtain ⟨hactive, hsame, hseen⟩ := recruit_recording Moment.mk info plugins
      ({ doc, context, active := [], seen := [] } : Progress S (List Moment))
    obtain ⟨moments, hobeys, htold⟩ := (chronicled_walk hrecruited.sane _).ok hok
    have hbetween (moment : Moment) (hmoment : moment ∈ moments) :
        Between doc (run chronicle plugins info doc context []).state.doc moment.doc :=
      hlast.moments moment (htold ▸ List.mem_append_right _ hmoment)
    rw [show recruit chronicle info plugins { doc, context, active := [], seen := [] } =
      recruit (recording Moment.mk) info plugins { doc, context, active := [], seen := [] } from rfl,
      hactive, hsame] at hobeys
    refine ⟨moments, htold.trans ?_, hobeys.covers hwell hlast.dwindling.shrinks hbetween⟩
    exact congrArg (· ++ moments) hseen

/-- When the first of the three is entered, the third gets another name, and the second is taken out
before its turn comes, and then the first itself. -/
def pruning : Plugin Slots.none where
  name := "pruning"
  visitor _ _ context := (some
    { Memory := Unit
      memory := ()
      hook
        | .enter, .node .element ⟨2⟩ _ => do
          Hook.change (·.updateElement ⟨4⟩ ({ · with name := "d" }))
          Hook.edit (Document.remove ⟨3⟩)
          Hook.edit (Document.remove ⟨2⟩)
        | _, _ => pure () }, context)

theorem pruning_takesAway : pruning.TakesAway := by
  intro info doc context visitor hvisitor phase site
  cases hvisitor
  simp only
  split
  · exact .bind (.updateElement _ _) fun _ => .bind (.remove _) fun _ => .remove _
  · exact .pure ()

theorem run_covers_pruning :
    Document.Initial .empty ∧ Document.History .empty threeInOne ∧
      (∀ plugin ∈ [pruning], plugin.TakesAway) ∧
      (run chronicle [pruning] ⟨none, 0⟩ threeInOne .empty []).result = .ok () ∧
      (run chronicle [pruning] ⟨none, 0⟩ threeInOne .empty []).state.doc.descendants
        Document.root = [⟨1⟩, ⟨4⟩] ∧
      ∃ moments, (run chronicle [pruning] ⟨none, 0⟩ threeInOne .empty []).state.seen =
          ⟨.asked 0 0, threeInOne⟩ :: moments ∧
        Covers 1 threeInOne (run chronicle [pruning] ⟨none, 0⟩ threeInOne .empty []).state.doc
          (moments.map Moment.event) := by
  have hhistory : Document.History .empty threeInOne := .calls _ _
  have hplugins : ∀ plugin ∈ [pruning], plugin.TakesAway := by
    intro plugin hplugin
    rw [List.mem_singleton.mp hplugin]
    exact pruning_takesAway
  have hok : (run chronicle [pruning] ⟨none, 0⟩ threeInOne .empty []).result = .ok () := rfl
  obtain ⟨moments, hseen, hcovers⟩ :=
    (run_covers .empty hhistory hplugins ⟨none, 0⟩ .empty).2 hok
  exact ⟨.empty, hhistory, hplugins, hok, by decide +kernel, moments, hseen, hcovers⟩

end Pass

end SvgTidy
