import SvgTidy.Proofs.Histories
import SvgTidy.Proofs.HookOrder

/-!
# Which children a pass visits

The children of a container are visited as its list of children stood when the container had been
entered. Hooks may move nodes at any moment after that; a node of the list whose parent link is
another one when its turn comes is passed over, and a node that comes into the container later is
not visited through it. `Follows` says so of the visits of a pass, with the document at each moment.

What an observer is told is a list of moments (`Moment`). A run that ends well is a list of visits
that follow their snapshots, told one after the other (`Obeys`). Of a run that a hook aborts the same
has held until then (`ObeysUntil`), and it could have gone on (`ObeysUntil.completes`). The induction
is on the number of levels, as for the order of calls, and what a part of a pass adds to the chronicle
(`Tells`) now depends on the document the part begins with.

Principal result: `run_obeys`.
-/

namespace SvgTidy

namespace Pass

/-! ## Visits -/

/-- A moment of a pass: what happened, and the document it left. -/
structure Moment where
  event : Event
  doc : Document

/-- The document after some moments. -/
def docAfter (doc : Document) (moments : List Moment) : Document :=
  moments.foldl (fun _ moment => moment.doc) doc

/-- What is seen of the visit to a node: the calls on entering it, the visits to its children, and
the calls on leaving it. -/
inductive Visit where
  | mk (kind : NodeKind) (id parent : NodeId) (entered : List Moment) (inner : List Visit)
      (left : List Moment)

namespace Visit

/-- The node visited. -/
def id : Visit → NodeId
  | mk _ id _ _ _ _ => id

/-- The visits to its children. -/
def inner : Visit → List Visit
  | mk _ _ _ _ inner _ => inner

mutual

/-- The moments of a visit in their order. -/
def moments : Visit → List Moment
  | mk _ _ _ entered inner left => entered ++ (momentsAll inner ++ left)

/-- The moments of visits one after the other. -/
def momentsAll : List Visit → List Moment
  | [] => []
  | visit :: rest => visit.moments ++ momentsAll rest

end

end Visit

/-- The children that are to be visited when a node has been entered: those it has at this moment,
if it is an element that is still where it was reached. -/
def snapshot (doc : Document) (kind : NodeKind) (id parent : NodeId) : List NodeId :=
  if kind = .element ∧ doc.parent? id = some parent then doc.children id else []

/-- **The visits follow a snapshot.** They are visits, through a container, to nodes of a list: in
the order of the list, to those whose parent link is the container when their turn comes, and to no
others. The document is the one before the first of them, and `n` visitors are at work. -/
inductive Follows (n : Nat) : Document → NodeId → List NodeId → List Visit → Prop where
  | nil (doc : Document) (container : NodeId) : Follows n doc container [] []
  | passed {doc : Document} {container id : NodeId} {entries : List NodeId} {visits : List Visit}
      (hmoved : doc.parent? id ≠ some container)
      (hrest : Follows n doc container entries visits) :
      Follows n doc container (id :: entries) visits
  | visited {doc : Document} {container id : NodeId} {kind : NodeKind} {entries : List NodeId}
      {entered left : List Moment} {inner visits : List Visit}
      (hstays : doc.parent? id = some container) (hkind : doc.kind? id = some kind)
      (henter : entered.map Moment.event = entering n (.node kind id container))
      (hinner : Follows n (docAfter doc entered) id
        (snapshot (docAfter doc entered) kind id container) inner)
      (hleave : left.map Moment.event = leaving n (.node kind id container))
      (hrest : Follows n (docAfter doc (Visit.mk kind id container entered inner left).moments)
        container entries visits) :
      Follows n doc container (id :: entries) (.mk kind id container entered inner left :: visits)

/-- Moments at which these events happen. -/
def Happens (events : List Event) (_ : Document) (moments : List Moment) : Prop :=
  moments.map Moment.event = events

/-- Moments at which the first of these events happen, one at least. -/
def HappensUntil (events : List Event) (_ : Document) (moments : List Moment) : Prop :=
  moments ≠ [] ∧ moments.map Moment.event <+: events

/-- **The visits follow a snapshot up to a call that fails.** All that was called is told here, and the
call that failed comes last: one on entering a node or on leaving it, one of a visit to its children,
or one of a later visit. What `Follows` says of the nodes that are visited, and of the documents at
which they are, has held so far. -/
inductive FollowsUntil (n : Nat) : Document → NodeId → List NodeId → List Moment → Prop where
  | passed {doc : Document} {container id : NodeId} {entries : List NodeId} {told : List Moment}
      (hmoved : doc.parent? id ≠ some container) (hrest : FollowsUntil n doc container entries told) :
      FollowsUntil n doc container (id :: entries) told
  | enters {doc : Document} {container id : NodeId} {kind : NodeKind} {entered : List Moment}
      (hstays : doc.parent? id = some container) (hkind : doc.kind? id = some kind)
      (henter : HappensUntil (entering n (.node kind id container)) doc entered)
      (entries : List NodeId) :
      FollowsUntil n doc container (id :: entries) entered
  | inside {doc : Document} {container id : NodeId} {kind : NodeKind} {entered told : List Moment}
      (hstays : doc.parent? id = some container) (hkind : doc.kind? id = some kind)
      (henter : Happens (entering n (.node kind id container)) doc entered)
      (hinner : FollowsUntil n (docAfter doc entered) id
        (snapshot (docAfter doc entered) kind id container) told)
      (entries : List NodeId) :
      FollowsUntil n doc container (id :: entries) (entered ++ told)
  | leaves {doc : Document} {container id : NodeId} {kind : NodeKind} {entered left : List Moment}
      {inner : List Visit}
      (hstays : doc.parent? id = some container) (hkind : doc.kind? id = some kind)
      (henter : Happens (entering n (.node kind id container)) doc entered)
      (hinner : Follows n (docAfter doc entered) id
        (snapshot (docAfter doc entered) kind id container) inner)
      (hleave : HappensUntil (leaving n (.node kind id container)) doc left)
      (entries : List NodeId) :
      FollowsUntil n doc container (id :: entries) (entered ++ (Visit.momentsAll inner ++ left))
  | later {doc : Document} {container id : NodeId} {entries : List NodeId} {visit : Visit}
      {told : List Moment}
      (hvisit : Follows n doc container [id] [visit])
      (hrest : FollowsUntil n (docAfter doc visit.moments) container entries told) :
      FollowsUntil n doc container (id :: entries) (visit.moments ++ told)

/-- No node is visited twice in one visit of its container. -/
inductive Once : List Visit → Prop where
  | mk {visits : List Visit} (hnodup : (visits.map Visit.id).Nodup)
      (hinner : ∀ visit ∈ visits, Once visit.inner) : Once visits

/-- The moments of a whole pass that begins with this document: the root is entered, the visits
through it follow its list of children as it then stands, and the root is left. No node is visited
twice in one visit of its container. -/
def Obeys (n : Nat) (doc : Document) (moments : List Moment) : Prop :=
  ∃ entered visits left, moments = entered ++ (Visit.momentsAll visits ++ left) ∧
    entered.map Moment.event = entering n .root ∧
    Follows n (docAfter doc entered) Document.root
      ((docAfter doc entered).children Document.root) visits ∧
    left.map Moment.event = leaving n .root ∧ Once visits

/-- The moments of a pass that begins with this document, up to a call that fails: one on entering the
root or on leaving it, or one of the visits through it. -/
inductive ObeysUntil (n : Nat) (doc : Document) : List Moment → Prop where
  | enters {entered : List Moment} (henter : HappensUntil (entering n .root) doc entered) :
      ObeysUntil n doc entered
  | inside {entered told : List Moment} (henter : Happens (entering n .root) doc entered)
      (hinner : FollowsUntil n (docAfter doc entered) Document.root
        ((docAfter doc entered).children Document.root) told) :
      ObeysUntil n doc (entered ++ told)
  | leaves {entered left : List Moment} {visits : List Visit}
      (henter : Happens (entering n .root) doc entered)
      (hvisits : Follows n (docAfter doc entered) Document.root
        ((docAfter doc entered).children Document.root) visits)
      (hleave : HappensUntil (leaving n .root) doc left) :
      ObeysUntil n doc (entered ++ (Visit.momentsAll visits ++ left))

@[simp] theorem docAfter_nil (doc : Document) : docAfter doc [] = doc := rfl

theorem docAfter_append (doc : Document) (first rest : List Moment) :
    docAfter doc (first ++ rest) = docAfter (docAfter doc first) rest :=
  List.foldl_append

/-- What holds of all documents holds of the last one. -/
theorem docAfter_induct {P : Document → Prop} {doc : Document} {moments : List Moment} (hdoc : P doc)
    (h : ∀ moment ∈ moments, P moment.doc) : P (docAfter doc moments) := by
  induction moments generalizing doc with
  | nil => exact hdoc
  | cons moment rest ih =>
    exact ih (h moment List.mem_cons_self) fun m hm => h m (List.mem_cons_of_mem _ hm)

theorem wellFormed_docAfter {doc : Document} {moments : List Moment} (hdoc : doc.WellFormed)
    (h : ∀ moment ∈ moments, moment.doc.WellFormed) : (docAfter doc moments).WellFormed :=
  docAfter_induct hdoc h

theorem nodup_snapshot {doc : Document} (hdoc : doc.WellFormed) (kind : NodeKind)
    (id parent : NodeId) : (snapshot doc kind id parent).Nodup := by
  unfold snapshot
  split
  · exact hdoc.nodup id
  · exact List.nodup_nil

namespace Follows

variable {n : Nat} {doc : Document} {container : NodeId} {entries : List NodeId}
  {visits : List Visit}

theorem cons {id : NodeId} {visit : Visit} (h : Follows n doc container [id] [visit])
    (hrest : Follows n (docAfter doc visit.moments) container entries visits) :
    Follows n doc container (id :: entries) (visit :: visits) := by
  cases h with
  | passed _ hnone => cases hnone
  | visited hstays hkind henter hinner hleave _ =>
    exact .visited hstays hkind henter hinner hleave hrest

/-- The nodes visited are entries of the snapshot, in its order. -/
theorem sublist (h : Follows n doc container entries visits) :
    (visits.map Visit.id).Sublist entries := by
  induction h with
  | nil => exact .slnil
  | passed _ _ ih => exact ih.cons _
  | visited _ _ _ _ _ _ _ ih => exact ih.cons_cons _

/-- Where all documents are well-formed, no node is visited twice. -/
theorem once (h : Follows n doc container entries visits) (hdoc : doc.WellFormed)
    (hentries : entries.Nodup)
    (hmoments : ∀ moment ∈ Visit.momentsAll visits, moment.doc.WellFormed) : Once visits := by
  refine .mk (hentries.sublist h.sublist) ?_
  induction h with
  | nil => exact nofun
  | passed _ _ ih => exact ih hdoc (List.nodup_cons.mp hentries).2 hmoments
  | @visited doc container id kind entries entered left inner visits _ _ _ hinner _ _ ihinner
      ihrest =>
    simp only [Visit.momentsAll, Visit.moments, List.mem_append] at hmoments
    have hentered : (docAfter doc entered).WellFormed :=
      wellFormed_docAfter hdoc fun m hm => hmoments m (.inl (.inl hm))
    have hsnapshot := nodup_snapshot hentered kind id container
    intro visit hvisit
    rcases List.mem_cons.mp hvisit with rfl | hvisit
    · exact .mk (hsnapshot.sublist hinner.sublist)
        (ihinner hentered hsnapshot fun m hm => hmoments m (.inl (.inr (.inl hm))))
    · refine ihrest ?_ (List.nodup_cons.mp hentries).2 (fun m hm => hmoments m (.inr hm)) visit
        hvisit
      refine wellFormed_docAfter hdoc fun m hm => hmoments m (.inl ?_)
      simpa only [Visit.moments, List.mem_append] using hm

end Follows

/-! ## Going on after a failure -/

/-- Calls that all leave the empty document. -/
def Emptied (moments : List Moment) : Prop :=
  ∀ moment ∈ moments, moment.doc = .empty

theorem Emptied.append {first rest : List Moment} (h : Emptied first) (hrest : Emptied rest) :
    Emptied (first ++ rest) :=
  fun moment hmoment => (List.mem_append.mp hmoment).elim (h moment) (hrest moment)

theorem Emptied.docAfter {doc : Document} {moments : List Moment} (h : Emptied moments)
    (hne : moments ≠ []) : docAfter doc moments = .empty := by
  obtain ⟨front, last, rfl⟩ := List.eq_nil_or_concat' moments |>.resolve_left hne
  rw [docAfter_append]
  exact h last (by simp)

/-- These events, if the document is always thrown away. -/
def emptying (events : List Event) : List Moment :=
  events.map (⟨·, .empty⟩)

@[simp] theorem map_event_emptying (events : List Event) :
    (emptying events).map Moment.event = events := by
  simp [emptying, Function.comp_def]

theorem emptied_emptying (events : List Event) : Emptied (emptying events) := by
  simp [Emptied, emptying]

theorem parent?_empty (id : NodeId) : Document.empty.parent? id = none := by
  obtain ⟨index⟩ := id
  cases index <;> simp [Document.empty, Document.parent?, Document.node?]

/-- Any snapshot can be followed by visitors that throw everything away: then nothing is where it
was reached any more, and no visit goes further down. -/
theorem exists_follows {n : Nat} (hn : 0 < n) (container : NodeId) :
    ∀ (entries : List NodeId) (doc : Document), ∃ visits, Follows n doc container entries visits ∧
      Emptied (Visit.momentsAll visits)
  | [], doc => ⟨[], .nil doc container, nofun⟩
  | id :: entries, doc => by
    by_cases hstays : doc.parent? id = some container
    · obtain ⟨kind, hkind⟩ := Document.knows_iff_kind?.mp (Document.knows_of_parent? hstays)
      have hne (phase : List Event) (hphase : phase.length = n) : emptying phase ≠ [] := by
        rintro hnil
        rw [emptying, List.map_eq_nil_iff] at hnil
        rw [hnil] at hphase
        exact absurd hphase (Nat.ne_of_lt hn)
      have hentered := emptied_emptying (entering n (.node kind id container))
      have hleft := emptied_emptying (leaving n (.node kind id container))
      have hgone : docAfter doc (emptying (entering n (.node kind id container))) = .empty :=
        hentered.docAfter (hne _ (by simp [entering]))
      obtain ⟨visits, hvisits, hempty⟩ := exists_follows hn container entries .empty
      refine ⟨.mk kind id container (emptying (entering n (.node kind id container))) []
        (emptying (leaving n (.node kind id container))) :: visits, ?_,
          (hentered.append hleft).append hempty⟩
      refine .visited hstays hkind (map_event_emptying _) ?_ (map_event_emptying _) ?_
      · rw [hgone, snapshot, if_neg (by simp [parent?_empty])]
        exact .nil _ _
      · rw [Visit.moments, docAfter_append, hgone, Visit.momentsAll, List.nil_append,
          hleft.docAfter (hne _ (by simp [leaving]))]
        exact hvisits
    · obtain ⟨visits, hvisits, hempty⟩ := exists_follows hn container entries doc
      exact ⟨visits, .passed hstays hvisits, hempty⟩

namespace HappensUntil

variable {n : Nat} {doc : Document} {events : List Event} {told : List Moment}

theorem completes (h : HappensUntil events doc told) :
    ∃ rest, Happens events doc (told ++ rest) ∧ Emptied rest := by
  obtain ⟨missing, hmissing⟩ := h.2
  refine ⟨emptying missing, ?_, emptied_emptying missing⟩
  rw [Happens, List.map_append, map_event_emptying, hmissing]

theorem length_pos (h : HappensUntil events doc told) : 0 < events.length := by
  refine Nat.lt_of_lt_of_le ?_ (List.IsPrefix.length_le h.2)
  rw [List.length_map]
  exact List.length_pos_of_ne_nil h.1

theorem pos_of_entering {site : Site} (h : HappensUntil (entering n site) doc told) : 0 < n := by
  simpa [entering] using h.length_pos

theorem pos_of_leaving {site : Site} (h : HappensUntil (leaving n site) doc told) : 0 < n := by
  simpa [leaving] using h.length_pos

end HappensUntil

section Completions

variable {n : Nat} {doc : Document} {container : NodeId} {entries : List NodeId}
  {told : List Moment}

/-- Where a call fails, there is a visitor at work. -/
theorem FollowsUntil.pos (h : FollowsUntil n doc container entries told) : 0 < n := by
  induction h with
  | passed _ _ ih => exact ih
  | enters _ _ henter => exact henter.pos_of_entering
  | inside _ _ _ _ _ ih => exact ih
  | leaves _ _ _ _ hleave => exact hleave.pos_of_leaving
  | later _ _ ih => exact ih

/-- Visits that go on from a given one. -/
theorem exists_follows_cons (hn : 0 < n) {id : NodeId} {visit : Visit}
    (hvisit : Follows n doc container [id] [visit]) (entries : List NodeId) :
    ∃ visits rest, Follows n doc container (id :: entries) visits ∧
      Visit.momentsAll visits = visit.moments ++ rest ∧ Emptied rest := by
  obtain ⟨visits, hvisits, hempty⟩ := exists_follows hn container entries (docAfter doc visit.moments)
  exact ⟨_, _, hvisit.cons hvisits, rfl, hempty⟩

/-- **What was told up to a failure is the beginning of visits that follow the snapshot.** -/
theorem FollowsUntil.completes (h : FollowsUntil n doc container entries told) :
    ∃ visits rest, Follows n doc container entries visits ∧
      Visit.momentsAll visits = told ++ rest ∧ Emptied rest := by
  induction h with
  | passed hmoved _ ih =>
    obtain ⟨visits, rest, hvisits, htold⟩ := ih
    exact ⟨visits, rest, .passed hmoved hvisits, htold⟩
  | @enters doc container id kind entered hstays hkind henter entries =>
    have hn := henter.pos_of_entering
    have hleft := emptied_emptying (leaving n (.node kind id container))
    obtain ⟨missing, hentered, hmissing⟩ := henter.completes
    obtain ⟨inner, hinner, hempty⟩ := exists_follows hn id
      (snapshot (docAfter doc (entered ++ missing)) kind id container)
      (docAfter doc (entered ++ missing))
    obtain ⟨visits, rest, hvisits, htold, hrest⟩ := exists_follows_cons hn
      (.visited hstays hkind hentered hinner (map_event_emptying _) (.nil _ _)) entries
    refine ⟨visits, _, hvisits, ?_, hmissing.append (hempty.append (hleft.append hrest))⟩
    rw [htold]
    simp only [Visit.moments, List.append_assoc]
  | @inside doc container id kind entered told hstays hkind henter hcut entries ih =>
    have hleft := emptied_emptying (leaving n (.node kind id container))
    obtain ⟨inner, missing, hinner, hwithin, hmissing⟩ := ih
    obtain ⟨visits, rest, hvisits, htold, hrest⟩ := exists_follows_cons hcut.pos
      (.visited hstays hkind henter hinner (map_event_emptying _) (.nil _ _)) entries
    refine ⟨visits, _, hvisits, ?_, hmissing.append (hleft.append hrest)⟩
    rw [htold]
    simp only [Visit.moments, hwithin, List.append_assoc]
  | leaves hstays hkind henter hinner hleave entries =>
    obtain ⟨missing, hleft, hmissing⟩ := hleave.completes
    obtain ⟨visits, rest, hvisits, htold, hrest⟩ := exists_follows_cons hleave.pos_of_leaving
      (.visited hstays hkind henter hinner hleft (.nil _ _)) entries
    refine ⟨visits, _, hvisits, ?_, hmissing.append hrest⟩
    rw [htold]
    simp only [Visit.moments, List.append_assoc]
  | later hvisit _ ih =>
    obtain ⟨visits, rest, hvisits, htold, hrest⟩ := ih
    refine ⟨_, rest, hvisit.cons hvisits, ?_, hrest⟩
    rw [Visit.momentsAll, htold, List.append_assoc]

/-- The same of a pass. -/
theorem ObeysUntil.completes (h : ObeysUntil n doc told) :
    ∃ entered visits left rest, told ++ rest = entered ++ (Visit.momentsAll visits ++ left) ∧
      Happens (entering n .root) doc entered ∧
      Follows n (docAfter doc entered) Document.root
        ((docAfter doc entered).children Document.root) visits ∧
      Happens (leaving n .root) doc left ∧ Emptied rest := by
  have hleft := emptied_emptying (leaving n .root)
  cases h with
  | enters henter =>
    obtain ⟨missing, hentered, hmissing⟩ := henter.completes
    obtain ⟨visits, hvisits, hempty⟩ := exists_follows henter.pos_of_entering Document.root
      ((docAfter doc (told ++ missing)).children Document.root) (docAfter doc (told ++ missing))
    refine ⟨_, visits, _, _, ?_, hentered, hvisits, map_event_emptying _,
      hmissing.append (hempty.append hleft)⟩
    rw [List.append_assoc]
  | inside henter hinner =>
    obtain ⟨visits, missing, hvisits, hwithin, hmissing⟩ := hinner.completes
    refine ⟨_, visits, _, _, ?_, henter, hvisits, map_event_emptying _,
      hmissing.append hleft⟩
    rw [hwithin, List.append_assoc, List.append_assoc]
  | leaves henter hvisits hleave =>
    obtain ⟨missing, hwhole, hmissing⟩ := hleave.completes
    refine ⟨_, _, _, missing, ?_, henter, hvisits, hwhole, hmissing⟩
    simp only [List.append_assoc]

end Completions

/-! ## The chronicle of a pass -/

variable {S : Slots}

/-- The observer that writes down every moment. -/
def chronicle : Observer S (List Moment) :=
  recording Moment.mk

/-- A part of a pass adds moments of one kind to the chronicle, or of another kind if a hook fails. -/
structure Tells (kind cut : Document → List Moment → Prop) (s : Progress S (List Moment))
    (o : Outcome S (List Moment)) : Prop where
  length : o.state.active.length = s.active.length
  whole : o.result = .ok () → ∃ moments, kind s.doc moments ∧
    o.state.seen = s.seen ++ moments ∧ o.state.doc = docAfter s.doc moments
  part : ∀ name cause, o.result = .error (.plugin name cause) → ∃ moments, cut s.doc moments ∧
    o.state.seen = s.seen ++ moments

/-- Moments of one kind and then moments of another, which begin with the document that the first ones
have left. -/
def Then (first second : Document → List Moment → Prop) (doc : Document) (moments : List Moment) :
    Prop :=
  ∃ a b, first doc a ∧ second (docAfter doc a) b ∧ moments = a ++ b

namespace Tells

variable {kind cut first second firstCut secondCut : Document → List Moment → Prop}
  {s : Progress S (List Moment)} {o : Outcome S (List Moment)}
  {next : Progress S (List Moment) → Outcome S (List Moment)}

theorem mono (h : Tells first firstCut s o)
    (himp : ∀ moments, first s.doc moments → second s.doc moments)
    (hcut : ∀ moments, firstCut s.doc moments → secondCut s.doc moments) :
    Tells second secondCut s o := by
  refine ⟨h.length, fun hok => ?_, fun name cause hfailed => ?_⟩
  · obtain ⟨moments, hmoments, hseen⟩ := h.whole hok
    exact ⟨moments, himp _ hmoments, hseen⟩
  · obtain ⟨moments, hmoments, hseen⟩ := h.part name cause hfailed
    exact ⟨moments, hcut _ hmoments, hseen⟩

theorem done (h : kind s.doc []) : Tells kind cut s (done s) :=
  ⟨rfl, fun _ => ⟨[], h, by simp [Pass.done]⟩, nofun⟩

/-- **One part after the other tells one stretch after the other**, the second one beginning with the
document that the first one left. A failure is one of the first part, or one of the second part when
the first one is over. -/
theorem andThen (h : Tells first firstCut s o)
    (hnext : ∀ s', s'.active.length = s.active.length → Tells second secondCut s' (next s')) :
    Tells (Then first second)
      (fun doc moments => firstCut doc moments ∨ Then first secondCut doc moments) s
      (andThen o next) := by
  unfold Pass.andThen
  split
  · rename_i hok
    obtain ⟨a, ha, hseen, hdoc⟩ := h.whole hok
    have hlater := hnext o.state h.length
    refine ⟨hlater.length.trans h.length, fun hok => ?_, fun name cause hfailed => ?_⟩
    · obtain ⟨b, hb, hseen', hdoc'⟩ := hlater.whole hok
      rw [hdoc] at hb hdoc'
      refine ⟨a ++ b, ⟨a, b, ha, hb, rfl⟩, ?_, ?_⟩
      · rw [hseen', hseen, List.append_assoc]
      · rw [hdoc', docAfter_append]
    · obtain ⟨b, hb, hseen'⟩ := hlater.part name cause hfailed
      rw [hdoc] at hb
      refine ⟨a ++ b, .inr ⟨a, b, ha, hb, rfl⟩, ?_⟩
      rw [hseen', hseen, List.append_assoc]
  · rename_i error herror
    refine ⟨h.length, fun hok => ?_, fun name cause hfailed => ?_⟩
    · rw [herror] at hok
      cases hok
    · obtain ⟨a, ha, hseen⟩ := h.part name cause hfailed
      exact ⟨a, .inl ha, hseen⟩

end Tells

variable {s : Progress S (List Moment)} {n : Nat}

/-- **A call tells itself**, with the document that the hook leaves. -/
theorem tells_call (phase : Phase) (site : Site) {place : Nat} (hplace : place < s.active.length) :
    Tells (Happens [.called place phase site]) (HappensUntil [.called place phase site]) s
      (call chronicle phase site place s) := by
  unfold call
  rw [List.getElem?_eq_getElem hplace]
  simp only
  generalize (s.active[place].visitor.hook phase site).run.run
    ⟨s.doc, s.context, s.active[place].visitor.memory⟩ = out
  obtain ⟨result, bench⟩ := out
  have htold : Happens [.called place phase site] s.doc
      [⟨.called place phase site, bench.doc⟩] := rfl
  exact ⟨List.length_set, fun _ => ⟨_, htold, rfl, rfl⟩,
    fun _ _ _ => ⟨_, ⟨List.cons_ne_nil _ _, List.prefix_rfl⟩, rfl⟩⟩

theorem tells_calls (phase : Phase) (site : Site) :
    ∀ {places : List Nat} {s : Progress S (List Moment)}, (∀ p ∈ places, p < s.active.length) →
      Tells (Happens (places.map (.called · phase site)))
        (HappensUntil (places.map (.called · phase site))) s
        (inTurn (call chronicle phase site) places s)
  | [], _, _ => .done rfl
  | place :: rest, s, h => by
    have hfirst := tells_call phase site (h place List.mem_cons_self)
    refine (hfirst.andThen fun s' hs' => tells_calls phase site fun p hp => ?_).mono ?_ ?_
    · exact hs' ▸ h p (List.mem_cons_of_mem _ hp)
    · rintro _ ⟨a, b, ha, hb, rfl⟩
      rw [Happens, List.map_append, ha, hb]
      rfl
    · rintro moments (⟨hne, hfails⟩ | ⟨a, b, ha, ⟨hne, hfails⟩, rfl⟩)
      · exact ⟨hne, hfails.trans ⟨_, rfl⟩⟩
      · refine ⟨List.append_ne_nil_of_right_ne_nil a hne, ?_⟩
        rw [List.map_append, ha]
        exact (List.prefix_append_right_inj _).mpr hfails

theorem tells_enter (site : Site) (hn : s.active.length = n) :
    Tells (Happens (entering n site)) (HappensUntil (entering n site)) s
      (enter chronicle site s) := by
  subst hn
  exact tells_calls .enter site fun p hp => List.mem_range.mp hp

theorem tells_leave (site : Site) (hn : s.active.length = n) :
    Tells (Happens (leaving n site)) (HappensUntil (leaving n site)) s (leave chronicle site s) := by
  subst hn
  exact tells_calls .leave site fun p hp => List.mem_range.mp (List.mem_reverse.mp hp)

/-- Moments of visits that follow a snapshot. -/
def Visited (n : Nat) (container : NodeId) (entries : Document → List NodeId) (doc : Document)
    (moments : List Moment) : Prop :=
  ∃ visits, Follows n doc container (entries doc) visits ∧ moments = Visit.momentsAll visits

/-- Moments of visits that follow a snapshot up to a call that fails. -/
def VisitedUntil (n : Nat) (container : NodeId) (entries : Document → List NodeId) (doc : Document)
    (moments : List Moment) : Prop :=
  FollowsUntil n doc container (entries doc) moments

/-- Entering, something between, and leaving. -/
theorem tells_between (site : Site) {inner cut : Document → List Moment → Prop}
    {below : Progress S (List Moment) → Outcome S (List Moment)} (hn : s.active.length = n)
    (hbelow : ∀ s', s'.active.length = n → Tells inner cut s' (below s')) :
    Tells (Then (Happens (entering n site)) (Then inner (Happens (leaving n site))))
      (fun doc moments => HappensUntil (entering n site) doc moments ∨
        Then (Happens (entering n site)) (fun doc moments => cut doc moments ∨
          Then inner (HappensUntil (leaving n site)) doc moments) doc moments) s
      (andThen (enter chronicle site s) fun s => andThen (below s) (leave chronicle site)) :=
  (tells_enter site hn).andThen fun s' hs' => (hbelow s' (hs'.trans hn)).andThen fun _ hs'' =>
    tells_leave site (hs''.trans (hs'.trans hn))

theorem tells_visit {below : NodeId → Progress S (List Moment) → Outcome S (List Moment)}
    (hbelow : ∀ id s, s.active.length = n →
      Tells (Visited n id (·.children id)) (VisitedUntil n id (·.children id)) s (below id s))
    {parent id : NodeId} (hn : s.active.length = n) (hstays : s.doc.parent? id = some parent) :
    Tells (fun doc moments => ∃ visit, moments = Visit.moments visit ∧
        Follows n doc parent [id] [visit])
      (fun doc moments => ∀ entries, FollowsUntil n doc parent (id :: entries) moments) s
      (visit chronicle below parent id s) := by
  obtain ⟨kind, hkind⟩ := Document.knows_iff_kind?.mp (Document.knows_of_parent? hstays)
  unfold visit
  rw [hkind]
  simp only
  have hmiddle : ∀ s' : Progress S (List Moment), s'.active.length = n →
      Tells (Visited n id (snapshot · kind id parent)) (VisitedUntil n id (snapshot · kind id parent))
        s' (if kind = .element ∧ s'.doc.parent? id = some parent then below id s' else done s') := by
    intro s' hs'
    split
    · rename_i hdescends
      have hsnapshot : snapshot s'.doc kind id parent = s'.doc.children id := if_pos hdescends
      refine (hbelow id s' hs').mono ?_ ?_
      · rintro _ ⟨visits, hvisits, rfl⟩
        refine ⟨visits, ?_, rfl⟩
        simpa only [hsnapshot] using hvisits
      · intro told htold
        simpa only [VisitedUntil, hsnapshot] using htold
    · rename_i hstop
      have hsnapshot : snapshot s'.doc kind id parent = [] := if_neg hstop
      refine .done ⟨[], ?_, rfl⟩
      simpa only [hsnapshot] using .nil _ _
  refine (tells_between (.node kind id parent) hn hmiddle).mono ?_ ?_
  · rintro _ ⟨entered, _, hentered, ⟨_, left, ⟨visits, hvisits, rfl⟩, hleft, rfl⟩, rfl⟩
    exact ⟨.mk kind id parent entered visits left, rfl,
      .visited hstays hkind hentered hvisits hleft (.nil _ _)⟩
  · rintro _ (henter | ⟨entered, _, hentered,
      hinner | ⟨_, left, ⟨visits, hvisits, rfl⟩, hleft, rfl⟩, rfl⟩)
    · exact .enters hstays hkind henter
    · exact .inside hstays hkind hentered hinner
    · exact .leaves hstays hkind hentered hvisits hleft

theorem tells_visits {parent : NodeId}
    {below : NodeId → Progress S (List Moment) → Outcome S (List Moment)}
    (hbelow : ∀ id s, s.active.length = n →
      Tells (Visited n id (·.children id)) (VisitedUntil n id (·.children id)) s (below id s)) :
    ∀ (entries : List NodeId) {s : Progress S (List Moment)}, s.active.length = n →
      Tells (Visited n parent fun _ => entries) (VisitedUntil n parent fun _ => entries) s
        (inTurn (fun id s => if s.doc.parent? id = some parent
          then visit chronicle below parent id s else done s) entries s)
  | [], s, _ => .done ⟨[], .nil _ _, rfl⟩
  | id :: entries, s, hn => by
    have hrest : ∀ s' : Progress S (List Moment), s'.active.length = s.active.length →
        Tells (Visited n parent fun _ => entries) (VisitedUntil n parent fun _ => entries) s' _ :=
      fun s' hs' => tells_visits hbelow entries (hs'.trans hn)
    unfold inTurn
    split
    · rename_i hstays
      refine ((tells_visit hbelow hn hstays).andThen hrest).mono ?_ ?_
      · rintro _ ⟨_, _, ⟨visit, rfl, hvisit⟩, ⟨visits, hvisits, rfl⟩, rfl⟩
        exact ⟨visit :: visits, hvisit.cons hvisits, rfl⟩
      · rintro _ (hcut | ⟨_, _, ⟨visit, rfl, hvisit⟩, hcut, rfl⟩)
        · exact hcut entries
        · exact .later hvisit hcut
    · rename_i hmoved
      refine (hrest s rfl).mono ?_ ?_
      · rintro _ ⟨visits, hvisits, rfl⟩
        exact ⟨visits, .passed hmoved hvisits, rfl⟩
      · intro told hcut
        exact .passed hmoved hcut

/-- **The children of a container are visited as they stand when the visits begin.** -/
theorem tells_visitChildren :
    ∀ (depth : Nat) (container : NodeId) (s : Progress S (List Moment)), s.active.length = n →
      Tells (Visited n container (·.children container))
        (VisitedUntil n container (·.children container)) s
        (visitChildren chronicle depth container s)
  | 0, container, s, _ => ⟨rfl, nofun, nofun⟩
  | depth + 1, container, s, hn => by
    unfold visitChildren
    exact (tells_visits (tells_visitChildren depth) (s.doc.children container) hn).mono
      (fun _ h => h) fun _ h => h

/-! ## Well-formed documents at every moment -/

end Pass

/-- The hooks of a visitor leave well-formed documents well-formed. -/
def Visitor.KeepsWellFormed {S : Slots} (visitor : Visitor S) : Prop :=
  ∀ phase site bench, bench.doc.WellFormed →
    (outcome (visitor.hook phase site) bench).2.doc.WellFormed

/-- The hooks of all visitors of a plugin leave well-formed documents well-formed. -/
def Plugin.KeepsWellFormed {S : Slots} (plugin : Plugin S) : Prop :=
  ∀ info doc context visitor, (plugin.visitor info doc context).1 = some visitor →
    visitor.KeepsWellFormed

/-- Hooks that keep to the interface do. -/
theorem Plugin.UsesCalls.keepsWellFormed {S : Slots} {plugin : Plugin S} (h : plugin.UsesCalls) :
    plugin.KeepsWellFormed := by
  intro info doc context visitor hvisitor phase site bench hbench
  obtain ⟨calls, hcalls⟩ := h info doc context visitor hvisitor phase site bench
  rw [hcalls]
  exact (Call.evolves_foldl calls bench.doc hbench).1

namespace Pass

variable {S : Slots} {s : Progress S (List Moment)} {n : Nat}

/-- The document is well-formed and was at all moments told, and the hooks to come keep it so. -/
structure Sane (s : Progress S (List Moment)) : Prop where
  wellFormed : s.doc.WellFormed
  keeps : ∀ a ∈ s.active, a.visitor.KeepsWellFormed
  moments : ∀ moment ∈ s.seen, moment.doc.WellFormed

namespace Sane

theorem call (h : Sane s) (phase : Phase) (site : Site) (place : Nat) :
    Sane (Pass.call chronicle phase site place s).state := by
  obtain ⟨hkeeps, hsame | ⟨visitor, bench, hvisitor, hbench, hdoc, hseen⟩⟩ :=
    call_spec chronicle (fun _ _ h => h) h.keeps phase site place
  · rwa [hsame]
  · have hwell : (Pass.call chronicle phase site place s).state.doc.WellFormed := by
      rw [hdoc]
      exact hvisitor phase site bench (hbench ▸ h.wellFormed)
    refine ⟨hwell, hkeeps, fun moment hmoment => ?_⟩
    rw [hseen] at hmoment
    rcases List.mem_append.mp hmoment with hmoment | hmoment
    · exact h.moments moment hmoment
    · rw [List.mem_singleton.mp hmoment]
      exact hwell

theorem ask (h : Sane s) {plugin : Plugin S} (hplugin : plugin.KeepsWellFormed) (info : PassInfo)
    (place : Nat) : Sane (Pass.ask chronicle info plugin place s) := by
  refine ⟨h.wellFormed, ask_spec chronicle h.keeps hplugin info place, fun moment hmoment => ?_⟩
  rcases List.mem_append.mp hmoment with hmoment | hmoment
  · exact h.moments moment hmoment
  · rw [List.mem_singleton.mp hmoment]
    exact h.wellFormed

end Sane

/-! ## Whole passes -/

/-- What is told of a pass by `n` visitors that begins with this document, after what was told
before. A pass that is aborted by a hook tells what it has done up to the call that failed, and this is
the beginning of what a whole pass tells. -/
structure Chronicled (n : Nat) (doc : Document) (before : List Moment)
    (o : Outcome S (List Moment)) : Prop where
  ok : o.result = .ok () → ∃ moments, Obeys n doc moments ∧ o.state.seen = before ++ moments
  failed : ∀ name cause, o.result = .error (.plugin name cause) → ∃ moments, ObeysUntil n doc moments ∧
    (∃ rest, Obeys n doc (moments ++ rest)) ∧ o.state.seen = before ++ moments

theorem chronicled_walk (h : Sane s) (depth : Nat) :
    Chronicled s.active.length s.doc s.seen (walk chronicle depth s) := by
  have hsane : Sane (walk chronicle depth s).state :=
    walk_induct (fun phase site place _ hs => hs.call phase site place) depth s h
  have htells := tells_between .root rfl
    (tells_visitChildren (n := s.active.length) depth Document.root)
  have hobeys {entered left : List Moment} {visits : List Visit}
      (hall : ∀ moment ∈ entered ++ (Visit.momentsAll visits ++ left), moment.doc.WellFormed)
      (hentered : Happens (entering s.active.length .root) s.doc entered)
      (hvisits : Follows s.active.length (docAfter s.doc entered) Document.root
        ((docAfter s.doc entered).children Document.root) visits)
      (hleft : Happens (leaving s.active.length .root) s.doc left) :
      Obeys s.active.length s.doc (entered ++ (Visit.momentsAll visits ++ left)) := by
    simp only [List.mem_append] at hall
    have hdoc := wellFormed_docAfter h.wellFormed fun m hm => hall m (.inl hm)
    exact ⟨entered, visits, left, rfl, hentered, hvisits, hleft,
      hvisits.once hdoc (hdoc.nodup _) fun m hm => hall m (.inr (.inl hm))⟩
  refine ⟨fun hok => ?_, fun name cause hfailed => ?_⟩
  · obtain ⟨_, ⟨entered, _, hentered, ⟨_, left, ⟨visits, hvisits, rfl⟩, hleft, rfl⟩, rfl⟩, hseen, -⟩ :=
      htells.whole hok
    refine ⟨_, hobeys (fun moment hmoment => ?_) hentered hvisits hleft, hseen⟩
    exact hsane.moments moment (hseen ▸ List.mem_append_right _ hmoment)
  · obtain ⟨moments, hcut, hseen⟩ := htells.part name cause hfailed
    have huntil : ObeysUntil s.active.length s.doc moments := by
      rcases hcut with henter | ⟨entered, _, hentered,
        hinner | ⟨_, left, ⟨visits, hvisits, rfl⟩, hleft, rfl⟩, rfl⟩
      · exact .enters henter
      · exact .inside hentered hinner
      · exact .leaves hentered hvisits hleft
    obtain ⟨entered, visits, left, rest, hsplit, hentered, hvisits, hleft, hempty⟩ := huntil.completes
    refine ⟨moments, huntil, ⟨rest, ?_⟩, hseen⟩
    rw [hsplit]
    refine hobeys (fun moment hmoment => ?_) hentered hvisits hleft
    rw [← hsplit, List.mem_append] at hmoment
    rcases hmoment with hmoment | hmoment
    · exact hsane.moments moment (hseen ▸ List.mem_append_right _ hmoment)
    · rw [hempty moment hmoment]
      exact .empty

/-- **A pass visits the children of each container as they stood when it had been entered**, in their
order and each at most once: those that are still in the container when their turn comes, and none
that came into it later. An element that was moved while it was entered is left without a visit to
its children. A pass that a hook aborts does so up to the call that failed. The bound on the levels
that a pass descends has no part in it. -/
theorem run_obeys {plugins : List (Plugin S)} (hplugins : ∀ plugin ∈ plugins, plugin.KeepsWellFormed)
    (info : PassInfo) {doc : Document} (hdoc : doc.WellFormed) (context : Context S) :
    Chronicled (roster info doc plugins context).length doc
        ((requests info plugins).map (⟨·, doc⟩)) (run chronicle plugins info doc context []) ∧
      ∀ depth, Chronicled (roster info doc plugins context).length doc
        ((requests info plugins).map (⟨·, doc⟩))
        (walk chronicle depth
          (recruit chronicle info plugins { doc, context, active := [], seen := [] })) := by
  have hstart : Sane ({ doc, context, active := [], seen := [] } : Progress S (List Moment)) :=
    ⟨hdoc, nofun, nofun⟩
  have hsane : Sane (recruit chronicle info plugins { doc, context, active := [], seen := [] }) := by
    unfold recruit
    refine List.foldlRecOn _ _ hstart fun s hs item hitem => ?_
    exact hs.ask (hplugins item.1 (List.fst_mem_of_mem_zipIdx hitem)) info item.2
  obtain ⟨hactive, hsame, hseen⟩ := recruit_recording Moment.mk info plugins
    { doc, context, active := [], seen := [] }
  have hwalk (depth : Nat) := chronicled_walk hsane depth
  rw [show recruit chronicle info plugins { doc, context, active := [], seen := [] } =
    recruit (recording Moment.mk) info plugins { doc, context, active := [], seen := [] } from rfl,
    hactive, hsame, hseen] at hwalk
  exact ⟨hwalk _, hwalk⟩

/-- A drawing whose top element has three others in it. -/
def threeInOne : Document :=
  [.createElement { name := "svg" }, .append Document.root ⟨1⟩, .createElement { name := "a" },
    .append ⟨1⟩ ⟨2⟩, .createElement { name := "b" }, .append ⟨1⟩ ⟨3⟩,
    .createElement { name := "c" }, .append ⟨1⟩ ⟨4⟩].foldl Call.apply .empty

/-- When the first of the three is entered, the second is taken out and put back, behind the third,
which then becomes a child of the first. -/
def mixing : Plugin Slots.none where
  name := "mixing"
  visitor _ _ context := (some
    { Memory := Unit
      memory := ()
      hook
        | .enter, .node .element ⟨2⟩ _ => do
          Hook.edit (Document.remove ⟨3⟩)
          Hook.edit (Document.append ⟨1⟩ ⟨3⟩)
          Hook.edit (Document.append ⟨2⟩ ⟨4⟩)
        | _, _ => pure () }, context)

theorem mixing_usesCalls : mixing.UsesCalls := by
  intro info doc context visitor hvisitor phase site
  cases hvisitor
  simp only
  split
  · exact .bind (.edit (.remove _) fun _ => rfl) fun _ =>
      .bind (.edit (.append _ _) fun _ => rfl) fun _ => .edit (.append _ _) fun _ => rfl
  · exact .pure ()

theorem run_obeys_mixing :
    (∀ plugin ∈ [mixing], plugin.KeepsWellFormed) ∧ threeInOne.WellFormed ∧
      (run chronicle [mixing] ⟨none, 0⟩ threeInOne .empty []).result = .ok () ∧
      ∃ moments, Obeys 1 threeInOne moments ∧
        (run chronicle [mixing] ⟨none, 0⟩ threeInOne .empty []).state.seen =
          ⟨.asked 0 0, threeInOne⟩ :: moments := by
  have hplugins : ∀ plugin ∈ [mixing], plugin.KeepsWellFormed := by
    intro plugin hplugin
    rw [List.mem_singleton.mp hplugin]
    exact mixing_usesCalls.keepsWellFormed
  have hdoc : threeInOne.WellFormed := (Call.evolves_foldl _ .empty .empty).1
  have hok : (run chronicle [mixing] ⟨none, 0⟩ threeInOne .empty []).result = .ok () := rfl
  exact ⟨hplugins, hdoc, hok, (run_obeys hplugins ⟨none, 0⟩ hdoc .empty).1.ok hok⟩

end Pass

end SvgTidy
