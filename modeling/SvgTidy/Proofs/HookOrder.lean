import SvgTidy.Proofs.HookCalls

/-!
# The calls of a pass are bracketed

A pass calls the hooks of its visitors so that entering and leaving nest: whoever is entered is left
again, by all visitors and in the opposite order, and between the two stand the visits of its
children. `IsPass` says so of a sequence of calls. The hooks may change the document from call to
call; all that is said of it is that a node is visited as one of the kind that it has then.

In a pass that ends well, all calls of such a sequence succeed, each on what the one before it has
left. A call whose hook fails is the last one, and its failure is that of the pass.

Every part of a pass is described by the calls it makes (`Logs`), and one part after the other makes
one after the other (`Logs.andThen`). The induction of `logs_visitChildren` is on the number of levels;
what the hooks do to the document between two calls plays no part in it.

Principal result: `run_bracketed`.
-/

namespace SvgTidy

namespace Pass

/-! ## Bracketed sequences -/

/-- The calls that enter a site, `n` visitors being at work. -/
def entering (n : Nat) (site : Site) : List Event :=
  (List.range n).map (.called · .enter site)

/-- The calls that leave a site. -/
def leaving (n : Nat) (site : Site) : List Event :=
  (List.range n).reverse.map (.called · .leave site)

/-- Visits one after the other, all through the same parent. A node is visited as one of the kind that
it has when the first hook is called for it. Only an element has visits between entering and leaving
it, and they are visits through the element. -/
inductive Visits (n : Nat) : NodeId → List Turn → Prop where
  | nil (parent : NodeId) : Visits n parent []
  | visit {parent id : NodeId} {kind : NodeKind} {entered inner left rest : List Turn}
      (henter : entered.map Turn.event = entering n (.node kind id parent))
      (hkind : ∀ first ∈ entered.head?, first.before.kind? id = some kind)
      (hinner : kind ≠ .element → inner = []) (hvisits : Visits n id inner)
      (hleave : left.map Turn.event = leaving n (.node kind id parent))
      (hrest : Visits n parent rest) :
      Visits n parent (entered ++ (inner ++ (left ++ rest)))

/-- The calls of a whole pass: the root is entered, visits through the root follow, and the root is
left. -/
def IsPass (n : Nat) (turns : List Turn) : Prop :=
  ∃ entered inner left, turns = entered ++ (inner ++ left) ∧
    entered.map Turn.event = entering n .root ∧ Visits n Document.root inner ∧
    left.map Turn.event = leaving n .root

theorem Visits.append {n : Nat} {parent : NodeId} {first rest : List Turn}
    (hfirst : Visits n parent first) (hrest : Visits n parent rest) :
    Visits n parent (first ++ rest) := by
  induction hfirst with
  | nil => exact hrest
  | visit henter hkind hinner hvisits hleave _ _ ih =>
    have h := Visits.visit henter hkind hinner hvisits hleave (ih hrest)
    simpa only [List.append_assoc] using h

/-! ## What a part of a pass does -/

variable {S : Slots} {σ : Type}

/-- A part of a pass makes calls of this kind, which all succeed if it does. If one fails, it is the
last one, and the beginning of such calls ends with it. -/
structure Logs (observe : Observer S σ) (kind : List Turn → Prop) (s : Progress S σ)
    (o : Outcome S σ) : Prop where
  names : o.state.active.map (·.name) = s.active.map (·.name)
  whole : o.result = .ok () → ∃ turns, kind turns ∧ Proceeds observe s turns o.state
  failed : ∀ name cause, o.result = .error (.plugin name cause) → ∃ turns last rest mid,
    kind (turns ++ last :: rest) ∧ Proceeds observe s turns mid ∧
    Fires observe mid last name (.error cause) o.state
  tooDeep : o.result = .error .tooDeep → ∃ turns rest,
    kind (turns ++ rest) ∧ Proceeds observe s turns o.state

namespace Logs

variable {observe : Observer S σ} {kind first second : List Turn → Prop} {s : Progress S σ}
  {o : Outcome S σ} {next : Progress S σ → Outcome S σ}

theorem mono (h : Logs observe first s o) (himp : ∀ turns, first turns → second turns) :
    Logs observe second s o := by
  refine ⟨h.names, fun hok => ?_, fun name cause hfailed => ?_, fun hdeep => ?_⟩
  · obtain ⟨turns, hturns, hgo⟩ := h.whole hok
    exact ⟨turns, himp _ hturns, hgo⟩
  · obtain ⟨turns, last, rest, mid, hturns, hgo⟩ := h.failed name cause hfailed
    exact ⟨turns, last, rest, mid, himp _ hturns, hgo⟩
  · obtain ⟨turns, rest, hturns, hgo⟩ := h.tooDeep hdeep
    exact ⟨turns, rest, himp _ hturns, hgo⟩

theorem done (h : kind []) : Logs observe kind s (done s) :=
  ⟨rfl, fun _ => ⟨[], h, .nil s⟩, nofun, nofun⟩

theorem length_eq (h : Logs observe kind s o) : o.state.active.length = s.active.length := by
  rw [← List.length_map (·.name), h.names, List.length_map]

/-- **One part after the other makes one row of calls after the other.** For a failure of the first
part there have to be calls that the second part might have made. -/
theorem andThen (h : Logs observe first s o) (hnext : ∀ s', s'.active.length = s.active.length →
    Logs observe second s' (next s')) (hsome : ∃ turns, second turns) :
    Logs observe (fun turns => ∃ a b, first a ∧ second b ∧ turns = a ++ b) s (andThen o next) := by
  unfold Pass.andThen
  split
  · rename_i hok
    obtain ⟨a, ha, hgo⟩ := h.whole hok
    have hlater := hnext o.state h.length_eq
    refine ⟨hlater.names.trans h.names, fun hok => ?_, fun name cause hfailed => ?_,
      fun hdeep => ?_⟩
    · obtain ⟨b, hb, hgo'⟩ := hlater.whole hok
      exact ⟨a ++ b, ⟨a, b, ha, hb, rfl⟩, hgo.append hgo'⟩
    · obtain ⟨b, last, rest, mid, hb, hgo', hfires⟩ := hlater.failed name cause hfailed
      exact ⟨a ++ b, last, rest, mid, ⟨a, _, ha, hb, List.append_assoc ..⟩, hgo.append hgo', hfires⟩
    · obtain ⟨b, rest, hb, hgo'⟩ := hlater.tooDeep hdeep
      exact ⟨a ++ b, rest, ⟨a, _, ha, hb, List.append_assoc ..⟩, hgo.append hgo'⟩
  · rename_i error herror
    obtain ⟨b, hb⟩ := hsome
    refine ⟨h.names, fun hok => ?_, fun name cause hfailed => ?_, fun hdeep => ?_⟩
    · rw [herror] at hok
      cases hok
    · obtain ⟨a, last, rest, mid, ha, hgo⟩ := h.failed name cause hfailed
      exact ⟨a, last, rest ++ b, mid, ⟨_, b, ha, hb, by simp⟩, hgo⟩
    · obtain ⟨a, rest, ha, hgo⟩ := h.tooDeep hdeep
      exact ⟨a, rest ++ b, ⟨_, b, ha, hb, by simp⟩, hgo⟩

end Logs

/-! ## The parts of a pass -/

variable {observe : Observer S σ} {s : Progress S σ}

/-- **A call is the only one it makes.** -/
theorem logs_call (phase : Phase) (site : Site) {place : Nat} (hplace : place < s.active.length) :
    Logs observe (· = [⟨place, phase, site, s.doc⟩]) s (call observe phase site place s) := by
  obtain ⟨name, result, after, hfires, hcall⟩ := exists_fires observe phase site hplace
  rw [hcall]
  refine ⟨hfires.names_eq, fun hok => ?_, fun name' cause hfailed => ?_, fun hdeep => ?_⟩
  · cases result with
    | ok => exact ⟨_, rfl, .single hfires⟩
    | error => cases hok
  · cases result with
    | ok => cases hfailed
    | error =>
      cases hfailed
      exact ⟨[], _, [], s, rfl, .nil s, hfires⟩
  · cases result <;> cases hdeep

/-- Calls of the visitors at these places, the first one with the document as it is. -/
theorem logs_calls (phase : Phase) (site : Site) :
    ∀ {places : List Nat} {s : Progress S σ}, (∀ p ∈ places, p < s.active.length) →
      Logs observe (fun turns => turns.map Turn.event = places.map (.called · phase site) ∧
        ∀ first ∈ turns.head?, first.before = s.doc) s (inTurn (call observe phase site) places s)
  | [], _, _ => .done ⟨rfl, nofun⟩
  | place :: rest, s, h => by
    have hfirst : Logs observe (· = [⟨place, phase, site, s.doc⟩]) s
        (call observe phase site place s) :=
      logs_call phase site (h place List.mem_cons_self)
    have hrest : ∀ s', s'.active.length = s.active.length →
        Logs observe (fun turns => turns.map Turn.event = rest.map (.called · phase site)) s'
          (inTurn (call observe phase site) rest s') := fun s' hs' =>
      (logs_calls phase site fun p hp => hs' ▸ h p (List.mem_cons_of_mem _ hp)).mono
        fun _ hturns => hturns.1
    have hsome : ∃ turns : List Turn, turns.map Turn.event = rest.map (.called · phase site) :=
      ⟨rest.map (⟨·, phase, site, s.doc⟩), by rw [List.map_map]; rfl⟩
    refine (hfirst.andThen hrest hsome).mono ?_
    rintro _ ⟨_, b, rfl, hb, rfl⟩
    refine ⟨congrArg (_ :: ·) hb, fun first hmem => ?_⟩
    obtain rfl := Option.some.inj hmem
    rfl

theorem logs_enter (site : Site) {n : Nat} (hn : s.active.length = n) :
    Logs observe (fun turns => turns.map Turn.event = entering n site ∧
      ∀ first ∈ turns.head?, first.before = s.doc) s (enter observe site s) := by
  subst hn
  exact logs_calls .enter site fun p hp => List.mem_range.mp hp

theorem logs_leave (site : Site) {n : Nat} (hn : s.active.length = n) :
    Logs observe (fun turns => turns.map Turn.event = leaving n site) s (leave observe site s) := by
  subst hn
  exact (logs_calls .leave site fun p hp => List.mem_range.mp (List.mem_reverse.mp hp)).mono
    fun _ hturns => hturns.1

theorem exists_leaving (n : Nat) (site : Site) :
    ∃ turns : List Turn, turns.map Turn.event = leaving n site :=
  ⟨(List.range n).reverse.map (⟨·, .leave, site, .empty⟩), by rw [List.map_map]; rfl⟩

/-- Entering, something between, and leaving. -/
theorem logs_between (site : Site) {n : Nat} {inner : List Turn → Prop}
    {below : Progress S σ → Outcome S σ} (hn : s.active.length = n)
    (hbelow : ∀ s', s'.active.length = n → Logs observe inner s' (below s'))
    (hsome : ∃ turns, inner turns) :
    Logs observe (fun turns => ∃ entered middle left, turns = entered ++ (middle ++ left) ∧
        (entered.map Turn.event = entering n site ∧
          ∀ first ∈ entered.head?, first.before = s.doc) ∧
        inner middle ∧ left.map Turn.event = leaving n site) s
      (andThen (enter observe site s) fun s => andThen (below s) (leave observe site)) := by
  obtain ⟨turns, hturns⟩ := hsome
  obtain ⟨left, hleft⟩ := exists_leaving n site
  have hinner : ∀ s', s'.active.length = s.active.length →
      Logs observe _ s' (andThen (below s') (leave observe site)) := fun s' hs' =>
    (hbelow s' (hs'.trans hn)).andThen
      (fun s'' hs'' => logs_leave site (hs''.trans (hs'.trans hn))) ⟨left, hleft⟩
  have hall := (logs_enter site hn).andThen hinner ⟨_, turns, left, hturns, hleft, rfl⟩
  refine hall.mono ?_
  rintro _ ⟨entered, _, hentered, ⟨middle, left, hmiddle, hleft, rfl⟩, rfl⟩
  exact ⟨entered, middle, left, rfl, hentered, hmiddle, hleft⟩

theorem logs_visit {n : Nat} {below : NodeId → Progress S σ → Outcome S σ}
    (hbelow : ∀ id s, s.active.length = n → Logs observe (Visits n id) s (below id s))
    (parent id : NodeId) (hn : s.active.length = n) :
    Logs observe (Visits n parent) s (visit observe below parent id s) := by
  unfold visit
  split
  · exact .done (.nil parent)
  · rename_i kind hkind
    have hmiddle : ∀ s' : Progress S σ, s'.active.length = n →
        Logs observe (fun turns => (kind ≠ .element → turns = []) ∧ Visits n id turns) s'
          (if kind = .element ∧ s'.doc.parent? id = some parent then below id s' else done s') := by
      intro s' hs'
      split
      · rename_i hdescends
        exact (hbelow id s' hs').mono fun _ h => ⟨fun hkind => absurd hdescends.1 hkind, h⟩
      · exact .done ⟨fun _ => rfl, .nil id⟩
    refine (logs_between (.node kind id parent) hn hmiddle ⟨[], fun _ => rfl, .nil id⟩).mono ?_
    rintro _ ⟨entered, middle, left, rfl, ⟨hentered, hfirst⟩, ⟨helement, hvisits⟩, hleft⟩
    have hdoc : ∀ first ∈ entered.head?, first.before.kind? id = some kind :=
      fun first hmem => (congrArg (·.kind? id) (hfirst first hmem)).trans hkind
    have h := Visits.visit hentered hdoc helement hvisits hleft (.nil parent)
    rwa [List.append_nil] at h

theorem logs_visits {n : Nat} {parent : NodeId} {action : NodeId → Progress S σ → Outcome S σ}
    (haction : ∀ id s, s.active.length = n → Logs observe (Visits n parent) s (action id s)) :
    ∀ (ids : List NodeId) {s : Progress S σ}, s.active.length = n →
      Logs observe (Visits n parent) s (inTurn action ids s)
  | [], _, _ => .done (.nil parent)
  | id :: rest, s, hn => by
    have hrest : ∀ s', s'.active.length = s.active.length →
        Logs observe (Visits n parent) s' (inTurn action rest s') :=
      fun s' hs' => logs_visits haction rest (hs'.trans hn)
    refine ((haction id s hn).andThen hrest ⟨[], .nil parent⟩).mono ?_
    rintro _ ⟨a, b, ha, hb, rfl⟩
    exact ha.append hb

/-- **The children of a container are visited through it**, however the hooks change the document in
between. -/
theorem logs_visitChildren {n : Nat} :
    ∀ (depth : Nat) (parent : NodeId) (s : Progress S σ), s.active.length = n →
      Logs observe (Visits n parent) s (visitChildren observe depth parent s)
  | 0, parent, s, _ => ⟨rfl, nofun, nofun, fun _ => ⟨[], [], .nil parent, .nil s⟩⟩
  | depth + 1, parent, s, hn => by
    unfold visitChildren
    refine logs_visits (fun id s hs => ?_) _ hn
    split
    · exact logs_visit (logs_visitChildren depth) parent id hs
    · exact .done (.nil parent)

/-- **A pass makes the calls of a whole pass**, or the first of them up to the one that fails. -/
theorem logs_walk (observe : Observer S σ) (depth : Nat) (s : Progress S σ) :
    Logs observe (IsPass s.active.length) s (walk observe depth s) := by
  refine (logs_between .root rfl (logs_visitChildren depth Document.root) ⟨[], .nil _⟩).mono ?_
  rintro _ ⟨entered, middle, left, rfl, ⟨hentered, -⟩, hvisits, hleft⟩
  exact ⟨entered, middle, left, rfl, hentered, hvisits, hleft⟩

/-! ## Whole passes -/

/-- The observer that writes down what it is told. -/
def log : Observer S (List Event) :=
  fun event _ _ seen => seen ++ [event]

/-- Calls are written down in their order. -/
theorem Proceeds.seen_log {s after : Progress S (List Event)} {turns : List Turn}
    (h : Proceeds log s turns after) : after.seen = s.seen ++ turns.map Turn.event := by
  induction h with
  | nil => simp
  | cons hfires _ ih =>
    rw [ih, hfires.seen_eq, log, List.append_assoc]
    rfl

/-- The visitors of a pass: of the plugins, in their order, those that do not sit it out. -/
def roster (info : PassInfo) (doc : Document) : List (Plugin S) → Context S → List (Active S)
  | [], _ => []
  | plugin :: rest, context =>
    match plugin.visitor info doc context with
    | (some visitor, context) => ⟨plugin.name, visitor⟩ :: roster info doc rest context
    | (none, context) => roster info doc rest context

/-- The requests for visitors at the start of a pass. -/
def requests (info : PassInfo) (plugins : List (Plugin S)) : List Event :=
  plugins.zipIdx.map fun (_, place) => .asked info.index place

/-- The observer that takes notes. -/
def recording {α : Type} (note : Event → Document → α) : Observer S (List α) :=
  fun event doc _ seen => seen ++ [note event doc]

theorem foldl_ask {α : Type} (note : Event → Document → α) (info : PassInfo) :
    ∀ (plugins : List (Plugin S)) (start : Nat) (s : Progress S (List α)),
      let asked := (plugins.zipIdx start).foldl
        (fun s (plugin, place) => ask (recording note) info plugin place s) s
      asked.active = s.active ++ roster info s.doc plugins s.context ∧ asked.doc = s.doc ∧
        asked.seen = s.seen ++ (plugins.zipIdx start).map fun (_, place) =>
          note (.asked info.index place) s.doc
  | [], _, s => by simp [roster]
  | plugin :: rest, start, s => by
    obtain ⟨hactive, hdoc, hseen⟩ :=
      foldl_ask note info rest (start + 1) (ask (recording note) info plugin start s)
    simp only [List.zipIdx_cons, List.foldl_cons, List.map_cons]
    refine ⟨hactive.trans ?_, hdoc, hseen.trans ?_⟩
    · rcases hasked : plugin.visitor info s.doc s.context with ⟨visitor?, context⟩
      simp only [ask, roster, hasked]
      cases visitor? <;> simp
    · simp [ask, recording]

theorem recruit_recording {α : Type} (note : Event → Document → α) (info : PassInfo)
    (plugins : List (Plugin S)) (s : Progress S (List α)) :
    (recruit (recording note) info plugins s).active =
        s.active ++ roster info s.doc plugins s.context ∧
      (recruit (recording note) info plugins s).doc = s.doc ∧
      (recruit (recording note) info plugins s).seen =
        s.seen ++ (requests info plugins).map (note · s.doc) := by
  obtain ⟨hactive, hdoc, hseen⟩ := foldl_ask note info plugins 0 s
  refine ⟨hactive, hdoc, hseen.trans ?_⟩
  rw [requests, List.map_map]
  rfl

/-- What plugins leave in the shared cells when they are asked for their visitors. -/
theorem context_recruit (observe : Observer S σ) (info : PassInfo) (plugins : List (Plugin S))
    (s : Progress S σ) : (recruit observe info plugins s).context =
      plugins.foldl (fun context plugin => (plugin.visitor info s.doc context).2) s.context := by
  unfold recruit
  generalize 0 = start
  induction plugins generalizing start s with
  | nil => rfl
  | cons plugin rest ih => exact ih _ _

/-- From a state on, calls are made and written down of which all succeed but the last: the hook of a
plugin with this name fails, and this is the state after it. -/
def FailsAt (start : Progress S (List Event)) (told : List Event) (name : String)
    (cause : HookError) (after : Progress S (List Event)) : Prop :=
  ∃ turns mid last, Proceeds log start turns mid ∧ Fires log mid last name (.error cause) after ∧
    after.seen <+: told

/-- What is called in a pass from the state on in which all plugins have been asked for visitors. -/
structure Bracketed (start : Progress S (List Event)) (o : Outcome S (List Event)) : Prop where
  /-- If the pass ends well, the calls are those of a whole pass, and all of them succeed. -/
  ok : o.result = .ok () → ∃ turns, IsPass start.active.length turns ∧
    Proceeds log start turns o.state ∧ o.state.seen = start.seen ++ turns.map Turn.event
  /-- If it fails, they are the first ones of a whole pass, up to one that fails. The error names its
  plugin. -/
  failed : ∀ name cause, o.result = .error (.plugin name cause) → ∃ turns last rest mid,
    IsPass start.active.length (turns ++ last :: rest) ∧ Proceeds log start turns mid ∧
    Fires log mid last name (.error cause) o.state ∧
    o.state.seen = start.seen ++ (turns ++ [last]).map Turn.event ∧
    (start.active.map (·.name))[last.place]? = some name
  tooDeep : o.result = .error .tooDeep → ∃ turns rest,
    IsPass start.active.length (turns ++ rest) ∧ Proceeds log start turns o.state ∧
    o.state.seen = start.seen ++ turns.map Turn.event
  /-- If a hook fails, no other one is called, and the pass fails with its error. -/
  stops : ∀ name cause after, FailsAt start o.state.seen name cause after →
    o = ⟨.error (.plugin name cause), after⟩

/-- Calls that all succeed have none among them that fails. -/
theorem not_failsAt_of_proceeds {start after after' : Progress S (List Event)} {turns : List Turn}
    {name : String} {cause : HookError} (h : Proceeds log start turns after) :
    ¬FailsAt start after.seen name cause after' := by
  rintro ⟨turns', mid, last, hgo, hfires, rest, hseen⟩
  rw [hfires.seen_eq, hgo.seen_log, h.seen_log, log, List.append_assoc, List.append_assoc,
    List.append_cancel_left_eq] at hseen
  cases hgo.ok_of_same_events hfires h hseen.symm

/-- Of calls of which the last one fails, no other one does. -/
theorem eq_of_failsAt {start mid after after' : Progress S (List Event)} {turns : List Turn}
    {last : Turn} {name name' : String} {cause cause' : HookError}
    (h : Proceeds log start turns mid) (hfires : Fires log mid last name (.error cause) after)
    (hfails : FailsAt start after.seen name' cause' after') :
    name = name' ∧ cause = cause' ∧ after = after' := by
  obtain ⟨turns', mid', last', hgo, hfires', rest, hseen⟩ := hfails
  rw [hfires'.seen_eq, hgo.seen_log, hfires.seen_eq, h.seen_log, log, log, List.append_assoc,
    List.append_assoc, List.append_assoc, List.append_cancel_left_eq] at hseen
  rcases List.eq_nil_or_concat rest with rfl | ⟨rest, event, rfl⟩
  · obtain ⟨hevents, hlast⟩ := List.append_inj' hseen rfl
    obtain ⟨rfl, rfl⟩ := hgo.unique h hevents
    obtain ⟨-, rfl, hcause, rfl⟩ := hfires.unique hfires' (List.cons.inj hlast).1.symm
    exact ⟨rfl, Except.error.inj hcause, rfl⟩
  · -- the call would be one of those that succeed
    rw [List.concat_eq_append, ← List.append_assoc [last'.event], ← List.append_assoc] at hseen
    obtain ⟨hevents, -⟩ := List.append_inj' hseen rfl
    cases hgo.ok_of_same_events hfires' h hevents.symm

theorem Logs.bracketed {start : Progress S (List Event)} {o : Outcome S (List Event)}
    (h : Logs log (IsPass start.active.length) start o) : Bracketed start o := by
  refine ⟨fun hok => ?_, fun name cause hfailed => ?_, fun hdeep => ?_,
    fun name cause after hfails => ?_⟩
  · obtain ⟨turns, hpass, hgo⟩ := h.whole hok
    exact ⟨turns, hpass, hgo, hgo.seen_log⟩
  · obtain ⟨turns, last, rest, mid, hpass, hgo, hfires⟩ := h.failed name cause hfailed
    refine ⟨turns, last, rest, mid, hpass, hgo, hfires, ?_, hgo.names_eq ▸ hfires.name_eq⟩
    rw [hfires.seen_eq, hgo.seen_log, log, List.map_append, List.append_assoc]
    rfl
  · obtain ⟨turns, rest, hpass, hgo⟩ := h.tooDeep hdeep
    exact ⟨turns, rest, hpass, hgo, hgo.seen_log⟩
  · obtain ⟨result, state⟩ := o
    cases result with
    | ok =>
      obtain ⟨_, -, hgo⟩ := h.whole rfl
      exact absurd hfails (not_failsAt_of_proceeds hgo)
    | error error =>
      cases error with
      | tooDeep =>
        obtain ⟨_, _, -, hgo⟩ := h.tooDeep rfl
        exact absurd hfails (not_failsAt_of_proceeds hgo)
      | plugin =>
        obtain ⟨_, _, _, _, -, hgo, hfires⟩ := h.failed _ _ rfl
        obtain ⟨rfl, rfl, rfl⟩ := eq_of_failsAt hgo hfires hfails
        rfl

/-- A pass has the error of a plugin only if its hook fails. -/
theorem Bracketed.exists_failsAt {start : Progress S (List Event)} {o : Outcome S (List Event)}
    (h : Bracketed start o) {name : String} {cause : HookError}
    (hfailed : o.result = .error (.plugin name cause)) :
    FailsAt start o.state.seen name cause o.state := by
  obtain ⟨turns, last, -, mid, -, hgo, hfires, -⟩ := h.failed name cause hfailed
  exact ⟨turns, mid, last, hgo, hfires, List.prefix_rfl⟩

/-- **The calls of a pass are bracketed, and the first that fails ends it.** They are those of a whole
pass, which all succeed if the pass does; else they are the first of such calls, and the last of them
is the one that failed. The bound on the levels that a pass descends has no part in it. -/
theorem run_bracketed (plugins : List (Plugin S)) (info : PassInfo) (doc : Document)
    (context : Context S) :
    let start := recruit log info plugins { doc, context, active := [], seen := [] }
    (start.doc = doc ∧ start.active = roster info doc plugins context ∧
      start.context =
        plugins.foldl (fun context plugin => (plugin.visitor info doc context).2) context ∧
      start.seen = requests info plugins) ∧
    Bracketed start (run log plugins info doc context []) ∧
    ∀ depth, Bracketed start (walk log depth start) := by
  intro start
  obtain ⟨hactive, hdoc, hseen⟩ := recruit_recording (fun event _ => event) info plugins
    { doc, context, active := [], seen := [] }
  have hcontext : start.context = _ := context_recruit log info plugins _
  have hwalk (depth : Nat) := (logs_walk log depth start).bracketed
  exact ⟨⟨hdoc, hactive, hcontext, hseen.trans (List.map_id _)⟩, hwalk _, hwalk⟩

end Pass

end SvgTidy
