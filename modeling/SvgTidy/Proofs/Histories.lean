import SvgTidy.Options
import SvgTidy.Proofs.Moves
import SvgTidy.Proofs.ReadingSteps

/-!
# Documents over whole histories

`Call` lists the calls of the interface through which a document is changed, and `Document.Step` the
ways in which one document becomes another: a call, a pass of plugins whose hooks make calls only, a
whole tidying by such plugins, or any moment in the middle of a pass.

Principal results: `Pass.runWithin_induct` — what every request for a visitor and every call of a hook
keeps holds after a pass, also after one that a hook aborts; `Document.Step.evolves`, and from it
`Document.wellFormed_of_history` — every document reached from an empty or a freshly read one is
well-formed, and nodes keep their kinds.
-/

namespace SvgTidy

/-- A call of the interface through which documents are changed. -/
inductive Call where
  | createElement (element : Element)
  | createText (value : String)
  | createCdata (value : String)
  | createComment (value : String)
  | createInstruction (instruction : Instruction)
  | createDoctype (value : String)
  | updateElement (id : NodeId) (change : Element → Element)
  | updateInstruction (id : NodeId) (change : Instruction → Instruction)
  | updateValue (id : NodeId) (change : String → String)
  | insert (parent : NodeId) (index : Nat) (child : NodeId)
  | append (parent child : NodeId)
  | insertBefore (sibling child : NodeId)
  | insertAfter (sibling child : NodeId)
  | remove (id : NodeId)
  | replace (old new : NodeId)
  | setChildren (parent : NodeId) (children : List NodeId)
  | replaceWithChildren (id : NodeId)

namespace Call

/-- The document that a call leaves, whether it succeeds or is refused. -/
def apply (doc : Document) : Call → Document
  | createElement element => (doc.createElement element).2
  | createText value => (doc.createText value).2
  | createCdata value => (doc.createCdata value).2
  | createComment value => (doc.createComment value).2
  | createInstruction instruction => (doc.createInstruction instruction).2
  | createDoctype value => (doc.createDoctype value).2
  | updateElement id change => doc.updateElement id change
  | updateInstruction id change => doc.updateInstruction id change
  | updateValue id change => doc.updateValue id change
  | insert parent index child => (outcome (Document.insert parent index child) doc).2
  | append parent child => (outcome (Document.append parent child) doc).2
  | insertBefore sibling child => (outcome (Document.insertBefore sibling child) doc).2
  | insertAfter sibling child => (outcome (Document.insertAfter sibling child) doc).2
  | remove id => (outcome (Document.remove id) doc).2
  | replace old new => (outcome (Document.replace old new) doc).2
  | setChildren parent children => (outcome (Document.setChildren parent children) doc).2
  | replaceWithChildren id => (outcome (Document.replaceWithChildren id) doc).2

theorem evolves (doc : Document) : ∀ call : Call, doc.Evolves (call.apply doc)
  | createElement _ => .create doc nofun
  | createText _ => .create doc nofun
  | createCdata _ => .create doc nofun
  | createComment _ => .create doc nofun
  | createInstruction _ => .create doc nofun
  | createDoctype _ => .create doc nofun
  | updateElement id change => .modify_data doc id (NodeData.kind_mapElement change)
  | updateInstruction id change => .modify_data doc id (NodeData.kind_mapInstruction change)
  | updateValue id change => .modify_data doc id (NodeData.kind_mapValue change)
  | insert parent index child => Editing.Sound.insert parent index child doc
  | append parent child => Editing.Sound.append parent child doc
  | insertBefore sibling child => Editing.Sound.insertBeside 0 sibling child doc
  | insertAfter sibling child => Editing.Sound.insertBeside 1 sibling child doc
  | remove id => Editing.Sound.remove id doc
  | replace old new => Editing.Sound.replace old new doc
  | setChildren parent children => Editing.Sound.setChildren parent children doc
  | replaceWithChildren id => Editing.Sound.replaceWithChildren id doc

theorem evolves_foldl (calls : List Call) (doc : Document) :
    doc.Evolves (calls.foldl apply doc) := by
  induction calls generalizing doc with
  | nil => exact .refl doc
  | cons call rest ih => exact (evolves doc call).trans (ih (call.apply doc))

end Call

/-! ## Plugins that keep to the interface -/

/-- Whatever a hook is called on, it changes the document by a sequence of calls. -/
def Hook.UsesCalls {S : Slots} {Memory α : Type} (hook : Hook S Memory α) : Prop :=
  ∀ bench, ∃ calls : List Call, (outcome hook bench).2.doc = calls.foldl Call.apply bench.doc

/-- All hooks of a visitor change the document by calls only. -/
def Visitor.UsesCalls {S : Slots} (visitor : Visitor S) : Prop :=
  ∀ phase site, (visitor.hook phase site).UsesCalls

/-- All visitors of a plugin change the document by calls only. -/
def Plugin.UsesCalls {S : Slots} (plugin : Plugin S) : Prop :=
  ∀ info doc context visitor, (plugin.visitor info doc context).1 = some visitor →
    visitor.UsesCalls

/-- What holds of the parts of which the hooks of cleanups are made, and of what is made of them. -/
structure Hook.Composes {S : Slots} (P : ∀ {Memory α : Type}, Hook S Memory α → Prop) : Prop where
  pure : ∀ {Memory α : Type} (value : α), P (Pure.pure value : Hook S Memory α)
  bind : ∀ {Memory α β : Type} {hook : Hook S Memory α} {next : α → Hook S Memory β}, P hook →
    (∀ value, P (next value)) → P (hook >>= next)
  document : ∀ {Memory : Type}, P (Hook.document : Hook S Memory Document)
  memory : ∀ {Memory : Type}, P (Hook.memory : Hook S Memory Memory)
  remember : ∀ {Memory : Type} (memory : Memory), P (Hook.remember memory : Hook S Memory Unit)
  updateElement : ∀ {Memory : Type} (id : NodeId) (change : Element → Element),
    P (Hook.change (·.updateElement id change) : Hook S Memory Unit)
  /-- An edit that is a call of the interface. -/
  edit : ∀ {Memory α : Type} {step : Editing α} (call : Call),
    (∀ doc, (outcome step doc).2 = call.apply doc) → P (Hook.edit step : Hook S Memory α)

namespace Hook.UsesCalls

variable {S : Slots} {Memory α β : Type}

theorem pure (value : α) : Hook.UsesCalls (Pure.pure value : Hook S Memory α) :=
  fun _ => ⟨[], rfl⟩

theorem bind {hook : Hook S Memory α} {next : α → Hook S Memory β} (hhook : hook.UsesCalls)
    (hnext : ∀ value, (next value).UsesCalls) : Hook.UsesCalls (hook >>= next) := by
  intro bench
  obtain ⟨calls, hcalls⟩ := hhook bench
  rw [outcome_bind]
  cases hon : outcome hook bench with
  | mk result after =>
    rw [hon] at hcalls
    cases result with
    | error error => exact ⟨calls, hcalls⟩
    | ok value =>
      obtain ⟨more, hmore⟩ := hnext value after
      exact ⟨calls ++ more, by rw [hmore, hcalls, List.foldl_append]⟩

theorem document : Hook.UsesCalls (Hook.document : Hook S Memory Document) :=
  fun _ => ⟨[], rfl⟩

theorem memory : Hook.UsesCalls (Hook.memory : Hook S Memory Memory) :=
  fun _ => ⟨[], rfl⟩

theorem remember (memory : Memory) : Hook.UsesCalls (Hook.remember memory : Hook S Memory Unit) :=
  fun _ => ⟨[], rfl⟩

theorem updateElement (id : NodeId) (change : Element → Element) :
    Hook.UsesCalls (Hook.change (·.updateElement id change) : Hook S Memory Unit) :=
  fun _ => ⟨[.updateElement id change], rfl⟩

/-- An edit that is a call of the interface. -/
theorem edit {step : Editing α} (call : Call)
    (h : ∀ doc, (outcome step doc).2 = call.apply doc) :
    Hook.UsesCalls (Hook.edit step : Hook S Memory α) := by
  refine fun bench => ⟨[call], ?_⟩
  rw [outcome_edit, List.foldl_cons, List.foldl_nil, ← h]
  obtain ⟨_ | _, _⟩ := outcome step bench.doc <;> rfl

theorem composes {S : Slots} : Hook.Composes (S := S) Hook.UsesCalls :=
  ⟨pure, bind, document, memory, remember, updateElement, edit⟩

end Hook.UsesCalls

namespace Cleanup

variable {S : Slots} {P : ∀ {Memory α : Type}, Hook S Memory α → Prop} (hP : Hook.Composes P)
include hP

theorem removing_composes (selects : NodeData → Bool) (phase : Phase) (site : Site) :
    P ((removing selects : Visitor S).hook phase site) := by
  unfold removing
  simp only
  split
  · refine hP.bind hP.document fun doc => ?_
    split
    · exact hP.edit (.remove _) fun _ => rfl
    · exact hP.pure ()
  · exact hP.pure ()

theorem removingEditorData_composes (namespaces : List String) (phase : Phase) (site : Site) :
    P ((removingEditorData namespaces : Visitor S).hook phase site) := by
  unfold removingEditorData
  simp only
  split
  · refine hP.bind hP.document fun doc => ?_
    split
    · exact hP.pure ()
    · refine hP.bind hP.memory fun names => hP.bind (hP.remember _) fun _ => ?_
      refine hP.bind (hP.updateElement _ _) fun _ => ?_
      split
      · exact hP.edit (.remove _) fun _ => rfl
      · exact hP.updateElement _ _
  · exact hP.pure ()

theorem convertingColors_composes (rules : ColorRules) (phase : Phase) (site : Site) :
    P ((convertingColors rules : Visitor S).hook phase site) := by
  unfold convertingColors
  simp only
  split
  · exact hP.updateElement _ _
  · exact hP.pure ()

theorem collapsingGroups_composes (phase : Phase) (site : Site) :
    P ((collapsingGroups : Visitor S).hook phase site) := by
  unfold collapsingGroups
  simp only
  split
  · refine hP.bind hP.document fun doc => ?_
    split
    · exact hP.edit (.replaceWithChildren _) fun _ => rfl
    · exact hP.pure ()
  · exact hP.pure ()

theorem removingEmptyContainers_composes (phase : Phase) (site : Site) :
    P ((removingEmptyContainers : Visitor S).hook phase site) := by
  unfold removingEmptyContainers
  simp only
  split
  · refine hP.bind hP.document fun doc => ?_
    split
    · exact hP.edit (.remove _) fun _ => rfl
    · exact hP.pure ()
  · exact hP.pure ()

/-- What holds of all hooks made of these parts holds of those of the library's visitors. -/
theorem composes {cleanup : Cleanup} {visitor : Visitor S} (h : cleanup.visitor? = some visitor)
    (phase : Phase) (site : Site) : P (visitor.hook phase site) := by
  cases cleanup with
  | removeDoctype =>
    cases h
    exact removing_composes hP _ phase site
  | removeXmlDeclaration =>
    cases h
    exact removing_composes hP _ phase site
  | removeComments keepLegal =>
    cases h
    exact removing_composes hP _ phase site
  | removeMetadata =>
    cases h
    exact removing_composes hP _ phase site
  | removeEditorData extra =>
    cases h
    exact removingEditorData_composes hP _ phase site
  | convertColors rules =>
    simp only [visitor?] at h
    split at h
    · cases h
      exact convertingColors_composes hP rules phase site
    · cases h
  | collapseGroups =>
    cases h
    exact collapsingGroups_composes hP phase site
  | removeEmptyContainers =>
    cases h
    exact removingEmptyContainers_composes hP phase site

omit hP in
/-- The plugins of the library keep to the interface. -/
theorem usesCalls (cleanup : Cleanup) : (cleanup.plugin : Plugin S).UsesCalls :=
  fun _ _ _ _ hvisitor => composes Hook.UsesCalls.composes hvisitor

end Cleanup

/-! ## Induction along a pass -/

namespace Pass

section Sorts

variable {S : Slots} {σ : Type} {V : Visitor S → Prop} {s : Progress S σ}

/-- **What a call does where all visitors are of a sort that is a matter of their hooks.** They stay of
it; the document is left as it was, or as the hook of one of them leaves it, and the call is told. -/
theorem call_spec (observe : Observer S σ)
    (hmemory : ∀ visitor memory, V visitor → V { visitor with memory })
    (hs : ∀ a ∈ s.active, V a.visitor) (phase : Phase) (site : Site) (place : Nat) :
    let after := (call observe phase site place s).state
    (∀ a ∈ after.active, V a.visitor) ∧
      (after = s ∨ ∃ visitor bench, V visitor ∧ bench.doc = s.doc ∧
        after.doc = (outcome (visitor.hook phase site) bench).2.doc ∧
        after.seen = observe (.called place phase site) after.doc after.context s.seen) := by
  unfold call
  split
  · exact ⟨hs, .inl rfl⟩
  · rename_i name visitor hplace
    have hvisitor : V visitor := hs _ (List.mem_of_getElem? hplace)
    refine ⟨fun a ha => ?_, .inr ⟨visitor, ⟨s.doc, s.context, visitor.memory⟩, hvisitor, rfl, rfl,
      rfl⟩⟩
    rcases List.mem_or_eq_of_mem_set ha with ha | rfl
    · exact hs a ha
    · exact hmemory visitor _ hvisitor

/-- The visitor that a plugin sends joins those at work. -/
theorem ask_spec (observe : Observer S σ) (hs : ∀ a ∈ s.active, V a.visitor) {plugin : Plugin S}
    (hplugin : ∀ info doc context visitor, (plugin.visitor info doc context).1 = some visitor →
      V visitor) (info : PassInfo) (place : Nat) :
    ∀ a ∈ (ask observe info plugin place s).active, V a.visitor := by
  intro a ha
  simp only [ask, List.mem_append, Option.mem_toList] at ha
  rcases ha with ha | ha
  · exact hs a ha
  · obtain ⟨visitor, hvisitor, rfl⟩ := Option.map_eq_some_iff.mp ha
    exact hplugin info s.doc s.context visitor hvisitor

end Sorts

variable {S : Slots} {σ : Type} {observe : Observer S σ} {I : Progress S σ → Prop}

theorem andThen_induct {o : Outcome S σ} {next : Progress S σ → Outcome S σ} (ho : I o.state)
    (hnext : ∀ s, I s → I (next s).state) : I (andThen o next).state := by
  unfold andThen
  split
  · exact hnext _ ho
  · exact ho

theorem inTurn_induct {α : Type} {action : α → Progress S σ → Outcome S σ}
    (haction : ∀ a s, I s → I (action a s).state) :
    ∀ (items : List α) (s : Progress S σ), I s → I (inTurn action items s).state
  | [], _, hs => hs
  | a :: rest, s, hs => andThen_induct (haction a s hs) fun s hs => inTurn_induct haction rest s hs

variable (hcall : ∀ phase site place s, I s → I (call observe phase site place s).state)
include hcall

theorem enter_induct (site : Site) (s : Progress S σ) (hs : I s) : I (enter observe site s).state :=
  inTurn_induct (hcall .enter site) _ s hs

theorem leave_induct (site : Site) (s : Progress S σ) (hs : I s) : I (leave observe site s).state :=
  inTurn_induct (hcall .leave site) _ s hs

theorem visit_induct {below : NodeId → Progress S σ → Outcome S σ}
    (hbelow : ∀ id s, I s → I (below id s).state) (parent id : NodeId) (s : Progress S σ)
    (hs : I s) : I (visit observe below parent id s).state := by
  unfold visit
  split
  · exact hs
  · refine andThen_induct (enter_induct hcall _ s hs) fun s hs => ?_
    refine andThen_induct ?_ (leave_induct hcall _)
    split
    · exact hbelow id s hs
    · exact hs

theorem visitChildren_induct :
    ∀ (depth : Nat) (parent : NodeId) (s : Progress S σ), I s →
      I (visitChildren observe depth parent s).state
  | 0, _, _, hs => hs
  | depth + 1, parent, s, hs => by
    unfold visitChildren
    refine inTurn_induct (fun id s hs => ?_) _ s hs
    split
    · exact visit_induct hcall (visitChildren_induct depth) parent id s hs
    · exact hs

theorem walk_induct (depth : Nat) (s : Progress S σ) (hs : I s) : I (walk observe depth s).state := by
  unfold walk
  refine andThen_induct (enter_induct hcall _ s hs) fun s hs => ?_
  exact andThen_induct (visitChildren_induct hcall _ _ s hs) (leave_induct hcall _)

omit hcall in
theorem recruit_induct {plugins : List (Plugin S)} {info : PassInfo}
    (hask : ∀ plugin ∈ plugins, ∀ place s, I s → I (ask observe info plugin place s))
    (s : Progress S σ) (hs : I s) : I (recruit observe info plugins s) := by
  unfold recruit
  refine List.foldlRecOn _ _ hs fun s hs item hitem => ?_
  exact hask item.1 (List.fst_mem_of_mem_zipIdx hitem) item.2 s hs

/-- **What every request for a visitor and every call of a hook keeps holds after a pass**, however
the pass ends. -/
theorem runWithin_induct {plugins : List (Plugin S)} {info : PassInfo} {doc : Document}
    {context : Context S} {seen : σ} (levels : Nat)
    (hask : ∀ plugin ∈ plugins, ∀ place s, I s → I (ask observe info plugin place s))
    (hstart : I { doc, context, active := [], seen }) :
    I (runWithin levels observe plugins info doc context seen).state :=
  walk_induct hcall _ _ (recruit_induct hask _ hstart)

end Pass

/-! ## Histories -/

/-- A document evolved from a given one, and visitors that keep to the interface. -/
structure Tame {S : Slots} {σ : Type} (first : Document) (s : Progress S σ) : Prop where
  evolves : first.Evolves s.doc
  usesCalls : ∀ a ∈ s.active, a.visitor.UsesCalls

namespace Tame

open Pass

variable {S : Slots} {σ : Type} {first : Document} {s : Progress S σ}

theorem call (observe : Observer S σ) (h : Tame first s) (phase : Phase) (site : Site)
    (place : Nat) :
    Tame first (Pass.call observe phase site place s).state := by
  obtain ⟨huses, hsame | ⟨visitor, bench, hvisitor, hbench, hdoc, -⟩⟩ :=
    call_spec observe (fun _ _ h => h) h.usesCalls phase site place
  · rwa [hsame]
  · refine ⟨h.evolves.trans ?_, huses⟩
    obtain ⟨calls, hcalls⟩ := hvisitor phase site bench
    rw [hdoc, hcalls, hbench]
    exact Call.evolves_foldl calls s.doc

theorem ask (observe : Observer S σ) (h : Tame first s) {plugin : Plugin S}
    (hplugin : plugin.UsesCalls) (info : PassInfo)
    (place : Nat) : Tame first (Pass.ask observe info plugin place s) :=
  ⟨h.evolves, ask_spec observe h.usesCalls hplugin info place⟩

theorem runWithin (levels : Nat) (observe : Observer S σ) {plugins : List (Plugin S)}
    (hplugins : ∀ plugin ∈ plugins, plugin.UsesCalls)
    (info : PassInfo) (doc : Document) (context : Context S) (seen : σ) :
    Tame doc (Pass.runWithin levels observe plugins info doc context seen).state :=
  runWithin_induct (fun phase site place _ hs => hs.call observe phase site place) levels
    (fun plugin hplugin place _ hs => hs.ask observe (hplugins plugin hplugin) info place)
    ⟨.refl doc, fun _ h => by simp at h⟩

end Tame

namespace Pass

/-- The documents at all moments of a pass, the latest first: one after each request for a visitor
and one after each call of a hook. -/
def moments {S : Slots} (plugins : List (Plugin S)) (info : PassInfo) (doc : Document)
    (context : Context S) : List Document :=
  (run (fun _ doc _ seen => doc :: seen) plugins info doc context []).state.seen

theorem evolves_of_mem_moments {S : Slots} {plugins : List (Plugin S)}
    (hplugins : ∀ plugin ∈ plugins, plugin.UsesCalls) {info : PassInfo} {doc : Document}
    {context : Context S} {moment : Document} (h : moment ∈ moments plugins info doc context) :
    doc.Evolves moment := by
  let I (s : Progress S (List Document)) : Prop := Tame doc s ∧ ∀ d ∈ s.seen, doc.Evolves d
  have hrun : I (run (fun _ doc _ seen => doc :: seen) plugins info doc context []).state := by
    refine runWithin_induct (fun phase site place s hs => ?_) headroom
      (fun plugin hplugin place s hs => ?_) ?_
    · have hnext := hs.1.call (fun _ doc _ seen => doc :: seen) phase site place
      refine ⟨hnext, fun d hd => ?_⟩
      obtain ⟨-, hsame | ⟨_, _, _, _, _, hseen⟩⟩ := call_spec (fun _ doc _ seen => doc :: seen)
        (fun _ _ h => h) hs.1.usesCalls phase site place
      · exact hs.2 d (hsame ▸ hd)
      · rw [hseen] at hd
        rcases List.mem_cons.mp hd with rfl | hd
        · exact hnext.evolves
        · exact hs.2 d hd
    · refine ⟨hs.1.ask _ (hplugins plugin hplugin) info place, fun d hd => ?_⟩
      rcases List.mem_cons.mp hd with rfl | hd
      · exact hs.1.evolves
      · exact hs.2 d hd
    · exact ⟨⟨.refl doc, fun _ h => by simp at h⟩, fun _ h => by simp at h⟩
  exact hrun.2 moment h

variable {S : Slots} {σ : Type} {observe : Observer S σ} {plugins : List (Plugin S)}

theorem settleWithin_evolves (hplugins : ∀ plugin ∈ plugins, plugin.UsesCalls) (levels : Nat)
    (path : Option String) (layout : Layout) :
    ∀ (budget index : Nat) (previous : Option String) (doc : Document) (context : Context S)
      (seen : σ), doc.Evolves
        (settleWithin levels observe plugins path layout budget index previous doc context seen).doc
  | 0, _, _, doc, _, _ => .refl doc
  | budget + 1, index, previous, doc, context, seen => by
    have hrun := Tame.runWithin levels observe hplugins ⟨path, index⟩ doc context seen
    unfold settleWithin
    split
    rename_i result after heq
    rw [heq] at hrun
    simp only at hrun ⊢
    split
    · exact hrun.evolves
    · split
      · exact hrun.evolves
      · exact hrun.evolves.trans
          (settleWithin_evolves hplugins levels path layout budget _ _ _ _ _)

theorem allWithin_evolves (hplugins : ∀ plugin ∈ plugins, plugin.UsesCalls) (levels : Nat)
    (path : Option String) (layout : Layout) (multipass : Bool) (doc : Document) (seen : σ) :
    doc.Evolves (allWithin levels observe plugins path layout multipass doc seen).doc := by
  unfold allWithin
  split
  · exact settleWithin_evolves hplugins levels path layout _ _ _ doc _ seen
  · exact (Tame.runWithin levels observe hplugins ⟨path, 0⟩ doc .empty seen).evolves

end Pass

namespace Document

/-- The ways in which one document becomes another. -/
inductive Step : Document → Document → Prop where
  /-- A call of the interface, successful or refused. -/
  | call (doc : Document) (call : Call) : Step doc (call.apply doc)
  /-- A pass, to its end or up to the hook that aborts it. -/
  | pass {S : Slots} {σ : Type} (observe : Observer S σ) {plugins : List (Plugin S)}
      (hplugins : ∀ plugin ∈ plugins, plugin.UsesCalls) (info : PassInfo) (doc : Document)
      (context : Context S) (seen : σ) :
      Step doc (Pass.run observe plugins info doc context seen).state.doc
  /-- A pass up to any moment of it. -/
  | moment {S : Slots} {plugins : List (Plugin S)}
      (hplugins : ∀ plugin ∈ plugins, plugin.UsesCalls) {info : PassInfo} {doc : Document}
      {context : Context S} {moment : Document}
      (h : moment ∈ Pass.moments plugins info doc context) : Step doc moment
  /-- All passes of a tidying. -/
  | tidy {S : Slots} {options : Options S}
      (hplugins : ∀ plugin ∈ options.plugins, plugin.UsesCalls) (doc : Document) :
      Step doc (doc.tidy options).doc

/-- What a history may start from: an empty document, or one that was read. -/
inductive Initial : Document → Prop where
  | empty : Initial .empty
  | read {source : String} {path : Option String} {doc : Document}
      (h : read source path = .ok doc) : Initial doc

/-- One document becomes another in any number of steps. -/
def History : Document → Document → Prop :=
  Relation.ReflTransGen Step

theorem Step.evolves {doc later : Document} (h : Step doc later) : doc.Evolves later := by
  cases h with
  | call _ c => exact c.evolves doc
  | pass _ hplugins info _ context seen => exact (Tame.runWithin _ _ hplugins info doc context seen).evolves
  | moment hplugins h => exact Pass.evolves_of_mem_moments hplugins h
  | tidy hplugins => exact Pass.allWithin_evolves hplugins _ _ _ _ doc ()

theorem History.evolves {doc later : Document} (h : History doc later) : doc.Evolves later := by
  induction h with
  | refl => exact .refl doc
  | tail _ hstep ih => exact ih.trans hstep.evolves

/-- Calls one after the other. -/
theorem History.calls (calls : List Call) (doc : Document) :
    History doc (calls.foldl Call.apply doc) := by
  induction calls generalizing doc with
  | nil => exact .refl
  | cons call rest ih => exact .head (.call doc call) (ih (call.apply doc))

theorem Initial.wellFormed {doc : Document} (h : Initial doc) : doc.WellFormed := by
  cases h with
  | empty => exact .empty
  | read h => exact wellFormed_of_read h

/-- **Every document of a history is well-formed, and nodes keep their kinds from then on.** -/
theorem wellFormed_of_history {first doc later : Document} (hfirst : first.Initial)
    (hdoc : History first doc) (hlater : History doc later) :
    doc.WellFormed ∧ ∀ id kind, doc.kind? id = some kind → later.kind? id = some kind := by
  obtain ⟨hwell, -⟩ := hdoc.evolves hfirst.wellFormed
  exact ⟨hwell, (hlater.evolves hwell).2⟩

/-- A drawing made by hand, with a move that is refused because of the cycle it would close. -/
def drawing : Document :=
  [.createElement { name := "svg" }, .append root ⟨1⟩, .createElement { name := "g" },
    .append ⟨1⟩ ⟨2⟩, .append ⟨2⟩ ⟨1⟩, .createComment "x", .insertBefore ⟨2⟩ ⟨3⟩].foldl
    Call.apply .empty

theorem wellFormed_of_history_drawing :
    Initial .empty ∧ History .empty drawing ∧
      History drawing (drawing.tidy ({ multipass := true } : Options Slots.none)).doc ∧
      drawing.WellFormed ∧
      ∀ id kind, drawing.kind? id = some kind →
        (drawing.tidy ({ multipass := true } : Options Slots.none)).doc.kind? id = some kind := by
  have hdrawing : History .empty drawing := by
    unfold drawing
    simp only [List.foldl_cons, List.foldl_nil]
    repeat refine Relation.ReflTransGen.tail ?_ (.call _ _)
    exact .refl
  have htidy : History drawing (drawing.tidy ({ multipass := true } : Options Slots.none)).doc := by
    refine .single (.tidy (fun plugin hplugin => ?_) drawing)
    obtain ⟨cleanup, -, rfl⟩ := List.mem_map.mp hplugin
    exact cleanup.usesCalls
  exact ⟨.empty, hdrawing, htidy, wellFormed_of_history .empty hdrawing htidy⟩

end Document

end SvgTidy
