import SvgTidy.Proofs.Histories
import SvgTidy.Proofs.TalkingHooks

/-!
# What a call remembers

Where plugins reach the shared cells by dialogues (`TalkingPlugin`), a call is a row of these: each
plugin is asked for its visitor, hooks are called, and at the end of a pass the visitors go (`Acts`).
Each dialogue is led with the cells as the one before it has left them, whichever plugin, hook or pass
that was, and also where a hook fails (`Deeds`). The accesses that they make, one after the other,
therefore lead from the cells at the beginning of the call to those at its end.

The observer of a call is told of each act with the context after it. What is proved holds for all
observers, so the acts are those that the call tells of, in the same order.

Principal results: `Deeds.leads` — what is found in a cell was left there last;
`leaves_allWithin` — a call is a row of acts; `all_remembers` — a call as a whole.
-/

namespace SvgTidy

variable {S : Slots} {σ : Type}

/-- A visitor at work, by its name and what it talks. -/
structure Talker (S : Slots) where
  name : String
  visitor : TalkingVisitor S

namespace Talker

/-- The visitor at work. -/
def active (talker : Talker S) : Active S :=
  ⟨talker.name, talker.visitor.visitor⟩

/-- The visitor with another memory. -/
def remember (talker : Talker S) (memory : talker.visitor.Memory) : Talker S :=
  ⟨talker.name, { talker.visitor with memory }⟩

end Talker

namespace Pass

/-! ## Acts -/

/-- A moment of a call: the document, the shared cells, the visitors at work, and what the observer has
taken in. -/
structure Stage (S : Slots) (σ : Type) where
  doc : Document
  context : Context S
  talkers : List (Talker S)
  seen : σ

/-- **One act of a call, with the accesses it makes.** The plugin at a place is asked for the visitor
of a pass, the hook of a visitor is called, or all visitors go. -/
inductive Acts (observe : Observer S σ) (plugins : List (TalkingPlugin S)) (path : Option String)
    (s : Stage S σ) : List (Access S) → Stage S σ → Prop where
  | asks {talking : TalkingPlugin S} {place : Nat} {visitor? : Option (TalkingVisitor S)}
      {context : Context S} (index : Nat) (hplugin : plugins[place]? = some talking)
      (hrun : (talking.visitor ⟨path, index⟩ s.doc).run s.context = (visitor?, context)) :
      Acts observe plugins path s ((talking.visitor ⟨path, index⟩ s.doc).accesses s.context)
        { doc := s.doc
          context
          talkers := s.talkers ++ (visitor?.map (⟨talking.name, ·⟩)).toList
          seen := observe (.asked index place) s.doc context s.seen }
  | calls {talker : Talker S} {place : Nat} {result : Except HookError Unit} {doc : Document}
      {memory : talker.visitor.Memory} {context : Context S} (phase : Phase) (site : Site)
      (hplace : s.talkers[place]? = some talker)
      (hrun : (talker.visitor.hook phase site s.doc talker.visitor.memory).run s.context =
        ((result, doc, memory), context)) :
      Acts observe plugins path s
        ((talker.visitor.hook phase site s.doc talker.visitor.memory).accesses s.context)
        { doc
          context
          talkers := s.talkers.set place (talker.remember memory)
          seen := observe (.called place phase site) doc context s.seen }
  | goes : Acts observe plugins path s [] { s with talkers := [] }

/-- Acts one after the other, each on what the one before it has left. -/
inductive Deeds (observe : Observer S σ) (plugins : List (TalkingPlugin S)) (path : Option String)
    (start : Stage S σ) : List (Access S) → Stage S σ → Prop where
  | none : Deeds observe plugins path start [] start
  | more {accesses later : List (Access S)} {s after : Stage S σ}
      (h : Deeds observe plugins path start accesses s)
      (hact : Acts observe plugins path s later after) :
      Deeds observe plugins path start (accesses ++ later) after

variable {observe : Observer S σ} {plugins : List (TalkingPlugin S)} {path : Option String}
  {start stage after : Stage S σ} {accesses : List (Access S)}

/-- The accesses of an act lead to the cells that it leaves. -/
theorem Acts.leads (h : Acts observe plugins path stage accesses after) :
    stage.context.Leads accesses after.context := by
  cases h with
  | @asks talking place visitor? context index hplugin hrun =>
    have hleads := (talking.visitor ⟨path, index⟩ stage.doc).leads stage.context
    rwa [hrun] at hleads
  | @calls talker place result doc memory context phase site hplace hrun =>
    have hleads := (talker.visitor.hook phase site stage.doc talker.visitor.memory).leads stage.context
    rwa [hrun] at hleads
  | goes => exact .nil stage.context

/-- **What is found in a cell was left there last**, by whichever act. -/
theorem Deeds.leads (h : Deeds observe plugins path start accesses after) :
    start.context.Leads accesses after.context := by
  induction h with
  | none => exact .nil start.context
  | more _ hact ih => exact ih.append hact.leads

/-! ## Plugins that only count -/

/-- An access leaves a counter as it is or raises it by one. -/
def Counts {V : Type} (count : V → Nat) (access : V × V) : Prop :=
  count access.2 = count access.1 ∨ count access.2 = count access.1 + 1

section Counting

variable {key : S.Key} {count : S.Value key → Nat}

/-- A visitor only counts in a cell. -/
def CountingVisitor (key : S.Key) (count : S.Value key → Nat) (visitor : TalkingVisitor S) : Prop :=
  ∀ phase site doc memory context,
    ∀ access ∈ accessesTo key ((visitor.hook phase site doc memory).accesses context),
      Counts count access

/-- A plugin and its visitors only count in a cell. -/
structure CountingPlugin (key : S.Key) (count : S.Value key → Nat) (talking : TalkingPlugin S) :
    Prop where
  asked : ∀ info doc context,
    ∀ access ∈ accessesTo key ((talking.visitor info doc).accesses context), Counts count access
  called : ∀ info doc context,
    ∀ visitor ∈ ((talking.visitor info doc).run context).1, CountingVisitor key count visitor

/-- What counts does so at every act, and so do the visitors that are at work after it. -/
theorem Acts.counts (hplugins : ∀ talking ∈ plugins, CountingPlugin key count talking)
    (htalkers : ∀ talker ∈ stage.talkers, CountingVisitor key count talker.visitor)
    (h : Acts observe plugins path stage accesses after) :
    (∀ access ∈ accessesTo key accesses, Counts count access) ∧
      ∀ talker ∈ after.talkers, CountingVisitor key count talker.visitor := by
  cases h with
  | @asks talking place visitor? context index hplugin hrun =>
    have hcounting := hplugins talking (List.mem_of_getElem? hplugin)
    refine ⟨hcounting.asked _ _ _, fun talker htalker => ?_⟩
    rcases List.mem_append.mp htalker with hold | hnew
    · exact htalkers talker hold
    · obtain ⟨visitor, hvisitor, rfl⟩ := Option.map_eq_some_iff.mp (Option.mem_toList.mp hnew)
      exact hcounting.called ⟨path, index⟩ stage.doc stage.context visitor (by rw [hrun]; exact hvisitor)
  | @calls talker place result doc memory context phase site hplace hrun =>
    have hcounting := htalkers talker (List.mem_of_getElem? hplace)
    refine ⟨hcounting phase site _ _ _, fun other hother => ?_⟩
    rcases List.mem_or_eq_of_mem_set hother with hold | rfl
    · exact htalkers other hold
    · exact hcounting
  | goes => exact ⟨fun _ haccess => (List.not_mem_nil haccess).elim,
      fun _ htalker => (List.not_mem_nil htalker).elim⟩

/-- **Where the plugins only count in a cell, every access to it leaves the counter as it is or raises
it by one.** -/
theorem Deeds.counts (hplugins : ∀ talking ∈ plugins, CountingPlugin key count talking)
    (hstart : ∀ talker ∈ start.talkers, CountingVisitor key count talker.visitor)
    (h : Deeds observe plugins path start accesses after) :
    ∀ access ∈ accessesTo key accesses, Counts count access := by
  suffices (∀ access ∈ accessesTo key accesses, Counts count access) ∧
      ∀ talker ∈ after.talkers, CountingVisitor key count talker.visitor from this.1
  induction h with
  | none => exact ⟨fun _ haccess => (List.not_mem_nil haccess).elim, hstart⟩
  | more _ hact ih =>
    obtain ⟨hearlier, htalkers⟩ := ih
    obtain ⟨hlater, hafter⟩ := hact.counts hplugins htalkers
    refine ⟨fun access haccess => ?_, hafter⟩
    rw [accessesTo_append] at haccess
    exact (List.mem_append.mp haccess).elim (hearlier access) (hlater access)

end Counting

/-! ## Passes -/

/-- The stage as a pass has it. -/
def Stage.progress (stage : Stage S σ) : Progress S σ :=
  { doc := stage.doc
    context := stage.context
    active := stage.talkers.map Talker.active
    seen := stage.seen }

/-- A state of a pass that acts lead to. -/
def Reached (observe : Observer S σ) (plugins : List (TalkingPlugin S)) (path : Option String)
    (start : Stage S σ) (s : Progress S σ) : Prop :=
  ∃ accesses stage, Deeds observe plugins path start accesses stage ∧ s = stage.progress

namespace Reached

variable {s : Progress S σ}

/-- A call of a hook is an act. -/
theorem call (h : Reached observe plugins path start s) (phase : Phase) (site : Site)
    (place : Nat) :
    Reached observe plugins path start (Pass.call observe phase site place s).state := by
  obtain ⟨accesses, stage, hdeeds, rfl⟩ := h
  have hget : stage.progress.active[place]? = stage.talkers[place]?.map Talker.active :=
    List.getElem?_map ..
  cases hplace : stage.talkers[place]? with
  | none =>
    rw [hplace] at hget
    unfold Pass.call
    rw [hget]
    exact ⟨accesses, stage, hdeeds, rfl⟩
  | some talker =>
    rw [hplace] at hget
    obtain ⟨⟨⟨result, doc, memory⟩, context⟩, hrun⟩ : ∃ came,
      (talker.visitor.hook phase site stage.doc talker.visitor.memory).run stage.context = came :=
        ⟨_, rfl⟩
    refine ⟨_, _, .more hdeeds (.calls phase site hplace hrun), ?_⟩
    have hhook : (talker.visitor.visitor.hook phase site).run.run
        ⟨stage.doc, stage.context, talker.visitor.visitor.memory⟩ =
          (result, ⟨doc, context, memory⟩) := congrArg Dialogue.leave hrun
    unfold Pass.call
    rw [hget]
    simp only [Option.map_some, Talker.active, Stage.progress, List.map_set]
    rw [hhook]
    rfl

/-- A request for a visitor is an act. -/
theorem ask (h : Reached observe plugins path start s) {talking : TalkingPlugin S} {place : Nat}
    (hplugin : plugins[place]? = some talking) (index : Nat) :
    Reached observe plugins path start (Pass.ask observe ⟨path, index⟩ talking.plugin place s) := by
  obtain ⟨accesses, stage, hdeeds, rfl⟩ := h
  obtain ⟨⟨visitor?, context⟩, hrun⟩ : ∃ came,
    (talking.visitor ⟨path, index⟩ stage.doc).run stage.context = came := ⟨_, rfl⟩
  refine ⟨_, _, .more hdeeds (.asks index hplugin hrun), ?_⟩
  unfold Pass.ask TalkingPlugin.plugin Stage.progress
  simp only [hrun]
  cases visitor? <;> simp [Talker.active]

theorem recruit (h : Reached observe plugins path start s) (index : Nat) :
    Reached observe plugins path start
      (Pass.recruit observe ⟨path, index⟩ (plugins.map (·.plugin)) s) := by
  unfold Pass.recruit
  refine List.foldlRecOn _ _ h fun s hs item hitem => ?_
  obtain ⟨plugin, place⟩ := item
  rw [List.mem_zipIdx_iff_getElem?, List.getElem?_map, Option.map_eq_some_iff] at hitem
  obtain ⟨talking, hplugin, rfl⟩ := hitem
  exact hs.ask hplugin index

/-- The visitors of the pass before go. -/
theorem dismiss (h : Reached observe plugins path start s) :
    Reached observe plugins path start { s with active := [] } := by
  obtain ⟨accesses, stage, hdeeds, rfl⟩ := h
  exact ⟨_, _, .more hdeeds .goes, rfl⟩

/-- **A pass is a row of acts.** -/
theorem runWithin (h : Reached observe plugins path start s) (levels index : Nat) :
    Reached observe plugins path start (Pass.runWithin levels observe (plugins.map (·.plugin))
      ⟨path, index⟩ s.doc s.context s.seen).state :=
  walk_induct (fun phase site place _ hs => hs.call phase site place) _ _
    (h.dismiss.recruit index)

end Reached

/-! ## A whole call -/

/-- What is left behind is what acts lead to. -/
def Leaves (observe : Observer S σ) (plugins : List (TalkingPlugin S)) (path : Option String)
    (start : Stage S σ) (settled : Settled S σ) : Prop :=
  ∃ accesses last, Deeds observe plugins path start accesses last ∧
    settled.doc = last.doc ∧ settled.context = last.context ∧ settled.seen = last.seen

theorem Reached.leaves {s : Progress S σ} (h : Reached observe plugins path start s)
    (result : Except PassError Nat) :
    Leaves observe plugins path start ⟨result, s.doc, s.context, s.seen⟩ := by
  obtain ⟨accesses, stage, hdeeds, rfl⟩ := h
  exact ⟨accesses, stage, hdeeds, rfl, rfl, rfl⟩

theorem leaves_settleWithin (levels : Nat) (layout : Layout) :
    ∀ (budget index : Nat) (previous : Option String) {s : Progress S σ},
      Reached observe plugins path start s →
      Leaves observe plugins path start (settleWithin levels observe (plugins.map (·.plugin)) path
        layout budget index previous s.doc s.context s.seen)
  | 0, index, _, _, h => h.leaves (.ok index)
  | budget + 1, index, previous, s, h => by
    have hrun := h.runWithin levels index
    unfold settleWithin
    split
    rename_i result after heq
    rw [heq] at hrun
    simp only
    split
    · exact hrun.leaves _
    · split
      · exact hrun.leaves _
      · exact leaves_settleWithin levels layout budget (index + 1) _ hrun

/-- **A call is a row of acts**, which begins with all cells as they are initially. -/
theorem leaves_allWithin (levels : Nat) (observe : Observer S σ) (plugins : List (TalkingPlugin S))
    (path : Option String) (layout : Layout) (multipass : Bool) (doc : Document) (seen : σ) :
    Leaves observe plugins path { doc, context := .empty, talkers := [], seen }
      (allWithin levels observe (plugins.map (·.plugin)) path layout multipass doc seen) := by
  have hstart : Reached observe plugins path { doc, context := .empty, talkers := [], seen }
      { doc, context := .empty, active := [], seen } := ⟨[], _, .none, rfl⟩
  unfold allWithin
  split
  · exact leaves_settleWithin levels layout _ _ _ hstart
  · exact (hstart.runWithin levels 0).leaves _

/-- **What is found in a shared cell is what was left there last**, during all passes of a call and
whichever plugins, visitors and hooks it was that accessed it. A call is a row of acts, from one
context, in which all cells are as they are initially, to the one that it leaves. Of the accesses to
a key that they make, the first one finds the initial value, every other one what the one before it
has left, and the last one has left what the cell holds in the end. So if accesses leave a counter as
it is or raise it by one, those that raise it leave one, two, three and so on. This is so whoever
watches the call, however deep its passes may go, and however it ends; `all` is such a call, and so
is `Document.tidy`. The plugins of the library are among those that talk. -/
theorem all_remembers (plugins : List (TalkingPlugin S)) (path : Option String) (layout : Layout)
    (multipass : Bool) (doc : Document) :
    (∀ {σ : Type} (levels : Nat) (observe : Observer S σ) (seen : σ),
      let settled :=
        allWithin levels observe (plugins.map (·.plugin)) path layout multipass doc seen
      ∃ accesses last,
        Deeds observe plugins path { doc, context := .empty, talkers := [], seen } accesses last ∧
        (settled.doc = last.doc ∧ settled.context = last.context ∧ settled.seen = last.seen) ∧
        ∀ key, Chained (S.initial key) (accessesTo key accesses) ∧
          settled.context.get key = lastLeft (S.initial key) (accessesTo key accesses) ∧
          ∀ count : S.Value key → Nat, count (S.initial key) = 0 →
            (∀ access ∈ accessesTo key accesses, Counts count access) →
            ∃ increments, ((accessesTo key accesses).filter
              fun access => count access.2 ≠ count access.1).map (fun access => count access.2) =
                List.range' 1 increments) ∧
    ∀ cleanup : Cleanup, ∃ talking : TalkingPlugin S, talking.plugin = cleanup.plugin := by
  refine ⟨fun levels observe seen => ?_, Cleanup.talks⟩
  intro settled
  obtain ⟨accesses, last, hdeeds, hdoc, hcontext, hseen⟩ :=
    leaves_allWithin levels observe plugins path layout multipass doc seen
  refine ⟨accesses, last, hdeeds, ⟨hdoc, hcontext, hseen⟩, fun key => ?_⟩
  have hchained := hdeeds.leads.chained key
  have hlast := hdeeds.leads.last key
  rw [Context.get_empty] at hchained hlast
  refine ⟨hchained, (congrArg (·.get key) hcontext).trans hlast, fun count hcount hsteps => ?_⟩
  have hincrements := counts_of_chained hchained hsteps
  rwa [hcount] at hincrements

/-! ## Two counters -/

/-- Two counters. -/
abbrev counters : Slots where
  Key := Bool
  Value _ := Nat
  initial _ := (0 : Nat)

/-- Raises one of the two counters when it is asked for its visitor, and when it enters a node. When it
leaves one it looks at the other counter, and fails if that is more than six. -/
def raising (key : Bool) : TalkingPlugin counters where
  name := "raising"
  visitor _ _ := .access (S := counters) key (fun n : Nat => some (n + 1)) fun _ => .done (some
    { Memory := Unit
      memory := ()
      hook
        | .enter, _, doc, memory =>
          .access (S := counters) key (fun n : Nat => some (n + 1)) fun _ =>
            .done (.ok (), doc, memory)
        | .leave, _, doc, memory =>
          .access (S := counters) (!key) (fun _ => none) fun found : Nat =>
            .done (if 6 < found then .error (.message "enough") else .ok (), doc, memory) })

/-- All it does is count. -/
theorem raising_counts (own key : Bool) :
    CountingPlugin (S := counters) key (fun n : Nat => n) (raising own) := by
  refine ⟨fun info doc context access haccess => ?_,
    fun info doc context visitor hvisitor => ?_⟩
  · cases own <;> cases key <;> simp_all [raising, Dialogue.accesses, accessesTo, Access.to?, Counts]
  · cases hvisitor
    intro phase site doc memory context access haccess
    cases phase <;> cases own <;> cases key <;>
      simp_all [Dialogue.accesses, accessesTo, Access.to?, Counts]

/-- A group in a drawing. -/
def groupInDrawing : Document :=
  [.createElement { name := "svg" }, .append Document.root ⟨1⟩, .createElement { name := "g" },
    .append ⟨1⟩ ⟨2⟩].foldl Call.apply .empty

/-- The two counters after each event. -/
def watchCounters : Observer counters (List (Nat × Nat)) :=
  fun _ _ context seen =>
    seen ++ [(context.get (S := counters) true, context.get (S := counters) false)]

/-- Two plugins raise a counter each and look at the other one; the second pass is aborted. -/
theorem all_remembers_raising :
    let settled := allWithin headroom watchCounters ([raising true, raising false].map (·.plugin)) none
      {} true groupInDrawing []
    settled.result = .error (.plugin "raising" (.message "enough")) ∧
    settled.seen = [(1, 0), (1, 1), (2, 1), (2, 2), (3, 2), (3, 3), (4, 3), (4, 4), (4, 4), (4, 4),
      (4, 4), (4, 4), (4, 4), (4, 4), (5, 4), (5, 5), (6, 5), (6, 6), (7, 6), (7, 7), (8, 7), (8, 8),
      (8, 8)] ∧
    ∃ accesses last,
      Deeds watchCounters [raising true, raising false] none
        { doc := groupInDrawing, context := .empty, talkers := [], seen := [] } accesses last ∧
      settled.seen = last.seen ∧
      lastLeft (0 : Nat) (accessesTo (S := counters) true accesses) = 8 ∧
      ∃ increments, ((accessesTo (S := counters) true accesses).filter
        fun access : Nat × Nat => access.2 ≠ access.1).map (fun access : Nat × Nat => access.2) =
          List.range' 1 increments := by
  intro settled
  obtain ⟨accesses, last, hdeeds, ⟨-, -, hseen⟩, hkeys⟩ :=
    (all_remembers [raising true, raising false] none {} true groupInDrawing).1 headroom
      watchCounters []
  obtain ⟨-, hcell, hcount⟩ := hkeys true
  have hplugins : ∀ talking ∈ [raising true, raising false],
      CountingPlugin (S := counters) true (fun n : Nat => n) talking := by
    simp [raising_counts]
  have hcounts := hdeeds.counts hplugins (by simp)
  have height : settled.context.get (S := counters) true = (8 : Nat) := by decide +kernel
  exact ⟨by decide +kernel, by decide +kernel, accesses, last, hdeeds, hseen, hcell.symm.trans height,
    hcount (fun n : Nat => n) rfl hcounts⟩

end Pass

end SvgTidy

