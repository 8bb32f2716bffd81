import SvgTidy.Proofs.Dialogues
import SvgTidy.Proofs.Histories

/-!
# Hooks that reach shared cells by dialogues

A hook talks if all it does with the shared cells is a dialogue (`Hook.Talks`): so do the parts of
which hooks are made, reads and writes of cells among them, and what is made of hooks that talk. A
`TalkingVisitor` gives the dialogues of all hooks of a visitor, and a `TalkingPlugin` that of a request
for a visitor, too.

Principal results: `Hook.Talks.composes`, `Hook.Talks.read`, `Hook.Talks.write` — which hooks talk;
`Cleanup.talks` — the plugins of the library do.
-/

namespace SvgTidy

universe u

/-- A visitor whose hooks reach the shared cells by dialogues only. A dialogue comes to the result of
the hook, and to the document and the memory that it leaves. -/
structure TalkingVisitor (S : Slots) where
  Memory : Type
  memory : Memory
  hook : Phase → Site → Document → Memory →
    Dialogue S (Except HookError Unit × Document × Memory)

/-- A source of such visitors. -/
structure TalkingPlugin (S : Slots) where
  name : String
  visitor : PassInfo → Document → Dialogue S (Option (TalkingVisitor S))

variable {S : Slots}

/-- What a hook leaves, given what its dialogue comes to. -/
def Dialogue.leave {Memory α : Type}
    (came : (Except HookError α × Document × Memory) × Context S) :
    Except HookError α × Workbench S Memory :=
  (came.1.1, { doc := came.1.2.1, context := came.2, memory := came.1.2.2 })

namespace TalkingVisitor

/-- The visitor, its dialogues led with the shared context. -/
def visitor (talking : TalkingVisitor S) : Visitor S where
  Memory := talking.Memory
  memory := talking.memory
  hook phase site := ExceptT.mk fun bench =>
    Dialogue.leave ((talking.hook phase site bench.doc bench.memory).run bench.context)

end TalkingVisitor

namespace TalkingPlugin

/-- The plugin, its dialogues led with the shared context. -/
def plugin (talking : TalkingPlugin S) : Plugin S where
  name := talking.name
  visitor info doc context :=
    let (visitor?, context) := (talking.visitor info doc).run context
    (visitor?.map TalkingVisitor.visitor, context)

end TalkingPlugin

/-! ## Hooks that talk -/

/-- A hook does what some dialogue comes to. -/
def Hook.Talks {Memory α : Type} (hook : Hook S Memory α) : Prop :=
  ∃ talk : Document → Memory → Dialogue S (Except HookError α × Document × Memory),
    ∀ bench, outcome hook bench = Dialogue.leave ((talk bench.doc bench.memory).run bench.context)

namespace Dialogue

variable {α β : Type u}

/-- One dialogue after the other. -/
def bind (dialogue : Dialogue S α) (next : α → Dialogue S β) : Dialogue S β :=
  match dialogue with
  | done value => next value
  | access key leave after => access key leave fun found => (after found).bind next

theorem run_bind (dialogue : Dialogue S α) (next : α → Dialogue S β) (context : Context S) :
    (dialogue.bind next).run context =
      (next (dialogue.run context).1).run (dialogue.run context).2 := by
  induction dialogue generalizing context with
  | done value => rfl
  | access key leave after ih => exact ih _ _

end Dialogue

namespace Hook.Talks

variable {Memory α β : Type}

/-- A hook that has nothing to do with the shared cells. -/
theorem quiet {hook : Hook S Memory α}
    (f : Document → Memory → Except HookError α × Document × Memory)
    (h : ∀ bench, outcome hook bench = Dialogue.leave (f bench.doc bench.memory, bench.context)) :
    hook.Talks :=
  ⟨fun doc memory => .done (f doc memory), h⟩

theorem pure (value : α) : Hook.Talks (Pure.pure value : Hook S Memory α) :=
  quiet (fun doc memory => (.ok value, doc, memory)) fun _ => rfl

theorem bind {hook : Hook S Memory α} {next : α → Hook S Memory β} (hhook : hook.Talks)
    (hnext : ∀ value, (next value).Talks) : Hook.Talks (hook >>= next) := by
  obtain ⟨first, hfirst⟩ := hhook
  choose second hsecond using hnext
  refine ⟨fun doc memory => (first doc memory).bind fun came => match came with
    | (.ok value, doc, memory) => second value doc memory
    | (.error error, doc, memory) => .done (.error error, doc, memory), fun bench => ?_⟩
  rw [outcome_bind, hfirst, Dialogue.run_bind]
  obtain ⟨⟨_ | value, doc, memory⟩, context⟩ := (first bench.doc bench.memory).run bench.context
  · rfl
  · exact hsecond value _

theorem document : Hook.Talks (Hook.document : Hook S Memory Document) :=
  quiet (fun doc memory => (.ok doc, doc, memory)) fun _ => rfl

theorem memory : Hook.Talks (Hook.memory : Hook S Memory Memory) :=
  quiet (fun doc memory => (.ok memory, doc, memory)) fun _ => rfl

theorem remember (memory : Memory) : Hook.Talks (Hook.remember memory : Hook S Memory Unit) :=
  quiet (fun doc _ => (.ok (), doc, memory)) fun _ => rfl

theorem change (f : Document → Document) : Hook.Talks (Hook.change f : Hook S Memory Unit) :=
  quiet (fun doc memory => (.ok (), f doc, memory)) fun _ => rfl

theorem edit (step : Editing α) : Hook.Talks (Hook.edit step : Hook S Memory α) := by
  refine quiet (fun doc memory =>
    ((outcome step doc).1.mapError .tree, (outcome step doc).2, memory)) fun bench => ?_
  rw [outcome_edit]
  obtain ⟨_ | _, _⟩ := outcome step bench.doc <;> rfl

theorem read (key : S.Key) : Hook.Talks (Hook.read key : Hook S Memory (S.Value key)) :=
  ⟨fun doc memory => .access key (fun _ => none) fun found => .done (.ok found, doc, memory),
    fun _ => rfl⟩

theorem write (key : S.Key) (value : S.Value key) :
    Hook.Talks (Hook.write key value : Hook S Memory Unit) :=
  ⟨fun doc memory => .access key (fun _ => some value) fun _ => .done (.ok (), doc, memory),
    fun _ => rfl⟩

theorem composes : Hook.Composes (S := S) Hook.Talks :=
  ⟨pure, bind, document, memory, remember, fun id f => change (·.updateElement id f),
    fun _ _ => edit _⟩

end Hook.Talks

/-- A visitor talks if all its hooks do. -/
theorem Visitor.talks {visitor : Visitor S} (h : ∀ phase site, (visitor.hook phase site).Talks) :
    ∃ talking : TalkingVisitor S, talking.visitor = visitor := by
  choose talk htalk using h
  refine ⟨⟨visitor.Memory, visitor.memory, talk⟩, ?_⟩
  have hhook : (fun phase site => ExceptT.mk fun bench =>
      Dialogue.leave ((talk phase site bench.doc bench.memory).run bench.context)) = visitor.hook := by
    funext phase site bench
    exact (htalk phase site bench).symm
  exact congrArg (Visitor.mk visitor.Memory visitor.memory) hhook

/-- **The plugins of the library talk**, and have nothing to say. -/
theorem Cleanup.talks (cleanup : Cleanup) :
    ∃ talking : TalkingPlugin S, talking.plugin = cleanup.plugin := by
  cases h : (cleanup.visitor? : Option (Visitor S)) with
  | none =>
    refine ⟨⟨cleanup.name, fun _ _ => .done none⟩, ?_⟩
    unfold Cleanup.plugin
    rw [h]
    rfl
  | some visitor =>
    obtain ⟨talking, rfl⟩ := visitor.talks (composes Hook.Talks.composes h)
    refine ⟨⟨cleanup.name, fun _ _ => .done (some talking)⟩, ?_⟩
    unfold Cleanup.plugin
    rw [h]
    rfl

end SvgTidy
