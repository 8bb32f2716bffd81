import SvgTidy.Pass.Run

/-!
# Calls of hooks, one after the other

`Fires` says what the call of one hook does: the hook works on the document, the context and the
memory of its visitor as they are, and what it leaves of them is there afterwards. `Proceeds` chains
such calls, each of which succeeds and goes on with the state that the one before it has left. Neither
speaks of the order in which a pass calls its hooks, or of what it does when one of them fails.

Principal results: `exists_fires` — a call in a pass does this, and fails as its hook does;
`Proceeds.ok_of_same_events` — where calls proceed, none with the same events before it fails.
-/

namespace SvgTidy.Pass

variable {S : Slots} {σ : Type}

/-- A call: of the hook of the visitor at a place, with the document as it was before. -/
structure Turn where
  place : Nat
  phase : Phase
  site : Site
  before : Document

/-- What an observer is told of a call. -/
def Turn.event (turn : Turn) : Event :=
  .called turn.place turn.phase turn.site

/-- **What the call of a hook does**: the visitor has this name, the hook ends with this result, and
the state is another one afterwards. -/
inductive Fires (observe : Observer S σ) (s : Progress S σ) :
    Turn → String → Except HookError Unit → Progress S σ → Prop where
  | mk {place : Nat} {name : String} {visitor : Visitor S} {result : Except HookError Unit}
      {bench : Workbench S visitor.Memory} (phase : Phase) (site : Site)
      (hplace : s.active[place]? = some ⟨name, visitor⟩)
      (hhook : (visitor.hook phase site).run.run ⟨s.doc, s.context, visitor.memory⟩ =
        (result, bench)) :
      Fires observe s ⟨place, phase, site, s.doc⟩ name result
        { doc := bench.doc
          context := bench.context
          active := s.active.set place ⟨name, { visitor with memory := bench.memory }⟩
          seen := observe (.called place phase site) bench.doc bench.context s.seen }

/-- **Calls that succeed**, one after the other. -/
inductive Proceeds (observe : Observer S σ) : Progress S σ → List Turn → Progress S σ → Prop where
  | nil (s : Progress S σ) : Proceeds observe s [] s
  | cons {s mid after : Progress S σ} {turn : Turn} {name : String} {turns : List Turn}
      (hfires : Fires observe s turn name (.ok ()) mid) (hrest : Proceeds observe mid turns after) :
      Proceeds observe s (turn :: turns) after

variable {observe : Observer S σ} {s mid after after' : Progress S σ} {turn turn' : Turn}
  {turns turns' : List Turn} {name name' : String} {result result' : Except HookError Unit}

/-! ## Single calls -/

/-- A call in a pass is one of these, and fails as its hook does. -/
theorem exists_fires (observe : Observer S σ) (phase : Phase) (site : Site) {place : Nat}
    (hplace : place < s.active.length) : ∃ name result after,
      Fires observe s ⟨place, phase, site, s.doc⟩ name result after ∧
      call observe phase site place s = ⟨result.mapError (.plugin name), after⟩ := by
  obtain ⟨⟨name, visitor⟩, hget⟩ : ∃ active, s.active[place]? = some active :=
    ⟨_, List.getElem?_eq_getElem hplace⟩
  cases hhook : (visitor.hook phase site).run.run ⟨s.doc, s.context, visitor.memory⟩ with
  | mk result bench =>
    refine ⟨name, result, _, .mk phase site hget hhook, ?_⟩
    unfold call
    rw [hget]
    simp only
    rw [hhook]
    cases result <;> rfl

namespace Fires

variable (h : Fires observe s turn name result after)
include h

theorem name_eq : (s.active.map (·.name))[turn.place]? = some name := by
  cases h with
  | mk phase site hplace _ => rw [List.getElem?_map, hplace, Option.map_some]

/-- The visitor's memory may be another one, its name is not. -/
theorem names_eq : after.active.map (·.name) = s.active.map (·.name) := by
  have hname := h.name_eq
  cases h with
  | mk phase site hplace _ =>
    rw [List.map_set]
    refine List.ext_getElem? fun i => ?_
    rw [List.getElem?_set]
    split
    · rename_i hi
      subst hi
      obtain ⟨hlt, -⟩ := List.getElem?_eq_some_iff.mp hname
      rw [if_pos hlt, hname]
    · rfl

/-- What was told before is what the result is told to. -/
theorem seen_eq : after.seen = observe turn.event after.doc after.context s.seen := by
  cases h
  rfl

/-- A call does one thing only. -/
theorem unique (h' : Fires observe s turn' name' result' after')
    (hevent : turn.event = turn'.event) :
    turn = turn' ∧ name = name' ∧ result = result' ∧ after = after' := by
  cases h with
  | mk phase site hplace hhook =>
    cases h' with
    | mk phase' site' hplace' hhook' =>
      cases hevent
      rw [hplace, Option.some.injEq, Active.mk.injEq] at hplace'
      obtain ⟨rfl, rfl⟩ := hplace'
      rw [hhook, Prod.mk.injEq] at hhook'
      obtain ⟨rfl, rfl⟩ := hhook'
      exact ⟨rfl, rfl, rfl, rfl⟩

end Fires

/-! ## Calls that succeed -/

namespace Proceeds

theorem single (h : Fires observe s turn name (.ok ()) after) : Proceeds observe s [turn] after :=
  .cons h (.nil after)

theorem append (h : Proceeds observe s turns mid) (hrest : Proceeds observe mid turns' after) :
    Proceeds observe s (turns ++ turns') after := by
  induction h with
  | nil => exact hrest
  | cons hfires _ ih => exact .cons hfires (ih hrest)

/-- Some first calls, and those after them. -/
theorem split {first rest : List Turn} (h : Proceeds observe s (first ++ rest) after) :
    ∃ mid, Proceeds observe s first mid ∧ Proceeds observe mid rest after := by
  induction first generalizing s with
  | nil => exact ⟨s, .nil s, h⟩
  | cons turn first ih =>
    cases h with
    | cons hfires hrest =>
      obtain ⟨mid, hfirst, hrest⟩ := ih hrest
      exact ⟨mid, .cons hfires hfirst, hrest⟩

theorem names_eq (h : Proceeds observe s turns after) :
    after.active.map (·.name) = s.active.map (·.name) := by
  induction h with
  | nil => rfl
  | cons hfires _ ih => exact ih.trans hfires.names_eq

/-- Calls with the same events are the same calls. -/
theorem unique (h : Proceeds observe s turns after) (h' : Proceeds observe s turns' after')
    (hevents : turns.map Turn.event = turns'.map Turn.event) : turns = turns' ∧ after = after' := by
  induction h generalizing turns' with
  | nil s =>
    cases h' with
    | nil => exact ⟨rfl, rfl⟩
    | cons => cases hevents
  | cons hfirst _ ih =>
    cases h' with
    | nil => cases hevents
    | cons hfirst' hrest' =>
      rw [List.map_cons, List.map_cons, List.cons.injEq] at hevents
      obtain ⟨rfl, -, -, rfl⟩ := hfirst.unique hfirst' hevents.1
      obtain ⟨rfl, rfl⟩ := ih hrest' hevents.2
      exact ⟨rfl, rfl⟩

/-- **Where calls proceed, none with the same events before it fails.** -/
theorem ok_of_same_events (h : Proceeds observe s turns mid)
    (hfires : Fires observe mid turn name result after) {rest : List Event}
    (h' : Proceeds observe s turns' after')
    (hevents : turns'.map Turn.event = turns.map Turn.event ++ turn.event :: rest) :
    result = .ok () := by
  obtain ⟨first, others, rfl, hfirst, hothers⟩ := List.map_eq_append_iff.mp hevents
  obtain ⟨mid', hfirst', hothers'⟩ := h'.split
  obtain ⟨rfl, rfl⟩ := hfirst'.unique h hfirst
  cases hothers' with
  | nil => cases hothers
  | cons hnext _ =>
    rw [List.map_cons, List.cons.injEq] at hothers
    exact (hfires.unique hnext hothers.1.symm).2.2.1

end Proceeds

end SvgTidy.Pass
