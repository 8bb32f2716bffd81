import SvgTidy.Pass.Hook

/-!
# Outcomes of steps

Editing steps and hooks are computations that may fail and leave a state behind in either case.
`outcome` runs one on a state; its equations follow the way such computations are put together, so
that a statement about a step is proved without opening the transformers it is built from.
-/

namespace SvgTidy

/-- The result of a step on a state, and the state it leaves. -/
def outcome {ε σ α : Type} (step : ExceptT ε (StateM σ) α) (s : σ) : Except ε α × σ :=
  step.run.run s

section Equations

variable {ε σ α β : Type} {s : σ}

theorem outcome_bind (step : ExceptT ε (StateM σ) α) (next : α → ExceptT ε (StateM σ) β) :
    outcome (step >>= next) s =
      match outcome step s with
      | (.ok value, after) => outcome (next value) after
      | (.error error, after) => (.error error, after) := by
  cases h : outcome step s with
  | mk result after =>
    replace h : step s = (result, after) := h
    change ExceptT.bindCont next (step s).1 (step s).2 = _
    rw [h]
    cases result <;> rfl

@[simp] theorem outcome_pure (value : α) :
    outcome (pure value : ExceptT ε (StateM σ) α) s = (.ok value, s) := rfl

@[simp] theorem outcome_get : outcome (get : ExceptT ε (StateM σ) σ) s = (.ok s, s) := rfl

@[simp] theorem outcome_set (after : σ) :
    outcome (set after : ExceptT ε (StateM σ) PUnit) s = (.ok ⟨⟩, after) := rfl

@[simp] theorem outcome_modify (change : σ → σ) :
    outcome (modify change : ExceptT ε (StateM σ) PUnit) s = (.ok ⟨⟩, change s) := rfl

@[simp] theorem outcome_throw (error : ε) :
    outcome (throw error : ExceptT ε (StateM σ) α) s = (.error error, s) := rfl

@[simp] theorem outcome_forM_nil (step : α → ExceptT ε (StateM σ) PUnit) :
    outcome (([] : List α).forM step) s = (.ok ⟨⟩, s) := rfl

theorem outcome_forM_cons (step : α → ExceptT ε (StateM σ) PUnit) (a : α) (rest : List α) :
    outcome ((a :: rest).forM step) s =
      match outcome (step a) s with
      | (.ok _, after) => outcome (rest.forM step) after
      | (.error error, after) => (.error error, after) := by
  rw [show (a :: rest).forM step = (step a >>= fun _ => rest.forM step) from rfl, outcome_bind]
  obtain ⟨_ | _, _⟩ := outcome (step a) s <;> rfl

end Equations

/-! ## What a hook is made of -/

namespace Hook

variable {S : Slots} {Memory : Type} {bench : Workbench S Memory}

@[simp] theorem outcome_document : outcome document bench = (.ok bench.doc, bench) := rfl

@[simp] theorem outcome_memory : outcome memory bench = (.ok bench.memory, bench) := rfl

@[simp] theorem outcome_remember (memory : Memory) :
    outcome (remember memory) bench = (.ok ⟨⟩, { bench with memory }) := rfl

@[simp] theorem outcome_change (f : Document → Document) :
    outcome (change f) bench = (.ok ⟨⟩, { bench with doc := f bench.doc }) := rfl

theorem outcome_edit {α : Type} (step : Editing α) :
    outcome (edit step) bench =
      match outcome step bench.doc with
      | (.ok value, doc) => (.ok value, { bench with doc })
      | (.error error, doc) => (.error (.tree error), { bench with doc }) := rfl

end Hook

end SvgTidy
