import Mathlib.Logic.Basic

/-!
# Loops without a budget

A loop goes from state to state and may go on forever. The definitions of this library bound every
walk by a budget, or by what is left to read; `Ends` says what a walk without such a bound comes to,
so that a budget can be shown to be large enough.

Principal result: `Ends.unique` — a loop has one result.
-/

namespace SvgTidy

/-- What one round of a loop comes to: a state to go on with, or a result. -/
inductive Round (State Result : Type) where
  | again (state : State)
  | done (result : Result)

variable {State Result : Type} {round : State → Round State Result}

/-- From a state, the loop comes to a result after finitely many rounds. -/
inductive Ends (round : State → Round State Result) : State → Result → Prop where
  | done {state : State} {result : Result} (h : round state = .done result) : Ends round state result
  | again {state next : State} {result : Result} (h : round state = .again next)
      (hends : Ends round next result) : Ends round state result

namespace Ends

/-- **A loop has at most one result.** -/
theorem unique {state : State} {result result' : Result} (h : Ends round state result)
    (h' : Ends round state result') : result = result' := by
  induction h with
  | done h =>
    cases h' with
    | done h' =>
      cases h.symm.trans h'
      rfl
    | again h' _ => cases h.symm.trans h'
  | again h _ ih =>
    cases h' with
    | done h' => cases h.symm.trans h'
    | again h' hends =>
      cases h.symm.trans h'
      exact ih hends

end Ends

end SvgTidy
