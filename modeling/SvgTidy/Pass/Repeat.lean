import SvgTidy.Markup.Layout
import SvgTidy.Pass.Run

/-!
# Passes until the output settles

One pass, or passes until two in a row give the same text, `maxPasses` at most. The passes of a call
share one context, which begins empty.
-/

namespace SvgTidy

/-- The greatest number of passes. -/
def maxPasses : Nat := 10

/-- What a sequence of passes leaves behind. -/
structure Settled (S : Slots) (σ : Type) where
  /-- The number of passes that ran, or the failure that ended them. -/
  result : Except PassError Nat
  doc : Document
  context : Context S
  seen : σ

namespace Pass

variable {S : Slots} {σ : Type}

section Levels

variable (levels : Nat) (observe : Observer S σ) (plugins : List (Plugin S)) (path : Option String)
  (layout : Layout)

/-- Run passes from the one with this index on, at most `budget` of them, until the text of the
document is the one that the pass before gave. In each pass hooks may add so many levels to the
document. -/
def settleWithin : (budget index : Nat) → (previous : Option String) → Document → Context S → σ →
    Settled S σ
  | 0, index, _, doc, context, seen => ⟨.ok index, doc, context, seen⟩
  | budget + 1, index, previous, doc, context, seen =>
    let ⟨result, after⟩ := runWithin levels observe plugins ⟨path, index⟩ doc context seen
    match result with
    | .error error => ⟨.error error, after.doc, after.context, after.seen⟩
    | .ok () =>
      let written := after.doc.write layout
      if previous = some written then
        ⟨.ok (index + 1), after.doc, after.context, after.seen⟩
      else
        settleWithin budget (index + 1) (some written) after.doc after.context after.seen

/-- Run one pass only. -/
def onceWithin (doc : Document) (seen : σ) : Settled S σ :=
  let ⟨result, after⟩ := runWithin levels observe plugins ⟨path, 0⟩ doc .empty seen
  ⟨result.map fun () => 1, after.doc, after.context, after.seen⟩

/-- Run the passes of one call. -/
def allWithin (multipass : Bool) (doc : Document) (seen : σ) : Settled S σ :=
  if multipass then
    settleWithin levels observe plugins path layout maxPasses 0 none doc .empty seen
  else onceWithin levels observe plugins path doc seen

end Levels

/-- Run the passes of one call. -/
def all (observe : Observer S σ) (plugins : List (Plugin S)) (path : Option String)
    (layout : Layout) (multipass : Bool) (doc : Document) (seen : σ) : Settled S σ :=
  allWithin headroom observe plugins path layout multipass doc seen

end Pass

end SvgTidy
