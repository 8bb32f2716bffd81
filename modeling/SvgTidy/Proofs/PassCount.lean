import SvgTidy.Proofs.Histories
import SvgTidy.Proofs.HookOrder
import SvgTidy.Proofs.Observers

/-!
# How many passes run

The passes of a call share one context, and each goes on with the document that the one before it has
left. `stateAfter` is the state after so many passes, without a thought of when to stop, and
`stopping` the number of passes after which the text is the one of the pass before, `maxPasses` at
most. The passes that run are those up to this number, or up to the first that fails.

Principal results: `settleWithin_spec` — the passes from one on; `all_stopsAt` — the passes of a call,
and that each of them asks every plugin once for its visitor.
-/

namespace SvgTidy

namespace Pass

variable {S : Slots} {σ : Type} (levels : Nat) (observe : Observer S σ) (plugins : List (Plugin S))
  (path : Option String) (layout : Layout) (doc : Document) (seen : σ)

/-! ## Passes one after the other -/

/-- The state after so many passes, the first one beginning with this document and an empty context.
-/
def stateAfter : Nat → Progress S σ
  | 0 => { doc, context := .empty, active := [], seen }
  | passes + 1 =>
    let s := stateAfter passes
    (runWithin levels observe plugins ⟨path, passes⟩ s.doc s.context s.seen).state

/-- The result of the pass with this index. -/
def resultOf (index : Nat) : Except PassError Unit :=
  let s := stateAfter levels observe plugins path doc seen index
  (runWithin levels observe plugins ⟨path, index⟩ s.doc s.context s.seen).result

/-- The text of the document after so many passes. -/
def textAfter (passes : Nat) : String :=
  (stateAfter levels observe plugins path doc seen passes).doc.write layout

/-- After this number of passes, the text is the one that the pass before gave. -/
def Repeats (passes : Nat) : Prop :=
  textAfter levels observe plugins path layout doc seen passes =
    textAfter levels observe plugins path layout doc seen (passes - 1)

instance (passes : Nat) : Decidable (Repeats levels observe plugins path layout doc seen passes) :=
  inferInstanceAs (Decidable (_ = _))

/-- Of the next `budget` numbers of passes, the least with a repeated text, or the last one if there
is none. -/
def nextRepeat (budget passes : Nat) : Nat :=
  ((List.range' (passes + 1) budget).find?
    (Repeats levels observe plugins path layout doc seen ·)).getD (passes + budget)

/-- The number of passes of a call: one, or the least from two on with a repeated text, and
`maxPasses` if there is none. -/
def stopping (multipass : Bool) : Nat :=
  if multipass then nextRepeat levels observe plugins path layout doc seen (maxPasses - 1) 1 else 1

/-- The number of passes of a call, as what is repeated decides it: one, or the least number from two
on with a repeated text, and `maxPasses` if there is none below it. -/
structure IsStop (multipass : Bool) (passes : Nat) : Prop where
  single : multipass = false → passes = 1
  bounds : multipass = true → 2 ≤ passes ∧ passes ≤ maxPasses
  new : ∀ earlier, 2 ≤ earlier → earlier < passes →
    ¬ Repeats levels observe plugins path layout doc seen earlier
  repeats : multipass = true → passes < maxPasses →
    Repeats levels observe plugins path layout doc seen passes

/-- What is left behind after so many passes with this result. -/
def settledAfter (result : Except PassError Nat) (passes : Nat) : Settled S σ :=
  let s := stateAfter levels observe plugins path doc seen passes
  ⟨result, s.doc, s.context, s.seen⟩

/-- Passes run up to a number, or up to the first that fails, and no pass runs after it. -/
structure Halts (first passes : Nat) (settled : Settled S σ) : Prop where
  ok : (∀ index, first ≤ index → index < passes →
      resultOf levels observe plugins path doc seen index = .ok ()) →
    settled = settledAfter levels observe plugins path doc seen (.ok passes) passes
  failed : ∀ index error, first ≤ index → index < passes →
    (∀ earlier, first ≤ earlier → earlier < index →
      resultOf levels observe plugins path doc seen earlier = .ok ()) →
    resultOf levels observe plugins path doc seen index = .error error →
    settled = settledAfter levels observe plugins path doc seen (.error error) (index + 1)

variable {levels observe plugins path layout doc seen}

/-- The text before is compared with the one just written. -/
theorem repeats_succ_iff {passes : Nat} :
    Repeats levels observe plugins path layout doc seen (passes + 1) ↔
      some (textAfter levels observe plugins path layout doc seen passes) =
        some ((stateAfter levels observe plugins path doc seen (passes + 1)).doc.write layout) := by
  rw [Option.some.injEq]
  exact eq_comm

theorem nextRepeat_succ (budget passes : Nat) :
    nextRepeat levels observe plugins path layout doc seen (budget + 1) passes =
      if Repeats levels observe plugins path layout doc seen (passes + 1) then passes + 1
      else nextRepeat levels observe plugins path layout doc seen budget (passes + 1) := by
  unfold nextRepeat
  rw [List.range'_succ, List.find?_cons]
  split
  · rename_i hrepeats
    rw [if_pos (of_decide_eq_true hrepeats)]
    rfl
  · rename_i hnew
    rw [if_neg (of_decide_eq_false hnew), show passes + (budget + 1) = passes + 1 + budget by omega]

theorem le_nextRepeat (budget passes : Nat) :
    passes ≤ nextRepeat levels observe plugins path layout doc seen budget passes := by
  induction budget generalizing passes with
  | zero => exact Nat.le_refl _
  | succ budget ih =>
    rw [nextRepeat_succ]
    split
    · exact Nat.le_succ _
    · exact Nat.le_of_succ_le (ih (passes + 1))

theorem lt_nextRepeat (budget passes : Nat) :
    passes < nextRepeat levels observe plugins path layout doc seen (budget + 1) passes := by
  rw [nextRepeat_succ]
  split
  · exact Nat.lt_succ_self _
  · exact le_nextRepeat budget (passes + 1)

theorem nextRepeat_le (budget passes : Nat) :
    nextRepeat levels observe plugins path layout doc seen budget passes ≤ passes + budget := by
  induction budget generalizing passes with
  | zero => exact Nat.le_refl _
  | succ budget ih =>
    rw [nextRepeat_succ]
    split
    · omega
    · exact Nat.le_trans (ih (passes + 1)) (by omega)

/-- No text before the next repeated one is repeated. -/
theorem not_repeats_of_lt {budget passes earlier : Nat} (hlt : passes < earlier)
    (hearlier : earlier < nextRepeat levels observe plugins path layout doc seen budget passes) :
    ¬ Repeats levels observe plugins path layout doc seen earlier := by
  induction budget generalizing passes with
  | zero => exact absurd hearlier (Nat.not_lt_of_lt hlt)
  | succ budget ih =>
    rw [nextRepeat_succ] at hearlier
    split at hearlier
    · exact absurd hearlier (Nat.not_lt_of_le hlt)
    · rename_i hnew
      rcases Nat.eq_or_lt_of_le hlt with rfl | hlater
      · exact hnew
      · exact ih hlater hearlier

/-- The next repeated text is repeated, unless the budget is used up. -/
theorem repeats_nextRepeat {budget passes : Nat}
    (h : nextRepeat levels observe plugins path layout doc seen budget passes < passes + budget) :
    Repeats levels observe plugins path layout doc seen
      (nextRepeat levels observe plugins path layout doc seen budget passes) := by
  induction budget generalizing passes with
  | zero => exact absurd h (Nat.lt_irrefl _)
  | succ budget ih =>
    rw [nextRepeat_succ] at h ⊢
    split
    · assumption
    · rename_i hnew
      rw [if_neg hnew] at h
      exact ih (by omega)

namespace Halts

variable {first passes : Nat} {settled : Settled S σ}

/-- A pass fails. -/
theorem of_error {error : PassError} (hlt : first < passes)
    (hresult : resultOf levels observe plugins path doc seen first = .error error)
    (hsettled : settled =
      settledAfter levels observe plugins path doc seen (.error error) (first + 1)) :
    Halts levels observe plugins path doc seen first passes settled := by
  refine ⟨fun hok => ?_, fun index error' hle _ hearlier hindex => ?_⟩
  · have hfirst := hok first (Nat.le_refl _) hlt
    rw [hresult] at hfirst
    cases hfirst
  · rcases Nat.eq_or_lt_of_le hle with rfl | hlater
    · rw [hresult, Except.error.injEq] at hindex
      rw [hsettled, hindex]
    · have hfirst := hearlier first (Nat.le_refl _) hlater
      rw [hresult] at hfirst
      cases hfirst

/-- No pass is left to run. -/
theorem refl : Halts levels observe plugins path doc seen passes passes
    (settledAfter levels observe plugins path doc seen (.ok passes) passes) :=
  ⟨fun _ => rfl, fun _ _ hle hlt => absurd hlt (Nat.not_lt_of_le hle)⟩

/-- A pass succeeds, and others run after it. -/
theorem of_ok (hresult : resultOf levels observe plugins path doc seen first = .ok ())
    (h : Halts levels observe plugins path doc seen (first + 1) passes settled) :
    Halts levels observe plugins path doc seen first passes settled := by
  refine ⟨fun hok => h.ok fun index hle => hok index (Nat.le_of_succ_le hle),
    fun index error hle hlt hearlier hindex => ?_⟩
  rcases Nat.eq_or_lt_of_le hle with rfl | hlater
  · rw [hresult] at hindex
    cases hindex
  · exact h.failed index error hlater hlt
      (fun earlier hle => hearlier earlier (Nat.le_of_succ_le hle)) hindex

end Halts

/-- One pass more. -/
theorem runWithin_eq (index : Nat) :
    runWithin levels observe plugins ⟨path, index⟩
        (stateAfter levels observe plugins path doc seen index).doc
        (stateAfter levels observe plugins path doc seen index).context
        (stateAfter levels observe plugins path doc seen index).seen =
      ⟨resultOf levels observe plugins path doc seen index,
        stateAfter levels observe plugins path doc seen (index + 1)⟩ := rfl

/-- **The passes after the first stop at the first repeated text.** -/
theorem settleWithin_spec (budget passes : Nat) :
    Halts levels observe plugins path doc seen passes
      (nextRepeat levels observe plugins path layout doc seen budget passes)
      (settleWithin levels observe plugins path layout budget passes
        (some (textAfter levels observe plugins path layout doc seen passes))
        (stateAfter levels observe plugins path doc seen passes).doc
        (stateAfter levels observe plugins path doc seen passes).context
        (stateAfter levels observe plugins path doc seen passes).seen) := by
  induction budget generalizing passes with
  | zero => exact .refl
  | succ budget ih =>
    unfold settleWithin
    rw [runWithin_eq]
    cases hresult : resultOf levels observe plugins path doc seen passes with
    | error error => exact .of_error (lt_nextRepeat budget passes) hresult rfl
    | ok _ =>
      refine .of_ok hresult ?_
      rw [nextRepeat_succ]
      simp only
      by_cases hrepeats : Repeats levels observe plugins path layout doc seen (passes + 1)
      · rw [if_pos hrepeats, if_pos (repeats_succ_iff.mp hrepeats)]
        exact .refl
      · rw [if_neg hrepeats, if_neg fun heq => hrepeats (repeats_succ_iff.mpr heq)]
        exact ih (passes + 1)

theorem stops_all (multipass : Bool) :
    Halts levels observe plugins path doc seen 0
      (stopping levels observe plugins path layout doc seen multipass)
      (allWithin levels observe plugins path layout multipass doc seen) := by
  cases multipass with
  | false =>
    show Halts levels observe plugins path doc seen 0 1
      (onceWithin levels observe plugins path doc seen)
    have honce : onceWithin levels observe plugins path doc seen =
        settledAfter levels observe plugins path doc seen
          ((resultOf levels observe plugins path doc seen 0).map fun _ => 1) 1 := rfl
    cases hresult : resultOf levels observe plugins path doc seen 0 with
    | error error =>
      refine .of_error Nat.zero_lt_one hresult (honce.trans ?_)
      rw [hresult]
      rfl
    | ok _ =>
      refine .of_ok hresult ?_
      rw [honce, hresult]
      exact .refl
  | true =>
    show Halts levels observe plugins path doc seen 0
      (nextRepeat levels observe plugins path layout doc seen 9 1)
      (settleWithin levels observe plugins path layout (9 + 1) 0 none doc .empty seen)
    unfold settleWithin
    rw [show runWithin levels observe plugins ⟨path, 0⟩ doc .empty seen =
      ⟨resultOf levels observe plugins path doc seen 0,
        stateAfter levels observe plugins path doc seen 1⟩ from rfl]
    cases hresult : resultOf levels observe plugins path doc seen 0 with
    | error error => exact .of_error (le_nextRepeat 9 1) hresult rfl
    | ok _ => exact .of_ok hresult (settleWithin_spec 9 1)

theorem isStop_stopping (multipass : Bool) :
    IsStop levels observe plugins path layout doc seen multipass
      (stopping levels observe plugins path layout doc seen multipass) := by
  cases multipass with
  | false =>
    refine ⟨fun _ => rfl, nofun, fun earlier htwo hlt => ?_, nofun⟩
    exact absurd (Nat.lt_of_lt_of_le hlt (Nat.le_of_succ_le htwo)) (Nat.lt_irrefl _)
  | true =>
    show IsStop levels observe plugins path layout doc seen true
      (nextRepeat levels observe plugins path layout doc seen 9 1)
    exact ⟨nofun, fun _ => ⟨lt_nextRepeat 8 1, nextRepeat_le 9 1⟩,
      fun earlier htwo hlt => not_repeats_of_lt htwo hlt, fun _ hlt => repeats_nextRepeat hlt⟩

/-! ## Requests for visitors -/

end Pass

/-- Whether an event is the request for a visitor. -/
def Event.isAsked : Event → Bool
  | .asked _ _ => true
  | .called _ _ _ => false

namespace Pass

variable {S : Slots} {plugins : List (Plugin S)}

theorem filter_requests (info : PassInfo) (plugins : List (Plugin S)) :
    (requests info plugins).filter Event.isAsked = requests info plugins := by
  refine List.filter_eq_self.mpr fun event hevent => ?_
  obtain ⟨item, -, rfl⟩ := List.mem_map.mp hevent
  rfl

/-- A pass asks every plugin once, in their order, and no plugin later. -/
theorem filter_seen_runWithin (levels : Nat) (info : PassInfo) (doc : Document) (context : Context S)
    (before : List Event) :
    (runWithin levels log plugins info doc context before).state.seen.filter Event.isAsked =
      before.filter Event.isAsked ++ requests info plugins := by
  obtain ⟨-, -, hseen⟩ := recruit_recording (fun event _ => event) info plugins
    { doc, context, active := [], seen := before }
  have hrecruit : (recruit log info plugins
      { doc, context, active := [], seen := before }).seen.filter Event.isAsked =
      before.filter Event.isAsked ++ requests info plugins := by
    refine (congrArg (List.filter Event.isAsked) hseen).trans ?_
    rw [List.map_id', List.filter_append, filter_requests]
  let I (s : Progress S (List Event)) : Prop :=
    s.seen.filter Event.isAsked = before.filter Event.isAsked ++ requests info plugins
  refine walk_induct (show ∀ phase site place s, I s → I (call log phase site place s).state from
    fun phase site place s hs => ?_) _ _ hrecruit
  unfold call
  split
  · exact hs
  · exact (List.filter_append _ _).trans ((List.append_nil _).trans hs)

theorem filter_seen_stateAfter (levels : Nat) (path : Option String) (doc : Document) (passes : Nat) :
    (stateAfter levels log plugins path doc [] passes).seen.filter Event.isAsked =
      (List.range passes).flatMap fun index => requests ⟨path, index⟩ plugins := by
  induction passes with
  | zero => rfl
  | succ passes ih =>
    rw [List.range_succ, List.flatMap_append, List.flatMap_singleton, ← ih]
    exact filter_seen_runWithin levels ⟨path, passes⟩ _ _ _

/-! ## Hooks that fail -/

section Failures

variable {σ : Type} (levels : Nat) (observe : Observer S σ) (plugins : List (Plugin S))
  (path : Option String) (doc : Document) (seen : σ)

/-- In the pass with this index, the hook of a plugin with this name fails: its call is one of those
that the pass makes. -/
def HookFails (index : Nat) (name : String) (cause : HookError) : Prop :=
  let s := stateAfter levels observe plugins path doc seen index
  let start := recruit log ⟨path, index⟩ plugins
    { doc := s.doc, context := s.context, active := [], seen := [] }
  let told := (runWithin levels log plugins ⟨path, index⟩ s.doc s.context []).state.seen
  ∃ after, FailsAt start told name cause after

/-- In the pass with this index no hook fails, and it goes as deep as it has to. -/
structure Unharmed (index : Nat) : Prop where
  succeed : ∀ name cause, ¬HookFails levels observe plugins path doc seen index name cause
  whole : resultOf levels observe plugins path doc seen index ≠ .error .tooDeep

/-- Passes run up to a number, or up to the first one with a hook that fails, and no pass runs after
it. -/
structure StopsAt (passes : Nat) (settled : Settled S σ) : Prop where
  ok : (∀ index < passes, Unharmed levels observe plugins path doc seen index) →
    settled = settledAfter levels observe plugins path doc seen (.ok passes) passes
  failed : ∀ index name cause, index < passes →
    (∀ earlier < index, Unharmed levels observe plugins path doc seen earlier) →
    HookFails levels observe plugins path doc seen index name cause →
    settled =
      settledAfter levels observe plugins path doc seen (.error (.plugin name cause)) (index + 1)

variable {levels observe plugins path doc seen} {index : Nat}

/-- Whoever watches it, a pass has the result that it has if its log is kept. -/
theorem resultOf_eq_log : resultOf levels observe plugins path doc seen index =
    let s := stateAfter levels observe plugins path doc seen index
    (runWithin levels log plugins ⟨path, index⟩ s.doc s.context []).result :=
  (runWithin_alike observe log levels plugins _ _ _ _ _).result

theorem resultOf_of_hookFails {name : String} {cause : HookError}
    (h : HookFails levels observe plugins path doc seen index name cause) :
    resultOf levels observe plugins path doc seen index = .error (.plugin name cause) := by
  obtain ⟨after, hfails⟩ := h
  exact resultOf_eq_log.trans
    (congrArg Outcome.result ((logs_walk log _ _).bracketed.stops name cause after hfails))

theorem resultOf_of_unharmed (h : Unharmed levels observe plugins path doc seen index) :
    resultOf levels observe plugins path doc seen index = .ok () := by
  cases hresult : resultOf levels observe plugins path doc seen index with
  | ok => rfl
  | error error =>
    cases error with
    | tooDeep => exact absurd hresult h.whole
    | plugin name cause =>
      rw [resultOf_eq_log] at hresult
      exact absurd ⟨_, (logs_walk log _ _).bracketed.exists_failsAt hresult⟩ (h.succeed name cause)

theorem Halts.stopsAt {passes : Nat} {settled : Settled S σ}
    (h : Halts levels observe plugins path doc seen 0 passes settled) :
    StopsAt levels observe plugins path doc seen passes settled where
  ok hall := h.ok fun index _ hlt => resultOf_of_unharmed (hall index hlt)
  failed index _ _ hlt hearlier hfails :=
    h.failed index _ (Nat.zero_le index) hlt
      (fun earlier _ hbefore => resultOf_of_unharmed (hearlier earlier hbefore))
      (resultOf_of_hookFails hfails)

end Failures

end Pass

end SvgTidy
