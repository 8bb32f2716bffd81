import SvgTidy.Pass.Repeat

/-!
# Observers change nothing

A pass tells its observer what happens and takes nothing back. Two passes that differ in their
observers alone end alike (`Alike`): with the same result, the same document, the same shared cells
and the same visitors. What is said of the log of a pass is therefore said of the pass, whoever
watches it.

A pass that is not cut short by the number of levels that it may descend is the same with more of them
(`Outlasts`), so that number matters to no pass that ends by itself.

Principal results: `runWithin_alike` — two passes with different observers; `allWithin_add` — the
passes of a call with more levels.
-/

namespace SvgTidy.Pass

variable {S : Slots} {σ τ : Type}

/-! ## Two observers -/

/-- Two states that differ in what the observers have taken in. -/
structure Agree (s : Progress S σ) (t : Progress S τ) : Prop where
  doc : s.doc = t.doc
  context : s.context = t.context
  active : s.active = t.active

/-- Two parts of passes end alike. -/
structure Alike (o : Outcome S σ) (p : Outcome S τ) : Prop where
  result : o.result = p.result
  state : Agree o.state p.state

namespace Alike

variable {s : Progress S σ} {t : Progress S τ}

theorem done (h : Agree s t) : Alike (done s) (done t) :=
  ⟨rfl, h⟩

theorem andThen {o : Outcome S σ} {p : Outcome S τ} {next : Progress S σ → Outcome S σ}
    {next' : Progress S τ → Outcome S τ} (h : Alike o p)
    (hnext : ∀ s t, Agree s t → Alike (next s) (next' t)) : Alike (andThen o next) (andThen p next') := by
  obtain ⟨result, s⟩ := o
  obtain ⟨result', t⟩ := p
  obtain ⟨rfl, hstate⟩ := h
  cases result with
  | ok => exact hnext s t hstate
  | error error => exact ⟨rfl, hstate⟩

theorem inTurn {α : Type} {action : α → Progress S σ → Outcome S σ}
    {action' : α → Progress S τ → Outcome S τ}
    (haction : ∀ a s t, Agree s t → Alike (action a s) (action' a t)) :
    ∀ (items : List α) {s : Progress S σ} {t : Progress S τ}, Agree s t →
      Alike (inTurn action items s) (inTurn action' items t)
  | [], _, _, h => .done h
  | a :: rest, s, t, h => (haction a s t h).andThen fun _ _ h => Alike.inTurn haction rest h

end Alike

section Observers

variable (observe : Observer S σ) (observe' : Observer S τ) {s : Progress S σ} {t : Progress S τ}

theorem call_alike (phase : Phase) (site : Site) (place : Nat) (h : Agree s t) :
    Alike (call observe phase site place s) (call observe' phase site place t) := by
  obtain ⟨doc, context, active, seen⟩ := s
  obtain ⟨doc', context', active', seen'⟩ := t
  obtain ⟨rfl, rfl, rfl⟩ := h
  unfold call
  simp only
  split
  · exact .done ⟨rfl, rfl, rfl⟩
  · exact ⟨rfl, rfl, rfl, rfl⟩

theorem enter_alike (site : Site) (h : Agree s t) :
    Alike (enter observe site s) (enter observe' site t) := by
  unfold enter
  rw [h.active]
  exact .inTurn (fun place _ _ h => call_alike observe observe' .enter site place h) _ h

theorem leave_alike (site : Site) (h : Agree s t) :
    Alike (leave observe site s) (leave observe' site t) := by
  unfold leave
  rw [h.active]
  exact .inTurn (fun place _ _ h => call_alike observe observe' .leave site place h) _ h

theorem visit_alike {below : NodeId → Progress S σ → Outcome S σ}
    {below' : NodeId → Progress S τ → Outcome S τ}
    (hbelow : ∀ id s t, Agree s t → Alike (below id s) (below' id t)) (parent id : NodeId)
    (h : Agree s t) :
    Alike (visit observe below parent id s) (visit observe' below' parent id t) := by
  unfold visit
  rw [h.doc]
  split
  · exact .done h
  · refine (enter_alike observe observe' _ h).andThen fun s t h => ?_
    refine Alike.andThen ?_ fun s t h => leave_alike observe observe' _ h
    rw [h.doc]
    split
    · exact hbelow id s t h
    · exact .done h

theorem visitChildren_alike :
    ∀ (depth : Nat) (parent : NodeId) {s : Progress S σ} {t : Progress S τ}, Agree s t →
      Alike (visitChildren observe depth parent s) (visitChildren observe' depth parent t)
  | 0, _, _, _, h => ⟨rfl, h⟩
  | depth + 1, parent, s, t, h => by
    unfold visitChildren
    rw [h.doc]
    refine .inTurn (fun id s t h => ?_) _ h
    rw [h.doc]
    split
    · exact visit_alike observe observe' (fun id _ _ h => visitChildren_alike depth id h) parent id h
    · exact .done h

theorem walk_alike (depth : Nat) (h : Agree s t) :
    Alike (walk observe depth s) (walk observe' depth t) := by
  unfold walk
  refine (enter_alike observe observe' _ h).andThen fun s t h => ?_
  exact (visitChildren_alike observe observe' _ _ h).andThen fun s t h =>
    leave_alike observe observe' _ h

theorem ask_agree (info : PassInfo) (plugin : Plugin S) (place : Nat) (h : Agree s t) :
    Agree (ask observe info plugin place s) (ask observe' info plugin place t) := by
  obtain ⟨doc, context, active, seen⟩ := s
  obtain ⟨doc', context', active', seen'⟩ := t
  obtain ⟨rfl, rfl, rfl⟩ := h
  exact ⟨rfl, rfl, rfl⟩

theorem recruit_agree (info : PassInfo) (plugins : List (Plugin S)) (h : Agree s t) :
    Agree (recruit observe info plugins s) (recruit observe' info plugins t) := by
  unfold recruit
  generalize plugins.zipIdx = asked
  induction asked generalizing s t with
  | nil => exact h
  | cons item rest ih => exact ih (ask_agree observe observe' info item.1 item.2 h)

/-- **Two passes with different observers end alike.** -/
theorem runWithin_alike (levels : Nat) (plugins : List (Plugin S)) (info : PassInfo)
    (doc : Document) (context : Context S) (seen : σ) (seen' : τ) :
    Alike (runWithin levels observe plugins info doc context seen)
      (runWithin levels observe' plugins info doc context seen') :=
  walk_alike observe observe' _ (recruit_agree observe observe' info plugins ⟨rfl, rfl, rfl⟩)

end Observers

/-! ## More levels -/

/-- A part of a pass is the same with more levels, unless it was cut short. -/
def Outlasts (o longer : Outcome S σ) : Prop :=
  o.result ≠ .error .tooDeep → longer = o

namespace Outlasts

theorem refl (o : Outcome S σ) : Outlasts o o :=
  fun _ => rfl

theorem andThen {o longer : Outcome S σ} {next next' : Progress S σ → Outcome S σ}
    (h : Outlasts o longer) (hnext : ∀ s, Outlasts (next s) (next' s)) :
    Outlasts (andThen o next) (andThen longer next') := by
  obtain ⟨result, s⟩ := o
  intro hresult
  cases result with
  | ok =>
    rw [h nofun]
    exact hnext s hresult
  | error error =>
    rw [h hresult]
    rfl

theorem inTurn {α : Type} {action action' : α → Progress S σ → Outcome S σ}
    (haction : ∀ a s, Outlasts (action a s) (action' a s)) :
    ∀ (items : List α) (s : Progress S σ), Outlasts (inTurn action items s) (inTurn action' items s)
  | [], _ => .refl _
  | a :: rest, s => (haction a s).andThen (Outlasts.inTurn haction rest)

end Outlasts

section Levels

variable (observe : Observer S σ)

theorem visit_outlasts {below below' : NodeId → Progress S σ → Outcome S σ}
    (hbelow : ∀ id s, Outlasts (below id s) (below' id s)) (parent id : NodeId)
    (s : Progress S σ) :
    Outlasts (visit observe below parent id s) (visit observe below' parent id s) := by
  unfold visit
  split
  · exact .refl _
  · refine (Outlasts.refl _).andThen fun s => Outlasts.andThen ?_ fun s => .refl _
    split
    · exact hbelow id s
    · exact .refl _

/-- **The children of a node are visited alike with more levels.** -/
theorem visitChildren_outlasts (more : Nat) : ∀ (depth : Nat) (parent : NodeId) (s : Progress S σ),
    Outlasts (visitChildren observe depth parent s) (visitChildren observe (depth + more) parent s)
  | 0, _, _ => fun h => absurd rfl h
  | depth + 1, parent, s => by
    rw [Nat.add_right_comm]
    unfold visitChildren
    refine .inTurn (fun id s => ?_) _ s
    split
    · exact visit_outlasts observe (visitChildren_outlasts more depth) parent id s
    · exact .refl _

/-- **A pass is the same with more levels, unless it was cut short.** -/
theorem runWithin_add (levels more : Nat) (plugins : List (Plugin S)) (info : PassInfo)
    (doc : Document) (context : Context S) (seen : σ) :
    Outlasts (runWithin levels observe plugins info doc context seen)
      (runWithin (levels + more) observe plugins info doc context seen) := by
  unfold runWithin walk
  rw [← Nat.add_assoc]
  refine (Outlasts.refl _).andThen fun s => ?_
  exact (visitChildren_outlasts observe more _ _ s).andThen fun s => .refl _

theorem settleWithin_add (levels more : Nat) (plugins : List (Plugin S)) (path : Option String)
    (layout : Layout) : ∀ (budget index : Nat) (previous : Option String) (doc : Document)
      (context : Context S) (seen : σ),
      (settleWithin levels observe plugins path layout budget index previous doc context seen).result ≠
        .error .tooDeep →
      settleWithin (levels + more) observe plugins path layout budget index previous doc context seen =
        settleWithin levels observe plugins path layout budget index previous doc context seen
  | 0, _, _, _, _, _, _ => rfl
  | budget + 1, index, previous, doc, context, seen, h => by
    have hrun := runWithin_add observe levels more plugins ⟨path, index⟩ doc context seen
    unfold settleWithin at h ⊢
    generalize runWithin levels observe plugins ⟨path, index⟩ doc context seen = o at hrun h ⊢
    obtain ⟨result, after⟩ := o
    cases result with
    | error error =>
      rw [hrun fun hdeep => h (by cases hdeep; rfl)]
    | ok =>
      rw [hrun nofun]
      simp only at h ⊢
      split
      · rfl
      · rename_i hnew
        rw [if_neg hnew] at h
        exact settleWithin_add levels more plugins path layout budget _ _ _ _ _ h

/-- **The passes of a call are the same with more levels, unless one was cut short.** -/
theorem allWithin_add (levels more : Nat) (plugins : List (Plugin S)) (path : Option String)
    (layout : Layout) (multipass : Bool) (doc : Document) (seen : σ)
    (h : (allWithin levels observe plugins path layout multipass doc seen).result ≠
      .error .tooDeep) :
    allWithin (levels + more) observe plugins path layout multipass doc seen =
      allWithin levels observe plugins path layout multipass doc seen := by
  unfold allWithin at h ⊢
  split
  · rename_i hmultipass
    rw [if_pos hmultipass] at h
    exact settleWithin_add observe levels more plugins path layout _ _ _ _ _ _ h
  · rename_i hmultipass
    rw [if_neg hmultipass] at h
    have hrun := runWithin_add observe levels more plugins ⟨path, 0⟩ doc .empty seen
    unfold onceWithin at h ⊢
    generalize runWithin levels observe plugins ⟨path, 0⟩ doc .empty seen = o at hrun h ⊢
    obtain ⟨result, after⟩ := o
    cases result with
    | error error => rw [hrun fun hdeep => h (by cases hdeep; rfl)]
    | ok => rw [hrun nofun]

end Levels

end SvgTidy.Pass
