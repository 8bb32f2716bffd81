import SvgTidy.Pass.Context

/-!
# Accesses to shared cells

A `Dialogue` is what a hook or a plugin does with the shared cells: it accesses one after the other,
and what it leaves in a cell and how it goes on depend on what it has found. `Dialogue.accesses` are
the accesses that it makes if it is led with the cells of a context. Accesses lead from one context to
another (`Context.Leads`) if of those to each key every one finds what the one before it has left, the
first one what was there before all of them (`Chained`), and the last one leaves what is there in the
end.

Principal results: `Dialogue.leads` — the accesses of a dialogue lead to the context that it leaves;
`counts_of_chained` — increments yield one number after the other.
-/

namespace SvgTidy

universe u

/-- One access to a cell: what was found in it, and what was left. -/
structure Access (S : Slots) where
  key : S.Key
  found : S.Value key
  left : S.Value key

/-- What is done with the shared cells: nothing more, or a cell is accessed. Whether it is left as it
is or with another value, and what comes next, depend on what was found. -/
inductive Dialogue (S : Slots) (α : Type u) : Type u where
  | done (value : α)
  | access (key : S.Key) (leave : S.Value key → Option (S.Value key))
      (next : S.Value key → Dialogue S α)

/-! ## Leading a dialogue -/

namespace Context

variable {S : Slots}

/-- Put a value into a cell, if there is one to put. -/
def leave (context : Context S) (key : S.Key) : Option (S.Value key) → Context S
  | none => context
  | some left => context.set key left

theorem get_leave_self (context : Context S) (key : S.Key) (left? : Option (S.Value key)) :
    (context.leave key left?).get key = left?.getD (context.get key) := by
  cases left? with
  | none => rfl
  | some left => exact context.get_set_self key left

theorem get_leave_ne (context : Context S) {key other : S.Key} (h : other ≠ key)
    (left? : Option (S.Value key)) : (context.leave key left?).get other = context.get other := by
  cases left? with
  | none => rfl
  | some left => exact context.get_set_ne h left

end Context

namespace Dialogue

variable {S : Slots} {α β : Type u}

/-- Lead a dialogue with the cells of a context. -/
def run : Dialogue S α → Context S → α × Context S
  | done value, context => (value, context)
  | access key leave next, context =>
    (next (context.get key)).run (context.leave key (leave (context.get key)))

/-- The accesses that a dialogue makes, led with the cells of a context. -/
def accesses : Dialogue S α → Context S → List (Access S)
  | done _, _ => []
  | access key leave next, context =>
    ⟨key, context.get key, (leave (context.get key)).getD (context.get key)⟩ ::
      (next (context.get key)).accesses (context.leave key (leave (context.get key)))

end Dialogue

/-! ## Accesses to one cell -/

section Chains

variable {V : Type}

/-- Each of these accesses to a cell finds what the one before it has left, and the first one finds
the given value. -/
def Chained : V → List (V × V) → Prop
  | _, [] => True
  | value, (found, left) :: later => found = value ∧ Chained left later

/-- What is in a cell after these accesses, the given value being there before them. -/
def lastLeft (value : V) (accesses : List (V × V)) : V :=
  accesses.foldl (fun _ access => access.2) value

theorem chained_append {value : V} {earlier later : List (V × V)} :
    Chained value (earlier ++ later) ↔
      Chained value earlier ∧ Chained (lastLeft value earlier) later := by
  induction earlier generalizing value with
  | nil => exact (true_and _).symm.to_iff
  | cons access earlier ih =>
    rw [List.cons_append, Chained, Chained, ih, and_assoc]
    rfl

theorem lastLeft_append (value : V) (earlier later : List (V × V)) :
    lastLeft value (earlier ++ later) = lastLeft (lastLeft value earlier) later :=
  List.foldl_append

/-- **Increments of a counter yield one number after the other**, whatever other accesses there are
that leave it as it is. -/
theorem counts_of_chained {count : V → Nat} :
    ∀ {value : V} {accesses : List (V × V)}, Chained value accesses →
      (∀ access ∈ accesses, count access.2 = count access.1 ∨ count access.2 = count access.1 + 1) →
      ∃ increments, (accesses.filter fun access => count access.2 ≠ count access.1).map
        (fun access => count access.2) = List.range' (count value + 1) increments
  | _, [], _, _ => ⟨0, rfl⟩
  | value, (found, left) :: later, hchained, hcounts => by
    obtain ⟨rfl, hlater⟩ := hchained
    obtain ⟨increments, hincrements⟩ := counts_of_chained hlater fun access haccess =>
      hcounts access (List.mem_cons_of_mem _ haccess)
    rcases hcounts (found, left) List.mem_cons_self with hsame | hmore
    · refine ⟨increments, ?_⟩
      rw [List.filter_cons_of_neg (by simpa using hsame), hincrements]
      exact congrArg (fun n => List.range' (n + 1) increments) hsame
    · refine ⟨increments + 1, ?_⟩
      have hne : count left ≠ count found := by
        intro h
        exact Nat.succ_ne_self _ (hmore.symm.trans h)
      rw [List.filter_cons_of_pos (by simpa using hne), List.map_cons, hincrements,
        List.range'_succ]
      exact congrArg (fun n => n :: List.range' (n + 1) increments) hmore

end Chains

/-! ## Accesses from one context to another -/

variable {S : Slots}

/-- What an access has found and left, if it is one to this key. -/
def Access.to? (key : S.Key) (access : Access S) : Option (S.Value key × S.Value key) :=
  if h : access.key = key then some (h ▸ (access.found, access.left)) else none

/-- The accesses to a key, each with what it has found and left. -/
def accessesTo (key : S.Key) (accesses : List (Access S)) : List (S.Value key × S.Value key) :=
  accesses.filterMap (Access.to? key)

theorem accessesTo_append (key : S.Key) (earlier later : List (Access S)) :
    accessesTo key (earlier ++ later) = accessesTo key earlier ++ accessesTo key later :=
  List.filterMap_append

theorem accessesTo_self (key : S.Key) (found left : S.Value key) :
    accessesTo key [⟨key, found, left⟩] = [(found, left)] := by
  simp [accessesTo, Access.to?]

theorem accessesTo_ne {key other : S.Key} (h : key ≠ other) (found left : S.Value key) :
    accessesTo other [⟨key, found, left⟩] = [] := by
  simp [accessesTo, Access.to?, h]

namespace Context

/-- In each cell, every one of these accesses finds what the one before it has left there, and this is
how the cells of one context become those of another. -/
structure Leads (context : Context S) (accesses : List (Access S)) (later : Context S) : Prop where
  chained : ∀ key, Chained (context.get key) (accessesTo key accesses)
  last : ∀ key, later.get key = lastLeft (context.get key) (accessesTo key accesses)

namespace Leads

variable {context later last : Context S} {accesses more : List (Access S)}

theorem nil (context : Context S) : context.Leads [] context :=
  ⟨fun _ => trivial, fun _ => rfl⟩

theorem append (h : context.Leads accesses later) (hmore : later.Leads more last) :
    context.Leads (accesses ++ more) last := by
  refine ⟨fun key => ?_, fun key => ?_⟩
  · rw [accessesTo_append, chained_append, ← h.last key]
    exact ⟨h.chained key, hmore.chained key⟩
  · rw [accessesTo_append, lastLeft_append, ← h.last key]
    exact hmore.last key

/-- An access to a cell leaves all others as they are. -/
theorem access (context : Context S) (key : S.Key) (left? : Option (S.Value key)) :
    context.Leads [⟨key, context.get key, left?.getD (context.get key)⟩]
      (context.leave key left?) := by
  refine ⟨fun other => ?_, fun other => ?_⟩
  · by_cases hkey : key = other
    · subst hkey
      rw [accessesTo_self]
      exact ⟨rfl, trivial⟩
    · rw [accessesTo_ne hkey]
      trivial
  · by_cases hkey : key = other
    · subst hkey
      rw [accessesTo_self, get_leave_self]
      rfl
    · rw [accessesTo_ne hkey, get_leave_ne _ (Ne.symm hkey)]
      rfl

end Leads

end Context

/-- **The accesses of a dialogue lead to the context that it leaves.** -/
theorem Dialogue.leads {α : Type u} (dialogue : Dialogue S α) (context : Context S) :
    context.Leads (dialogue.accesses context) (dialogue.run context).2 := by
  induction dialogue generalizing context with
  | done value => exact .nil context
  | access key leave next ih =>
    exact (Context.Leads.access context key (leave (context.get key))).append (ih _ _)

end SvgTidy
