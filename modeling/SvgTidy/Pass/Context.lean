/-!
# State that plugins share

Plugins share state through cells. `Slots` says which cells there are: a type of keys, the type of
value behind each key and the value it begins with. A `Context` holds the cells in use; a cell comes
into being when it is first set, and until then it reads as its initial value.

* `get_set_self`, `get_set_ne` — a cell holds what was put there last, whatever happens to others;
* `get_empty` — and begins with its initial value.
-/

namespace SvgTidy

/-- The cells that plugins may share. -/
structure Slots where
  Key : Type
  [decEq : DecidableEq Key]
  Value : Key → Type
  initial : (key : Key) → Value key

attribute [instance] Slots.decEq

/-- No shared state. -/
def Slots.none : Slots where
  Key := Empty
  Value := nofun
  initial := nofun

/-- The cells in use with their values. -/
structure Context (S : Slots) where
  cells : List ((key : S.Key) × S.Value key)

namespace Context

variable {S : Slots}

/-- No cell in use. -/
def empty : Context S := ⟨[]⟩

/-- The value under a key in a list of cells. -/
def find? (key : S.Key) : List ((key : S.Key) × S.Value key) → Option (S.Value key)
  | [] => none
  | ⟨other, value⟩ :: rest => if h : other = key then some (h ▸ value) else find? key rest

/-- Read a cell. -/
def get (context : Context S) (key : S.Key) : S.Value key :=
  (find? key context.cells).getD (S.initial key)

/-- Put a value into a cell. -/
def set (context : Context S) (key : S.Key) (value : S.Value key) : Context S :=
  ⟨⟨key, value⟩ :: context.cells.filter (·.1 ≠ key)⟩

theorem get_empty (key : S.Key) : (empty : Context S).get key = S.initial key := rfl

@[simp] theorem get_set_self (context : Context S) (key : S.Key) (value : S.Value key) :
    (context.set key value).get key = value := by
  simp [get, set, find?]

theorem find?_filter_ne {key other : S.Key} (h : other ≠ key)
    (cells : List ((key : S.Key) × S.Value key)) :
    find? other (cells.filter (·.1 ≠ key)) = find? other cells := by
  induction cells with
  | nil => rfl
  | cons cell rest ih =>
    obtain ⟨known, value⟩ := cell
    by_cases hk : known = key
    · subst hk
      rw [List.filter_cons_of_neg (by simp), ih, find?, dif_neg (Ne.symm h)]
    · rw [List.filter_cons_of_pos (by simpa using hk)]
      by_cases ho : known = other
      · subst ho
        simp [find?]
      · rw [find?, find?, dif_neg ho, dif_neg ho, ih]

theorem get_set_ne (context : Context S) {key other : S.Key} (h : other ≠ key)
    (value : S.Value key) : (context.set key value).get other = context.get other := by
  have := find?_filter_ne h context.cells
  simp only [get, set, find?, dif_neg (Ne.symm h), this]

end Context

end SvgTidy
