import Mathlib.Data.List.Basic
import SvgTidy.Markup.Diagnostic
import SvgTidy.Proofs.SeparatedParts

/-!
# Slices and sums of a report

A report is put together from parts of the list of lines and of single lines. `Diagnostic.render`
takes each of them with its bounds checked, and forms three sums on the way: the last line, the end
of the window, and the column behind it. Where all three fit into a number of the machine
(`Diagnostic.Fits`), the bounds are in order and the report is `Diagnostic.report`. That is so for
every place in a text, but not for every diagnostic that a program may put together: a sum that is
too large ends the program, or it comes out small and the end of the window falls before its
beginning (`Diagnostic.Breaks`).

Principal results: `render_of_fits` — the report where the sums fit; `render_eq_none_iff` — when there
is none; `eq_report_of_render` — whatever is made is the report.
-/

namespace SvgTidy

namespace Overflow

variable {overflow : Overflow} {a b : Nat}

theorem add_of_lt (h : a + b < wordSize) : overflow.add a b = some (a + b) :=
  if_pos h

theorem add_checked_eq_none_iff : checked.add a b = none ↔ wordSize ≤ a + b := by
  unfold add
  split
  · simp_all
  · simp_all

theorem add_wrapping (a b : Nat) : wrapping.add a b = some ((a + b) % wordSize) := by
  unfold add
  split
  · rename_i h
    rw [Nat.mod_eq_of_lt h]
  · rfl

end Overflow

namespace Diagnostic

section Slices

variable {α : Type} {list : List α} {first last : Nat}

theorem slice?_of_le (h : first ≤ last) (hlast : last ≤ list.length) :
    slice? list first last = some ((list.take last).drop first) :=
  if_pos ⟨h, hlast⟩

/-- Bounds that are cut off at the end of the list are never beyond it, and in order if they were. -/
theorem slice?_min (list : List α) (h : first ≤ last) :
    slice? list (min first list.length) (min last list.length) =
      some ((list.take last).drop first) := by
  rw [slice?_of_le (by omega) (Nat.min_le_right _ _), ← List.take_eq_take_min]
  rcases Nat.le_total first list.length with hfirst | hfirst
  · rw [Nat.min_eq_left hfirst]
  · rw [Nat.min_eq_right hfirst, List.drop_eq_nil_of_le, List.drop_eq_nil_of_le] <;>
      rw [List.length_take] <;> omega

/-- Where the second bound is before the first one, bounds that are cut off are out of order unless
the list ends before both. -/
theorem slice?_min_eq_none_iff (h : last < first) :
    slice? list (min first list.length) (min last list.length) = none ↔ last < list.length := by
  unfold slice?
  split
  · simp only [reduceCtorEq, false_iff]
    omega
  · simp only [true_iff]
    omega

/-- A list cannot be gone through where something cannot be done for one of its members. -/
theorem mapM_eq_none_iff {β : Type} {f : α → Option β} :
    list.mapM f = none ↔ ∃ a ∈ list, f a = none := by
  induction list with
  | nil => simp
  | cons a rest ih =>
    rw [List.mapM_cons]
    cases ha : f a with
    | none => simp [ha]
    | some b =>
      cases hrest : List.mapM f rest <;> simp [ha, ← ih, hrest]

theorem mapM_eq_some {β : Type} {f : α → Option β} {g : α → β}
    (h : ∀ a ∈ list, f a = some (g a)) : list.mapM f = some (list.map g) := by
  induction list with
  | nil => rfl
  | cons a rest ih =>
    rw [List.mapM_cons, h a List.mem_cons_self, ih fun b hb => h b (List.mem_cons_of_mem _ hb)]
    rfl

end Slices

/-! ## The text -/

/-- The text that was refused, a leading byte order mark left out. -/
def text (d : Diagnostic) : List Char :=
  match d.source.toList with
  | '\uFEFF' :: rest => rest
  | text => text

theorem lines_eq (d : Diagnostic) : d.lines = (Text.split '\n' d.text).map stripReturn := rfl

theorem length_lines (d : Diagnostic) : d.lines.length = d.text.count '\n' + 1 := by
  rw [lines_eq, List.length_map, Text.length_split]

theorem length_text_le (d : Diagnostic) : d.text.length ≤ d.source.length := by
  rw [← String.length_toList]
  unfold text
  split
  · rename_i rest heq
    rw [heq]
    exact Nat.le_succ _
  · exact Nat.le_refl _

theorem length_lines_le (d : Diagnostic) : d.lines.length ≤ d.source.length + 1 := by
  rw [length_lines]
  exact Nat.succ_le_succ (Nat.le_trans List.count_le_length d.length_text_le)

/-! ## The window -/

variable {d : Diagnostic} {overflow : Overflow}

theorem hidden_le (d : Diagnostic) : d.hidden ≤ d.column - 1 := by
  unfold hidden lead
  omega

theorem lt_reach (d : Diagnostic) : d.column - 1 < d.reach := by
  unfold reach trail minWidth
  omega

theorem lastShown_eq (d : Diagnostic) : d.lastShown = min (d.line + 2) d.lines.length := by
  unfold lastShown skipped
  omega

/-- Line and column are small enough for the sums of a report. -/
structure Fits (d : Diagnostic) : Prop where
  line : d.line + 2 < wordSize
  column : d.column + 21 < wordSize

/-- What a program can hold: line and column are numbers of the machine, and a text is far from being
as long as these go. -/
structure Held (d : Diagnostic) : Prop where
  line : d.line < wordSize
  column : d.column < wordSize
  source : d.source.length < wordSize / 2

/-- There is no report. With checked sums this is so where one of them is too large, of which the
third is formed for lines that are shown; with others, where the window of a line ends before it
begins. -/
def Breaks (d : Diagnostic) : Overflow → Prop
  | .checked => wordSize ≤ d.line + 2 ∨ wordSize ≤ d.column + 20 ∨
      wordSize ≤ d.column + 21 ∧ d.shown ≠ []
  | .wrapping => wordSize ≤ d.column + 20 ∧ ∃ number line, (number, line) ∈ d.shown ∧ 80 < line.length

/-! ## Rows -/

/-- The part of a line in the window is in range. -/
theorem slice?_window (d : Diagnostic) (line : List Char) :
    slice? line (min d.hidden line.length) (min d.reach line.length) =
      some ((line.take d.reach).drop d.hidden) :=
  slice?_min line (Nat.le_trans d.hidden_le (Nat.le_of_lt d.lt_reach))

/-- The part of a line before the place is always in range. -/
theorem slice?_front (d : Diagnostic) (line : List Char) :
    slice? line (min d.hidden line.length)
        (max (min (d.column - 1) line.length) (min d.hidden line.length)) =
      some ((line.take (max (d.column - 1) d.hidden)).drop d.hidden) := by
  rw [← Nat.min_max_distrib_right]
  exact slice?_min line (Nat.le_max_right _ _)

/-- **Rows are given up for the window or for the column behind it**, and else are there. -/
theorem renderRows_eq_none_iff {last reach number : Nat} {line : List Char} :
    d.renderRows overflow last reach number line = none ↔
      slice? line (min d.hidden line.length) (min reach line.length) = none ∨
        overflow.add reach 1 = none := by
  unfold renderRows
  simp only [slice?_front]
  cases slice? line (min d.hidden line.length) (min reach line.length) with
  | none => simp
  | some window =>
    cases overflow.add reach 1 with
    | none => simp
    | some next =>
      by_cases hnumber : number = d.line
      · simp [hnumber]
      · simp [hnumber]

theorem renderRows_eq (h : d.reach + 1 < wordSize) (number : Nat) (line : List Char) :
    d.renderRows overflow d.lastShown d.reach number line = some (d.rows number line) := by
  unfold renderRows
  simp only [slice?_window, Overflow.add_of_lt h, slice?_front, rows]
  split
  · rfl
  · rfl

/-! ## Reports -/

/-- Where the sums of the lines and of the window are known, a report is its rows. -/
theorem render_eq_bind {below right : Nat} (hbelow : overflow.add d.line 2 = some below)
    (hlast : max (min below d.lines.length) d.skipped = d.lastShown)
    (hright : overflow.add d.column trail = some right) :
    d.render overflow = (d.shown.mapM fun (number, line) =>
      d.renderRows overflow d.lastShown (max right minWidth) number line).bind
        fun rows => some (d.layOut rows.flatten) := by
  have hlines : d.skipped ≤ d.lastShown ∧ d.lastShown ≤ d.lines.length := by
    unfold lastShown skipped
    omega
  unfold render
  rw [hbelow, hright]
  simp only [Option.bind_eq_bind, Option.bind_some, hlast, slice?_of_le hlines.1 hlines.2]
  rfl

/-- Where moreover the rows of all lines shown are those of the report, this is what is made. -/
theorem render_eq_report {below right : Nat} (hbelow : overflow.add d.line 2 = some below)
    (hlast : max (min below d.lines.length) d.skipped = d.lastShown)
    (hright : overflow.add d.column trail = some right)
    (hrows : ∀ number line, (number, line) ∈ d.shown →
      d.renderRows overflow d.lastShown (max right minWidth) number line =
        some (d.rows number line)) :
    d.render overflow = some d.report := by
  rw [render_eq_bind hbelow hlast hright, report, List.flatMap_def]
  exact congrArg (·.bind fun rows => some (d.layOut rows.flatten))
    (mapM_eq_some fun _ hshown => hrows _ _ hshown)

/-- **Where the sums fit, the report is made**: all slices are in range. -/
theorem render_of_fits (h : d.Fits) (overflow : Overflow) : d.render overflow = some d.report := by
  have hcolumn := h.column
  have hreach : d.reach + 1 < wordSize := by
    unfold wordSize at *
    unfold reach trail minWidth
    omega
  have hright : overflow.add d.column trail = some (d.column + trail) :=
    Overflow.add_of_lt (Nat.lt_of_succ_lt hcolumn)
  exact render_eq_report (Overflow.add_of_lt h.line) rfl hright fun number line _ =>
    renderRows_eq hreach number line

/-- Where the sums of the lines and of the window are known, there is a report unless the rows of one
of the lines shown are given up. -/
theorem render_eq_none_iff_of_sums {below right : Nat}
    (hbelow : overflow.add d.line 2 = some below)
    (hlast : max (min below d.lines.length) d.skipped = d.lastShown)
    (hright : overflow.add d.column trail = some right) :
    d.render overflow = none ↔ ∃ number line, (number, line) ∈ d.shown ∧
      (slice? line (min d.hidden line.length) (min (max right minWidth) line.length) = none ∨
        overflow.add (max right minWidth) 1 = none) := by
  rw [render_eq_bind hbelow hlast hright, Option.bind_eq_none_iff]
  simp only [reduceCtorEq, imp_false, ← Option.eq_none_iff_forall_ne_some, mapM_eq_none_iff,
    Prod.exists, renderRows_eq_none_iff]

/-- With checked sums there is a report unless one of them is too large. -/
theorem render_checked_eq_none_iff : d.render .checked = none ↔ d.Breaks .checked := by
  unfold Breaks
  rcases Nat.lt_or_ge (d.line + 2) wordSize with hline | hline
  · rcases Nat.lt_or_ge (d.column + 20) wordSize with hcolumn | hcolumn
    · have hnext : Overflow.checked.add d.reach 1 = none ↔ wordSize ≤ d.column + 21 := by
        rw [Overflow.add_checked_eq_none_iff]
        unfold wordSize reach trail minWidth
        omega
      rw [render_eq_none_iff_of_sums (Overflow.add_of_lt hline) rfl (Overflow.add_of_lt hcolumn)]
      change (∃ number line, (number, line) ∈ d.shown ∧
        (slice? line (min d.hidden line.length) (min d.reach line.length) = none ∨
          Overflow.checked.add d.reach 1 = none)) ↔ _
      simp only [slice?_window, reduceCtorEq, false_or, hnext]
      constructor
      · rintro ⟨number, line, hmem, hlarge⟩
        exact .inr (.inr ⟨hlarge, List.ne_nil_of_mem hmem⟩)
      · rintro (hlarge | hlarge | ⟨hlarge, hshown⟩)
        · exact absurd hlarge (Nat.not_le_of_lt hline)
        · exact absurd hlarge (Nat.not_le_of_lt hcolumn)
        · obtain ⟨⟨number, line⟩, hmem⟩ := List.exists_mem_of_ne_nil _ hshown
          exact ⟨number, line, hmem, hlarge⟩
    · have hnone : d.render .checked = none := by
        unfold render
        rw [Overflow.add_of_lt hline, trail, Overflow.add_checked_eq_none_iff.mpr hcolumn]
        rfl
      exact iff_of_true hnone (.inr (.inl hcolumn))
  · have hnone : d.render .checked = none := by
      unfold render
      rw [Overflow.add_checked_eq_none_iff.mpr hline]
      rfl
    exact iff_of_true hnone (.inl hline)

/-- A sum modulo the word size that is too large comes out as one or less, and then no lines are left
to be shown. -/
theorem lastShown_wrapping (h : d.Held) :
    max (min ((d.line + 2) % wordSize) d.lines.length) d.skipped = d.lastShown := by
  have hline := h.line
  have hsource := h.source
  have hlines := d.length_lines_le
  unfold wordSize at *
  unfold lastShown skipped
  omega

/-- A column that is too large puts the end of the window before its beginning. -/
theorem window_wrapping (h : d.Held) (hlarge : wordSize ≤ d.column + 20) :
    max ((d.column + trail) % wordSize) minWidth = 80 ∧ d.source.length + 80 < d.hidden := by
  have hcolumn := h.column
  have hsource := h.source
  unfold wordSize at *
  unfold hidden lead trail minWidth
  omega

/-- With sums modulo the word size there is a report unless the window of a line shown ends before it
begins. -/
theorem render_wrapping_eq_none_iff (h : d.Held) :
    d.render .wrapping = none ↔ d.Breaks .wrapping := by
  rw [render_eq_none_iff_of_sums (Overflow.add_wrapping _ _) (lastShown_wrapping h)
    (Overflow.add_wrapping _ _)]
  simp only [Overflow.add_wrapping, reduceCtorEq, or_false]
  rcases Nat.lt_or_ge (d.column + 20) wordSize with hsmall | hlarge
  · have hreach : max ((d.column + trail) % wordSize) minWidth = d.reach := by
      unfold reach trail
      rw [Nat.mod_eq_of_lt hsmall]
    simp only [Breaks, hreach, slice?_window, Nat.not_le_of_lt hsmall, reduceCtorEq, and_false,
      exists_false, false_and]
  · obtain ⟨hreach, hhidden⟩ := window_wrapping h hlarge
    have hwindow : 80 < d.hidden := by omega
    simp only [Breaks, hreach, hlarge, slice?_min_eq_none_iff hwindow, true_and]

/-- **When there is no report.** -/
theorem render_eq_none_iff (h : d.Held) (overflow : Overflow) :
    d.render overflow = none ↔ d.Breaks overflow := by
  cases overflow with
  | checked => exact render_checked_eq_none_iff
  | wrapping => exact render_wrapping_eq_none_iff h

/-- Where the window is out of place, a line of at most 80 characters is not shown at all. -/
theorem renderRows_of_short (h : d.Held) (hlarge : wordSize ≤ d.column + 20) {line : List Char}
    (hshort : line.length ≤ 80) (number : Nat) :
    d.renderRows .wrapping d.lastShown 80 number line = some (d.rows number line) := by
  have hhidden : line.length ≤ d.hidden := by
    have := (window_wrapping h hlarge).2
    omega
  have hreach : line.length ≤ d.reach := Nat.le_trans hhidden
    (Nat.le_trans d.hidden_le (Nat.le_of_lt d.lt_reach))
  have hwindow : slice? line (min d.hidden line.length) (min 80 line.length) =
      some ((line.take d.reach).drop d.hidden) := by
    rw [Nat.min_eq_right hhidden, Nat.min_eq_right hshort, slice?_of_le (Nat.le_refl _)
      (Nat.le_refl _), List.take_of_length_le hreach, List.drop_eq_nil_of_le hhidden]
    simp
  have hnext : ¬81 % wordSize < line.length := by
    unfold wordSize
    omega
  have hbeyond : ¬d.reach + 1 < line.length := by omega
  unfold renderRows
  simp only [hwindow, Overflow.add_wrapping, slice?_front, rows, excerpt, closing, indent]
  simp [hnext, hbeyond]
  split <;> rfl

/-- **Whatever is made is the report**, except for one column: there the sum behind the window comes
out as zero. -/
theorem eq_report_of_render {made : String} (h : d.Held) (hcolumn : d.column + 21 ≠ wordSize)
    (hmade : d.render overflow = some made) : made = d.report := by
  have hbreaks : ¬d.Breaks overflow := by
    rw [← render_eq_none_iff h, hmade]
    nofun
  refine Option.some.inj (hmade.symm.trans ?_)
  cases overflow with
  | checked =>
    unfold Breaks at hbreaks
    exact render_of_fits ⟨by omega, by omega⟩ _
  | wrapping =>
    refine render_eq_report (Overflow.add_wrapping _ _) (lastShown_wrapping h)
      (Overflow.add_wrapping _ _) fun number line hshown => ?_
    rcases Nat.lt_or_ge (d.column + 20) wordSize with hsmall | hlarge
    · rw [Nat.mod_eq_of_lt (show d.column + trail < wordSize from hsmall)]
      refine renderRows_eq ?_ number line
      unfold wordSize at *
      unfold reach trail minWidth
      omega
    · rw [(window_wrapping h hlarge).1]
      refine renderRows_of_short h hlarge (Nat.le_of_not_lt fun hlong => hbreaks ?_) number
      exact ⟨hlarge, number, line, hshown, hlong⟩

end Diagnostic

end SvgTidy
