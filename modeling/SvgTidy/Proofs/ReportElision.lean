import SvgTidy.Proofs.ErrorReports

/-!
# What a report leaves out of a line

The window parts a line into what stands before it, what it shows, and what lies beyond
(`Diagnostic.Parted`). An ellipsis behind the part shown says that there is more, but not for a
single character: a line that is longer than the window by one loses its last character without a
mark.

Principal results: `getElem?_of_mem_shown` — which lines a report shows; `closing_eq_iff` — when the
mark is there; `report_elides` — this for every line of every report.
-/

namespace SvgTidy.Diagnostic

variable {d : Diagnostic} {line before inside beyond : List Char}

/-- The three parts of a line: the columns before the window, those in it, and those beyond. -/
structure Parted (d : Diagnostic) (line before inside beyond : List Char) : Prop where
  eq_append : line = before ++ inside ++ beyond
  length_before : before.length = min (d.column - 54) line.length
  length_shown : before.length + inside.length = min (max (d.column + 20) 80) line.length

/-- The window parts every line. -/
theorem parted_window (d : Diagnostic) (line : List Char) :
    d.Parted line (line.take d.hidden) ((line.take d.reach).drop d.hidden) (line.drop d.reach) := by
  have hwindow : d.hidden ≤ d.reach := Nat.le_trans d.hidden_le (Nat.le_of_lt d.lt_reach)
  have hfront : line.take d.hidden = (line.take d.reach).take d.hidden := by
    rw [List.take_take, Nat.min_eq_left hwindow]
  have htake : line.take d.hidden ++ (line.take d.reach).drop d.hidden = line.take d.reach := by
    rw [hfront, List.take_append_drop]
  refine ⟨?_, ?_, ?_⟩
  · rw [htake, List.take_append_drop]
  · rw [List.length_take]
    rfl
  · rw [← List.length_append, htake, List.length_take]
    rfl

namespace Parted

variable (h : d.Parted line before inside beyond)
include h

/-- Beyond the window is what the line is longer than it. -/
theorem length_beyond : beyond.length = line.length - d.reach := by
  have hparts := congrArg List.length h.eq_append
  have hshown : before.length + inside.length = min d.reach line.length := h.length_shown
  rw [List.length_append, List.length_append] at hparts
  omega

/-- **The mark is there where more than one character lies beyond the window.** -/
theorem closing_eq_iff : d.closing line = ['…'] ↔ 1 < beyond.length := by
  rw [h.length_beyond, closing]
  split <;> simp <;> omega

theorem closing_eq_nil_iff : d.closing line = [] ↔ beyond.length ≤ 1 := by
  rw [h.length_beyond, closing]
  split <;> simp <;> omega

end Parted

/-! ## Lines of a report -/

/-- Whatever the diagnostic says, the lines shown are lines of the text under their own numbers. -/
theorem getElem?_of_mem_shown {number : Nat} (h : (number, line) ∈ d.shown) :
    1 ≤ number ∧ d.lines[number - 1]? = some line := by
  obtain ⟨⟨shown, index⟩, hindex, heq⟩ := List.mem_map.mp h
  obtain ⟨rfl, rfl⟩ := Prod.mk.inj heq
  refine ⟨by omega, ?_⟩
  rw [List.mem_zipIdx_iff_getElem?, List.getElem?_drop, List.getElem?_take] at hindex
  rw [show d.skipped + 1 + index - 1 = d.skipped + index by omega]
  split at hindex
  · exact hindex
  · cases hindex

/-- A line is shown in a row of its own, the first one of its rows. -/
theorem head?_rows (d : Diagnostic) (number : Nat) (line : List Char) :
    ∃ sign, (d.rows number line).head? = some (sign :: d.gutter number ++ d.excerpt line) := by
  unfold rows
  split
  · exact ⟨'>', rfl⟩
  · exact ⟨' ', rfl⟩

/-- **Of every line of every report, what lies beyond the window is marked as left out, unless it is
a single character.** A report consists of the rows of the lines shown; a row shows of its line the
part in the window and behind it an ellipsis exactly if two characters or more lie beyond. So the
mark tells whether the line goes on beyond the window for all lines but those that go on for one
character, which is left out without a mark. What is made of a diagnostic is this report, if
anything is, whatever becomes of sums that are too large; the column for which the one behind the
window comes out as zero is left aside. -/
theorem report_elides (d : Diagnostic) :
    d.lines = (d.text.splitOn '\n').map stripReturn ∧
    d.report = name ++ ": " ++ d.message ++ "\n\n" ++
      "\n".intercalate ((d.shown.flatMap fun (number, line) => d.rows number line).map
        String.ofList) ++ "\n" ∧
    (∀ number line, (number, line) ∈ d.shown →
      (1 ≤ number ∧ d.lines[number - 1]? = some line) ∧
      ∃ before inside beyond sign mark, d.Parted line before inside beyond ∧
        (d.rows number line).head? =
          some (sign :: d.gutter number ++ (d.opening line ++ inside ++ mark)) ∧
        (mark = ['…'] ↔ 1 < beyond.length) ∧ (mark = [] ↔ beyond.length ≤ 1) ∧
        (line.length ≠ max (d.column + 20) 80 + 1 →
          (mark = ['…'] ↔ max (d.column + 20) 80 < line.length))) ∧
    (d.Held → d.column + 21 ≠ wordSize → ∀ overflow made, d.render overflow = some made →
      made = d.report) := by
  refine ⟨by rw [lines_eq, Text.split_eq_splitOn], rfl, fun number line hshown => ?_,
    fun hheld hcolumn _ _ hmade => eq_report_of_render hheld hcolumn hmade⟩
  refine ⟨getElem?_of_mem_shown hshown, ?_⟩
  have hparted := d.parted_window line
  obtain ⟨sign, hrow⟩ := d.head?_rows number line
  refine ⟨_, _, _, sign, d.closing line, hparted, hrow, hparted.closing_eq_iff,
    hparted.closing_eq_nil_iff, fun hlength => ?_⟩
  have hbeyond : (line.drop d.reach).length = line.length - max (d.column + 20) 80 :=
    hparted.length_beyond
  rw [hparted.closing_eq_iff, hbeyond]
  omega

/-- A text of one line that is longer than the window by one character. -/
def overlong : Diagnostic where
  reason := "boom"
  line := 1
  column := 1
  source := String.ofList (List.replicate 81 'a')
  path := none

/-- Eighty characters are shown, and nothing says that there is one more. -/
theorem report_elides_overlong :
    (1, List.replicate 81 'a') ∈ overlong.shown ∧
      overlong.report = String.ofList ("SvgoParserError: <input>:1:1: boom\n\n> 1 | ".toList ++
        List.replicate 80 'a' ++ "\n    | ^\n".toList) ∧
      ∃ before inside beyond sign mark,
        overlong.Parted (List.replicate 81 'a') before inside beyond ∧
        (overlong.rows 1 (List.replicate 81 'a')).head? = some (sign :: overlong.gutter 1 ++
          (overlong.opening (List.replicate 81 'a') ++ inside ++ mark)) ∧
        beyond.length = 1 ∧ mark = [] := by
  have hshown : (1, List.replicate 81 'a') ∈ overlong.shown := by decide +kernel
  refine ⟨hshown, by decide +kernel, ?_⟩
  obtain ⟨-, before, inside, beyond, sign, mark, hparted, hrow, -, hnone, -⟩ :=
    (report_elides overlong).2.2.1 1 _ hshown
  have hbeyond : beyond.length = 1 := hparted.length_beyond
  exact ⟨before, inside, beyond, sign, mark, hparted, hrow, hbeyond, hnone.mpr hbeyond.le⟩

end SvgTidy.Diagnostic
