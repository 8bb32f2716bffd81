import SvgTidy.Proofs.FlawPositions
import SvgTidy.Proofs.ReportSlices
import SvgTidy.Proofs.SeparatedParts

/-!
# Reports show where a text was refused

A diagnostic of a text that was refused gives the line and column of a place in it
(`Diagnostic.Located`): the numbers of line feeds before the place, and of characters between the
last of these and the place. Its report consists of the lines around the place and of a caret row
below the failing line (`Diagnostic.body`). The row of the failing line is parted at the place: what
stands to the left of it is as long as the caret row before the caret, so the caret is below the
first character to the right, or after the end of the row.

Principal results: `Located.lineAt_eq` — the line of a place; `rows_eq_body` — the rows of a report;
`Located.shows` — what a report shows; `Document.read_reports` — this for every failure to read.
-/

namespace SvgTidy

namespace Diagnostic

theorem stripReturn_prefix (line : List Char) : stripReturn line <+: line := by
  unfold stripReturn
  split
  · exact List.dropLast_prefix line
  · exact List.prefix_rfl

theorem length_le_stripReturn (line : List Char) : line.length ≤ (stripReturn line).length + 1 := by
  unfold stripReturn
  split
  · rw [List.length_dropLast]
    omega
  · exact Nat.le_succ _

/-- The line with a number. -/
def lineAt (d : Diagnostic) (number : Nat) : List Char :=
  d.lines.getD (number - 1) []

/-- The number of the first line shown. -/
def firstShown (d : Diagnostic) : Nat :=
  max 1 (d.line - 2)

/-- The row that shows a line. -/
def sourceRow (d : Diagnostic) (mark : Char) (number : Nat) : List Char :=
  mark :: d.gutter number ++ d.excerpt (d.lineAt number)

variable {d : Diagnostic} {before after : List Char}

/-! ## The place -/

/-- The place is between two parts of the text. -/
structure Located (d : Diagnostic) (before after : List Char) : Prop where
  text : d.text = before ++ after
  line : d.line = before.count '\n' + 1
  column : d.column = (before.rtakeWhile (· != '\n')).length + 1

namespace Located

variable (h : d.Located before after)
include h

theorem line_pos : 1 ≤ d.line := by
  rw [h.line]
  exact Nat.le_add_left _ _

theorem column_pos : 1 ≤ d.column := by
  rw [h.column]
  exact Nat.le_add_left _ _

/-- Neither number is greater than the length of the text allows. -/
theorem numbers_le : d.line ≤ d.text.length + 1 ∧ d.column ≤ d.text.length + 1 := by
  have hcount : before.count '\n' ≤ before.length := List.count_le_length
  have hlast : (before.rtakeWhile (· != '\n')).length ≤ before.length :=
    (List.rtakeWhile_suffix _ _).length_le
  rw [h.line, h.column, h.text, List.length_append]
  omega

/-- The line is one of the lines of the text. -/
theorem line_le : d.line ≤ d.lines.length := by
  rw [length_lines, h.text, h.line, List.count_append]
  omega

/-- The failing line goes on from what stands before the place to what stands after it. -/
theorem lineAt_eq : d.lineAt d.line =
    stripReturn (before.rtakeWhile (· != '\n') ++ after.takeWhile (· != '\n')) := by
  rw [lineAt, List.getD_eq_getElem?_getD, lines_eq, List.getElem?_map, h.line,
    Nat.add_sub_cancel, h.text, Text.getElem?_split]
  rfl

/-- The place is at most behind the line feed that ends the line. -/
theorem column_le : d.column ≤ (d.lineAt d.line).length + 2 := by
  have hlength := length_le_stripReturn
    (before.rtakeWhile (· != '\n') ++ after.takeWhile (· != '\n'))
  rw [← h.lineAt_eq, List.length_append] at hlength
  rw [h.column]
  omega

/-- The column is that of the first character after the place, unless the line ends before. -/
theorem getElem?_lineAt (hinside : d.column ≤ (d.lineAt d.line).length) :
    (d.lineAt d.line)[d.column - 1]? = after.head? := by
  have hpos : d.column - 1 < (d.lineAt d.line).length := by
    have := h.column_pos
    omega
  rw [List.getElem?_eq_getElem hpos]
  generalize hc : (d.lineAt d.line)[d.column - 1] = c
  have hprefix := stripReturn_prefix
    (before.rtakeWhile (· != '\n') ++ after.takeWhile (· != '\n'))
  rw [← h.lineAt_eq, List.prefix_iff_getElem?] at hprefix
  have hchar := hprefix (d.column - 1) hpos
  rw [hc, h.column, Nat.add_sub_cancel, List.getElem?_append_right (Nat.le_refl _), Nat.sub_self,
    ← List.head?_eq_getElem?, List.head?_takeWhile, Option.filter_eq_some_iff] at hchar
  exact hchar.1.symm

end Located

/-! ## The lines shown -/

theorem length_shown (d : Diagnostic) : d.shown.length = d.lastShown - d.skipped := by
  have hend := d.lastShown_eq
  have hlines : d.skipped ≤ d.lines.length := Nat.min_le_right _ _
  rw [shown, numbered, List.length_map, List.length_zipIdx, List.length_drop, List.length_take]
  omega

section Numbers

variable (hlast : d.line ≤ d.lines.length)
include hlast

theorem skipped_eq : d.skipped + 1 = d.firstShown := by
  unfold firstShown skipped
  omega

/-- What is shown are the lines with these numbers. -/
theorem shown_eq : d.shown = (List.range' d.firstShown (d.lastShown + 1 - d.firstShown)).map
    fun number => (number, d.lineAt number) := by
  have hskipped := skipped_eq hlast
  have hend := d.lastShown_eq
  have hlength := d.length_shown
  refine List.ext_getElem ?_ fun index hindex _ => ?_
  · rw [hlength, List.length_map, List.length_range']
    omega
  · rw [hlength] at hindex
    have hinside : d.skipped + index < d.lines.length := by omega
    have hline : d.lineAt (d.firstShown + index) = d.lines[d.skipped + index] := by
      rw [lineAt, List.getD_eq_getElem?_getD, ← hskipped,
        show d.skipped + 1 + index - 1 = d.skipped + index by omega,
        List.getElem?_eq_getElem hinside, Option.getD_some]
    simp [shown, numbered, hline, hskipped]

end Numbers

/-! ## Rows -/

/-- A line that fits into the window is shown whole. -/
theorem excerpt_eq_self (hcolumn : d.column ≤ lead) {line : List Char}
    (hline : line.length ≤ d.reach) : d.excerpt line = line := by
  have hhidden : d.hidden = 0 := Nat.sub_eq_zero_of_le hcolumn
  have hclosing : d.closing line = [] := if_neg (by omega)
  rw [excerpt, hclosing, opening, if_pos hhidden, hhidden, List.take_of_length_le hline]
  simp

/-- What stands below the gutter of the failing line. -/
def margin (d : Diagnostic) : List Char :=
  ' ' :: (d.gutter d.line).map (fun c => if c = '|' then '|' else ' ') ++ d.indent (d.lineAt d.line)

/-- The rows of the report, in order. -/
def body (d : Diagnostic) : List (List Char) :=
  (List.range' d.firstShown (d.line - d.firstShown)).map (d.sourceRow ' ') ++
    [d.sourceRow '>' d.line, d.margin ++ ['^']] ++
    (List.range' (d.line + 1) (d.lastShown - d.line)).map (d.sourceRow ' ')

theorem rows_of_ne {number : Nat} (h : number ≠ d.line) :
    d.rows number (d.lineAt number) = [d.sourceRow ' ' number] := by
  rw [rows, if_neg h]
  rfl

theorem flatMap_rows {numbers : List Nat} (h : d.line ∉ numbers) :
    (numbers.map fun number => (number, d.lineAt number)).flatMap
      (fun (number, line) => d.rows number line) = numbers.map (d.sourceRow ' ') := by
  rw [List.flatMap_map, List.map_eq_flatMap]
  refine List.flatMap_congr fun number hnumber => rows_of_ne ?_
  rintro rfl
  exact h hnumber

/-- **The rows of the report** are those of the lines around the place, and the caret row below the
failing one. -/
theorem rows_eq_body (h : 1 ≤ d.line) (hlast : d.line ≤ d.lines.length) :
    d.shown.flatMap (fun (number, line) => d.rows number line) = d.body := by
  have hend := d.lastShown_eq
  have hfirst : d.firstShown ≤ d.line := by
    unfold firstShown
    omega
  have hsplit : List.range' d.firstShown (d.lastShown + 1 - d.firstShown) =
      List.range' d.firstShown (d.line - d.firstShown) ++
        d.line :: List.range' (d.line + 1) (d.lastShown - d.line) := by
    have happend := List.range'_append_1 (s := d.firstShown) (m := d.line - d.firstShown)
      (n := d.lastShown - d.line + 1)
    rw [Nat.add_sub_cancel' hfirst, List.range'_succ] at happend
    rw [happend]
    congr 1
    omega
  have hbefore : d.line ∉ List.range' d.firstShown (d.line - d.firstShown) := by
    rw [List.mem_range'_1]
    omega
  have hafter : d.line ∉ List.range' (d.line + 1) (d.lastShown - d.line) := by
    rw [List.mem_range'_1]
    omega
  rw [shown_eq hlast, hsplit, List.map_append, List.map_cons, List.flatMap_append,
    List.flatMap_cons, flatMap_rows hbefore, flatMap_rows hafter, body, List.append_assoc]
  show _ ++ (d.rows d.line (d.lineAt d.line) ++ _) = _
  rw [rows, if_pos rfl]
  rfl

theorem report_eq_body (h : 1 ≤ d.line) (hlast : d.line ≤ d.lines.length) :
    d.report = name ++ ": " ++ d.message ++ "\n\n" ++
      "\n".intercalate (d.body.map String.ofList) ++ "\n" := by
  rw [← rows_eq_body h hlast]
  rfl

/-! ## Labels -/

/-- No number takes more digits than a greater one. -/
theorem length_toDigits_le {number last : Nat} (h : number ≤ last) :
    (Nat.toDigits 10 number).length ≤ (Nat.toDigits 10 last).length := by
  have hpos : 0 < (Nat.toDigits 10 last).length := Nat.length_toDigits_pos
  rw [Nat.length_toDigits_le_iff (by decide) hpos]
  exact Nat.lt_of_le_of_lt h
    ((Nat.length_toDigits_le_iff (by decide) hpos).mp (Nat.le_refl _))

theorem toList_toString (n : Nat) : (toString n).toList = Nat.toDigits 10 n := by
  simp [Nat.repr]

theorem length_toString (n : Nat) : (toString n).length = (Nat.toDigits 10 n).length := by
  rw [← String.length_toList, toList_toString]

/-- A number is written in digits behind blanks, and a bar stands behind it. -/
theorem gutter_eq (d : Diagnostic) (number : Nat) :
    d.gutter number = ' ' :: (toString number).toList.leftpad (toString d.lastShown).length ' ' ++
      " | ".toList := by
  rw [toList_toString, length_toString]
  rfl

theorem length_gutter {number : Nat} (h : number ≤ d.lastShown) :
    (d.gutter number).length = (toString d.lastShown).length + 4 := by
  have hle := length_toDigits_le h
  rw [← length_toString, ← length_toString] at hle
  rw [gutter_eq, List.length_append, List.length_cons, List.length_leftpad, String.length_toList,
    Nat.max_eq_left hle]
  rfl

theorem mem_gutter {number : Nat} {c : Char} (h : c ∈ d.gutter number) :
    c = ' ' ∨ c = '|' ∨ c.isDigit := by
  simp only [gutter, label, List.cons_append, List.mem_cons, List.mem_append, List.mem_replicate] at h
  rcases h with rfl | (⟨-, rfl⟩ | hdigit) | hbar
  · exact .inl rfl
  · exact .inl rfl
  · exact .inr (.inr (Nat.isDigit_of_mem_toDigits (by decide) (by decide) hdigit))
  · rw [show " | ".toList = [' ', '|', ' '] from rfl] at hbar
    simp only [List.mem_cons, List.not_mem_nil, or_false] at hbar
    tauto

/-! ## The caret -/

/-- The part of the failing row that stands before the place. -/
def left (d : Diagnostic) : List Char :=
  '>' :: d.gutter d.line ++
    (d.opening (d.lineAt d.line) ++ ((d.lineAt d.line).take (d.column - 1)).drop d.hidden)

/-- The part of the failing row from the place on. -/
def right (d : Diagnostic) : List Char :=
  ((d.lineAt d.line).take d.reach).drop (d.column - 1) ++ d.closing (d.lineAt d.line)

/-- What stands in the caret row below a character: a tab below a tab, else a blank or a bar. -/
def Under (above below : Char) : Prop :=
  if above = '\t' then below = '\t' else below = ' ' ∨ below = '|'

/-- **The failing row is parted at the place.** -/
theorem sourceRow_eq_left_append_right (d : Diagnostic) :
    d.sourceRow '>' d.line = d.left ++ d.right := by
  have hhidden := d.hidden_le
  have hreach := d.lt_reach
  have htake : ((d.lineAt d.line).take d.reach).take (d.column - 1) =
      (d.lineAt d.line).take (d.column - 1) := by
    rw [List.take_take, Nat.min_eq_left hreach.le]
  have hwindow := List.take_append_drop (d.column - 1 - d.hidden)
    (((d.lineAt d.line).take d.reach).drop d.hidden)
  rw [List.take_drop, Nat.add_sub_cancel' hhidden, htake, List.drop_drop,
    Nat.add_sub_cancel' hhidden] at hwindow
  rw [sourceRow, excerpt, ← hwindow, left, right]
  simp only [List.cons_append, List.append_assoc]

theorem head?_right (d : Diagnostic) :
    d.right.head? = (d.lineAt d.line)[d.column - 1]? := by
  have hreach := d.lt_reach
  rcases Nat.lt_or_ge (d.column - 1) (d.lineAt d.line).length with h | h
  · have hne : ((d.lineAt d.line).take d.reach).drop (d.column - 1) ≠ [] := by
      rw [Ne, List.drop_eq_nil_iff, List.length_take]
      omega
    rw [right, List.head?_append_of_ne_nil _ hne, List.head?_drop, List.getElem?_take_of_lt hreach]
  · have hclosing : d.closing (d.lineAt d.line) = [] := if_neg (by omega)
    have hnil : ((d.lineAt d.line).take d.reach).drop (d.column - 1) = [] := by
      rw [List.drop_eq_nil_iff, List.length_take]
      omega
    rw [right, hclosing, hnil, List.getElem?_eq_none h]
    rfl

theorem under_gutter (d : Diagnostic) (number : Nat) :
    List.Forall₂ Under (d.gutter number)
      ((d.gutter number).map fun c => if c = '|' then '|' else ' ') := by
  rw [List.forall₂_map_right_iff, List.forall₂_same]
  intro c hc
  have hne : c ≠ '\t' := by
    rintro rfl
    simpa using mem_gutter hc
  rw [Under, if_neg hne]
  split <;> simp

/-- **The caret row is as long as what stands before the place**, and the caret follows. -/
theorem under_margin (d : Diagnostic) : List.Forall₂ Under d.left d.margin := by
  refine .cons (by simp [Under]) (List.rel_append (d.under_gutter d.line) ?_)
  rw [indent, Nat.max_eq_left d.hidden_le, List.forall₂_map_right_iff, List.forall₂_same]
  intro c _
  unfold Under
  split <;> simp

/-! ## Rows are lines -/

theorem not_mem_lineAt (d : Diagnostic) (number : Nat) : '\n' ∉ d.lineAt number := by
  rw [lineAt, List.getD_eq_getElem?_getD]
  cases h : d.lines[number - 1]? with
  | none => simp
  | some line =>
    have hmem := List.mem_of_getElem? h
    rw [lines_eq, List.mem_map] at hmem
    obtain ⟨part, hpart, rfl⟩ := hmem
    have hbreak := Text.not_mem_of_mem_split hpart
    rw [Option.getD_some, stripReturn]
    split
    · exact fun hc => hbreak ((List.dropLast_sublist part).subset hc)
    · exact hbreak

theorem not_mem_gutter (d : Diagnostic) (number : Nat) : '\n' ∉ d.gutter number :=
  fun hc => by simpa using mem_gutter hc

theorem not_mem_sourceRow {mark : Char} (hmark : '\n' ≠ mark) (number : Nat) :
    '\n' ∉ d.sourceRow mark number := by
  have hwindow : '\n' ∉ ((d.lineAt number).take d.reach).drop d.hidden :=
    fun hc => d.not_mem_lineAt number (List.mem_of_mem_take (List.mem_of_mem_drop hc))
  have hopening : '\n' ∉ d.opening (d.lineAt number) := by
    unfold opening
    split
    · simp
    · split <;> simp
  have hclosing : '\n' ∉ d.closing (d.lineAt number) := by
    unfold closing
    split <;> simp
  simp [sourceRow, excerpt, hmark, d.not_mem_gutter number, hwindow, hopening, hclosing]

theorem not_mem_margin (d : Diagnostic) : '\n' ∉ d.margin := by
  intro hc
  rw [margin, List.mem_append, List.mem_cons, indent, List.mem_map, List.mem_map] at hc
  rcases hc with (hc | ⟨c, -, hc⟩) | ⟨c, -, hc⟩
  · exact absurd hc (by decide)
  all_goals split at hc <;> exact absurd hc (by decide)

/-- No row of the report goes on in the next. -/
theorem not_mem_of_mem_body {row : List Char} (h : row ∈ d.body) : '\n' ∉ row := by
  simp only [body, List.mem_append, List.mem_map, List.mem_cons, List.not_mem_nil, or_false] at h
  rcases h with (⟨number, -, rfl⟩ | rfl | rfl) | ⟨number, -, rfl⟩
  · exact not_mem_sourceRow (by decide) number
  · exact not_mem_sourceRow (by decide) d.line
  · simp [d.not_mem_margin]
  · exact not_mem_sourceRow (by decide) number

/-! ## What a report shows -/

/-- The report shows the lines around a place, which `after` follows, and a caret below it. -/
structure Shows (d : Diagnostic) (after : List Char) : Prop where
  /-- Line feeds part the lines, and a carriage return before one is left out. -/
  lines : d.lines = (d.text.splitOn '\n').map stripReturn
  line_le : d.line ≤ d.lines.length
  /-- Line and column are no greater than the text is long, so that they fit where the text does. -/
  numbers_le : d.line ≤ d.text.length + 1 ∧ d.column ≤ d.text.length + 1
  /-- Lines are shown up to the second one after the failing one, if there are as many. -/
  lastShown : d.lastShown = min (d.line + 2) d.lines.length
  report : d.report = name ++ ": " ++ d.message ++ "\n\n" ++
    "\n".intercalate (d.body.map String.ofList) ++ "\n"
  /-- Each row of the report is one line. -/
  unbroken : ∀ row ∈ d.body, '\n' ∉ row
  /-- Numbers are filled up with blanks on the left. -/
  gutter : ∀ number, d.gutter number =
    ' ' :: (toString number).toList.leftpad (toString d.lastShown).length ' ' ++ " | ".toList
  /-- The bars behind the numbers stand below each other. -/
  aligned : ∀ number ≤ d.lastShown, (d.gutter number).length = (toString d.lastShown).length + 4
  /-- A line that fits into the window is not cut. -/
  whole : d.column ≤ lead → ∀ line : List Char, line.length ≤ d.reach → d.excerpt line = line
  parted : d.sourceRow '>' d.line = d.left ++ d.right
  /-- The caret stands below the first character of the right part. -/
  under : List.Forall₂ Under d.left d.margin
  /-- Inside the line, this is the character at the place. -/
  pointed : d.column ≤ (d.lineAt d.line).length →
    ∃ c, d.right.head? = some c ∧ after.head? = some c
  /-- Beyond the line, there is none, and the caret stands after the end of the row. -/
  past : (d.lineAt d.line).length < d.column → d.right = []
  /-- What is beyond the line is its carriage return and its line feed, or the end of the text. -/
  column_le : d.column ≤ (d.lineAt d.line).length + 2

/-- **The report shows the place**, wherever in the text it is. -/
theorem Located.shows (h : d.Located before after) : d.Shows after where
  lines := by rw [lines_eq, Text.split_eq_splitOn]
  line_le := h.line_le
  numbers_le := h.numbers_le
  lastShown := d.lastShown_eq
  report := report_eq_body h.line_pos h.line_le
  unbroken _ := not_mem_of_mem_body
  gutter := d.gutter_eq
  aligned _ := length_gutter
  whole hcolumn _ := excerpt_eq_self hcolumn
  parted := d.sourceRow_eq_left_append_right
  under := d.under_margin
  pointed hinside := by
    have hchar := h.getElem?_lineAt hinside
    have hpos : d.column - 1 < (d.lineAt d.line).length := by
      have := h.column_pos
      omega
    rw [List.getElem?_eq_getElem hpos] at hchar
    refine ⟨_, ?_, hchar.symm⟩
    rw [d.head?_right, List.getElem?_eq_getElem hpos]
  past hpast := by
    rw [← List.head?_eq_none_iff, d.head?_right, List.getElem?_eq_none]
    omega
  column_le := h.column_le

end Diagnostic

/-- What is reported of a text is a place in it. -/
theorem Document.located_of_read {source : String} {path : Option String} {d : Diagnostic}
    (h : Document.read source path = .error d) :
    d.source = source ∧ d.path = path ∧ ∃ before after, d.Located before after := by
  unfold Document.read at h
  split at h
  · cases h
  · rename_i flaw hassemble
    cases h
    obtain ⟨before, after, htext, hpos⟩ := Markup.points_of_assemble hassemble
    change _ = Position.start.advance before at hpos
    rw [Position.advance_start] at hpos
    have hline := congrArg Position.line hpos
    have hcolumn := congrArg Position.column hpos
    exact ⟨rfl, rfl, before, after, htext, hline, hcolumn⟩

/-- What is reported of a text fits, if a program can hold the text. -/
theorem Diagnostic.Located.fits {d : Diagnostic} {before after : List Char}
    (h : d.Located before after) (hsource : d.source.length < wordSize / 2) : d.Fits := by
  have htext := d.length_text_le
  obtain ⟨hline, hcolumn⟩ := h.numbers_le
  unfold wordSize at hsource
  constructor
  · unfold wordSize
    omega
  · unfold wordSize
    omega

/-- **Every failure points at a place of the text, and the report shows it**: line and column are
those of a character of the text or of its end, the report has the lines around it, and its caret
stands below that character or just past its line. This report is made, its sums and slices being in
range; so it is for every diagnostic with a smaller line and column than the last few numbers of the
machine, and for all others exactly if they do not break it. -/
theorem Document.read_reports {source : String} {path : Option String} {d : Diagnostic}
    (h : Document.read source path = .error d) :
    (d.source = source ∧ d.path = path ∧
      (∃ before after, d.Located before after ∧ d.Shows after) ∧
      (source.length < wordSize / 2 → ∀ overflow, d.render overflow = some d.report)) ∧
    ∀ any : Diagnostic,
      (any.Fits → ∀ overflow, any.render overflow = some any.report) ∧
      (any.Held → ∀ overflow, any.render overflow = none ↔ any.Breaks overflow) := by
  obtain ⟨rfl, hpath, before, after, hlocated⟩ := Document.located_of_read h
  refine ⟨⟨rfl, hpath, ⟨before, after, hlocated, hlocated.shows⟩, fun hsource => ?_⟩, fun any =>
    ⟨Diagnostic.render_of_fits, Diagnostic.render_eq_none_iff⟩⟩
  exact Diagnostic.render_of_fits (hlocated.fits hsource)

/-- A line of 81 characters, and the greatest column there is. -/
def Diagnostic.farOff : Diagnostic where
  reason := "boom"
  line := 1
  column := wordSize - 1
  source := String.ofList (List.replicate 81 'a')
  path := none

/-- An unquoted value after a byte order mark, carriage returns and a tab; and a diagnostic of which
no report can be made. -/
theorem Document.read_reports_unquoted :
    ∃ d : Diagnostic,
      Document.read "\uFEFF<svg>\r\n<g>\r\n\t<a b=1/>\r\n</g></svg>" none = .error d ∧
      d.line = 3 ∧ d.column = 7 ∧
      d.report =
        "SvgoParserError: <input>:3:7: Unquoted attribute value

  1 | <svg>
  2 | <g>
> 3 | \t<a b=1/>
    | \t     ^
  4 | </g></svg>
" ∧
      (∃ before after, d.Located before after ∧ d.Shows after) ∧
      (∀ overflow, d.render overflow = some d.report) ∧
      Diagnostic.farOff.Held ∧ ∀ overflow, Diagnostic.farOff.render overflow = none := by
  have hread : Document.read "\uFEFF<svg>\r\n<g>\r\n\t<a b=1/>\r\n</g></svg>" none =
      .error ⟨"Unquoted attribute value", 3, 7, "\uFEFF<svg>\r\n<g>\r\n\t<a b=1/>\r\n</g></svg>",
        none⟩ := by
    decide +kernel
  have hheld : Diagnostic.farOff.Held :=
    ⟨by decide +kernel, by decide +kernel, by decide +kernel⟩
  have hbreaks (overflow : Overflow) : Diagnostic.farOff.Breaks overflow := by
    cases overflow with
    | checked => exact .inr (.inl (by decide +kernel))
    | wrapping =>
      exact ⟨by decide +kernel, 1, List.replicate 81 'a', by decide +kernel, by decide +kernel⟩
  obtain ⟨⟨-, -, hplace, hmade⟩, hall⟩ := Document.read_reports hread
  exact ⟨_, hread, rfl, rfl, by decide +kernel, hplace, hmade (by decide +kernel), hheld,
    fun overflow => ((hall _).2 hheld overflow).mpr (hbreaks overflow)⟩

end SvgTidy
