import SvgTidy.Text.Split

/-!
# Diagnostics

What is reported about a text that was refused: a one-line message, and a report that shows the
lines around the place with a caret under it.

A line of the report shows the columns after `Diagnostic.hidden` and up to `Diagnostic.reach`. The
caret line repeats the tabs of the line above it, so that the caret stands under its character
however wide a tab is shown.

`Diagnostic.report` is the report on numbers of any size. `Diagnostic.render` makes it with the
numbers of the machine: a sum may be too large for them (`Overflow`), and there is no report where
the bounds of a slice are out of order or beyond its end.
-/

namespace SvgTidy

/-- The numbers of the machine are those below this one. -/
def wordSize : Nat := 18446744073709551616

/-- What becomes of a sum that no number of the machine can hold: the program gives up, or goes on
with the sum modulo the word size. Which of the two it is depends on how the program was built. -/
inductive Overflow where
  | checked
  | wrapping
  deriving DecidableEq, Repr

/-- The sum of two numbers of the machine. -/
def Overflow.add (overflow : Overflow) (a b : Nat) : Option Nat :=
  if a + b < wordSize then some (a + b)
  else match overflow with
    | .checked => none
    | .wrapping => some ((a + b) % wordSize)

/-- Why and where a text was refused. Line and column count from 1. -/
structure Diagnostic where
  reason : String
  line : Nat
  column : Nat
  /-- The text that was refused. -/
  source : String
  /-- Where the text came from, if known. -/
  path : Option String
  deriving DecidableEq, Repr

namespace Diagnostic

/-- The name under which reports introduce themselves. -/
def name : String := "SvgoParserError"

/-- Path, line, column and reason on one line. -/
def message (d : Diagnostic) : String :=
  let path := d.path.getD "<input>"
  s!"{path}:{d.line}:{d.column}: {d.reason}"

/-! ## The window of columns -/

/-- The number of columns of a line that are shown before the column in question. -/
def lead : Nat := 54

/-- The number of columns of a line that are shown after the column in question. -/
def trail : Nat := 20

/-- The number of columns up to which a line is always shown. -/
def minWidth : Nat := 80

/-- The columns before the window, which are left out. -/
def hidden (d : Diagnostic) : Nat :=
  d.column - lead

/-- The column after the last one in the window. -/
def reach (d : Diagnostic) : Nat :=
  max (d.column + trail) minWidth

/-! ## Lines -/

/-- A line without the carriage return at its end. -/
def stripReturn (line : List Char) : List Char :=
  if line.getLast? = some '\r' then line.dropLast else line

/-- The lines of the text, a leading byte order mark left out. -/
def lines (d : Diagnostic) : List (List Char) :=
  let text := match d.source.toList with
    | '\uFEFF' :: rest => rest
    | text => text
  (Text.split '\n' text).map stripReturn

/-- The number of lines before the first one shown. -/
def skipped (d : Diagnostic) : Nat :=
  min (d.line - 3) d.lines.length

/-- The number of the last line shown. -/
def lastShown (d : Diagnostic) : Nat :=
  max (min (d.line + 2) d.lines.length) d.skipped

/-- A number between a blank and a bar, as wide as the last number shown. -/
def label (last number : Nat) : List Char :=
  let width := (Nat.toDigits 10 last).length
  let digits := Nat.toDigits 10 number
  ' ' :: List.replicate (width - digits.length) ' ' ++ digits ++ " | ".toList

/-- The label of a line, as wide as the widest number shown. -/
def gutter (d : Diagnostic) (number : Nat) : List Char :=
  label d.lastShown number

/-- What stands before the shown part of a line: an ellipsis where characters are left out, and a
blank where the line ends before the window. -/
def opening (d : Diagnostic) (line : List Char) : List Char :=
  if d.hidden = 0 then [] else if line.length ≤ d.hidden then [' '] else ['…']

/-- What stands after the shown part of a line. -/
def closing (d : Diagnostic) (line : List Char) : List Char :=
  if d.reach + 1 < line.length then ['…'] else []

/-- A line as shown, without its number. -/
def excerpt (d : Diagnostic) (line : List Char) : List Char :=
  d.opening line ++ (line.take d.reach).drop d.hidden ++ d.closing line

/-- White space as wide as the part of the excerpt before the column in question. -/
def indent (d : Diagnostic) (line : List Char) : List Char :=
  (d.opening line ++ (line.take (max (d.column - 1) d.hidden)).drop d.hidden).map fun c =>
    if c = '\t' then '\t' else ' '

/-- The rows of the report for one line: the line itself, and the caret line below the failing one.
-/
def rows (d : Diagnostic) (number : Nat) (line : List Char) : List (List Char) :=
  let gutter := d.gutter number
  if number = d.line then
    [ '>' :: gutter ++ d.excerpt line,
      ' ' :: gutter.map (fun c => if c = '|' then '|' else ' ') ++ d.indent line ++ ['^'] ]
  else [' ' :: gutter ++ d.excerpt line]

/-- Lines with their numbers, the first of them being behind those that are skipped. -/
def numbered (d : Diagnostic) (lines : List (List Char)) : List (Nat × List Char) :=
  lines.zipIdx.map fun (line, index) => (d.skipped + 1 + index, line)

/-- The lines shown, with their numbers. -/
def shown (d : Diagnostic) : List (Nat × List Char) :=
  d.numbered ((d.lines.take d.lastShown).drop d.skipped)

/-- Name, message, an empty line, and rows. -/
def layOut (d : Diagnostic) (rows : List (List Char)) : String :=
  s!"{name}: {d.message}\n\n"
    ++ "\n".intercalate (rows.map String.ofList) ++ "\n"

/-- The whole report: the lines around the place. -/
def report (d : Diagnostic) : String :=
  d.layOut (d.shown.flatMap fun (number, line) => d.rows number line)

/-! ## Reports as they are made -/

/-- The part of a list from one index up to another, if they are in order and not beyond its end. -/
def slice? {α : Type} (list : List α) (first last : Nat) : Option (List α) :=
  if first ≤ last ∧ last ≤ list.length then some ((list.take last).drop first) else none

/-- The rows for one line, where the last line shown and the end of the window are known. -/
def renderRows (overflow : Overflow) (d : Diagnostic) (last reach number : Nat)
    (line : List Char) : Option (List (List Char)) := do
  let clamp (index : Nat) := min index line.length
  let window ← slice? line (clamp d.hidden) (clamp reach)
  let next ← overflow.add reach 1
  let excerpt := d.opening line ++ window ++ if next < line.length then ['…'] else []
  let gutter := label last number
  if number = d.line then
    let front ← slice? line (clamp d.hidden) (max (clamp (d.column - 1)) (clamp d.hidden))
    let indent := (d.opening line ++ front).map fun c => if c = '\t' then '\t' else ' '
    return [ '>' :: gutter ++ excerpt,
      ' ' :: gutter.map (fun c => if c = '|' then '|' else ' ') ++ indent ++ ['^'] ]
  else
    return [' ' :: gutter ++ excerpt]

/-- The report, if the sums that are needed can be formed and all slices are in range. -/
def render (overflow : Overflow) (d : Diagnostic) : Option String := do
  let below ← overflow.add d.line 2
  let last := max (min below d.lines.length) d.skipped
  let right ← overflow.add d.column trail
  let reach := max right minWidth
  let shown ← slice? d.lines d.skipped last
  let rows ← (d.numbered shown).mapM fun (number, line) =>
    d.renderRows overflow last reach number line
  return d.layOut rows.flatten

end Diagnostic

end SvgTidy
