import SvgTidy.Markup.Entity

/-!
# References

Text and attribute values hold references: an ampersand, a name and a semicolon. A name that begins
with `#` gives a character by its number, any other is looked up in the entity table. `expand`
replaces them all from left to right; a replacement is not read again. `badReference?` says what to
blame when that fails.
-/

namespace SvgTidy.Markup

/-! ## Numbered characters -/

/-- The value of a digit in a base up to sixteen. -/
def digit? (base : Nat) (c : Char) : Option Nat :=
  let value? :=
    if '0' ≤ c ∧ c ≤ '9' then some (c.toNat - '0'.toNat)
    else if 'a' ≤ c ∧ c ≤ 'f' then some (c.toNat - 'a'.toNat + 10)
    else if 'A' ≤ c ∧ c ≤ 'F' then some (c.toNat - 'A'.toNat + 10)
    else none
  value?.filter (· < base)

/-- The number that a non-empty run of digits writes. -/
def number? (base : Nat) : List Char → Option Nat
  | [] => none
  | digits => digits.foldlM (fun n c => (digit? base c).map (n * base + ·)) 0

/-- The character with a number. Zero stands for none. -/
def character? (code : Nat) : Option Char :=
  if code ≠ 0 ∧ code.isValidChar then some (Char.ofNat code) else none

/-- The character that a numeric reference names, the text after its `#` being given: digits in base
ten, or in base sixteen after an `x`. -/
def numbered? : List Char → Option Char
  | 'x' :: digits => (number? 16 digits).bind character?
  | digits => (number? 10 digits).bind character?

/-! ## Expansion -/

/-- What a reference stands for, its name being given. -/
def replacement? (table : EntityTable) : List Char → Option (List Char)
  | '#' :: code => (numbered? code).map ([·])
  | name => table.resolve? name

/-- A character that ends the name of a reference. -/
def endsName (c : Char) : Bool :=
  c == '&' || c == ';'

/-- The text with its references replaced, or nothing if one of them stands for nothing. -/
def expand (table : EntityTable) : List Char → Option (List Char)
  | [] => some []
  | '&' :: rest =>
    match h : rest.dropWhile (!endsName ·) with
    | ';' :: after =>
      have : after.length < rest.length + 1 := by
        have := (List.dropWhile_suffix (!endsName ·) (l := rest)).length_le
        rw [h] at this
        exact Nat.lt_succ_of_lt this
      match replacement? table (rest.takeWhile (!endsName ·)), expand table after with
      | some replaced, some expanded => some (replaced ++ expanded)
      | _, _ => none
    | _ => none
  | c :: rest => (expand table rest).map (c :: ·)
termination_by text => text.length

/-! ## The reference to blame -/

/-- Read a number, passing over a leading plus sign. -/
def signedNumber? (base : Nat) : List Char → Option Nat
  | '+' :: digits => number? base digits
  | digits => number? base digits

/-- Whether a name is taken for that of a reference when the one to blame is looked for. A plus sign
before the digits of a number does not count against it here. -/
def isBlameless (table : EntityTable) : List Char → Bool
  | '#' :: 'x' :: digits => ((signedNumber? 16 digits).bind character?).isSome
  | '#' :: digits => ((signedNumber? 10 digits).bind character?).isSome
  | name => (table.resolve? name).isSome

/-- The text before the first ampersand to blame: one that no semicolon follows, or whose name, up
to the first semicolon after it, is not that of a reference. -/
def badReference? (table : EntityTable) : List Char → Option (List Char)
  | [] => none
  | c :: rest =>
    if c = '&' ∧ ¬ (';' ∈ rest ∧ isBlameless table (rest.takeWhile (· != ';'))) then some []
    else (badReference? table rest).map (c :: ·)

/-- The text with its references replaced. A failure carries the text before the reference to blame,
or nothing where none is found. -/
def decode (table : EntityTable) (raw : List Char) : Except (List Char) (List Char) :=
  match expand table raw with
  | some text => .ok text
  | none => .error ((badReference? table raw).getD [])

end SvgTidy.Markup
