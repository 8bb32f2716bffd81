import SvgTidy.Proofs.Escapes

/-!
# Characters as references

A character of text or of a value can be written in several ways: as it stands, by a predefined name,
or by its number in base ten or sixteen. `Spells` says that one text is written for another like
this, each of its characters in a way of its own.

Principal results: `Numeral.number?_eq` — digits are read as the number they write, in either case
and with any zeros before them; `Spells.expand_eq` — what spells a text expands to it.
-/

namespace SvgTidy.Markup

/-! ## Numerals -/

/-- A digit and its value. Beyond nine it may be written in either case. -/
def IsDigit (base value : Nat) (c : Char) : Prop :=
  value < base ∧ (c = value.digitChar ∨ c = value.digitChar.toUpper)

/-- The digits of a number, the highest first. Zeros may stand before it. -/
inductive Numeral (base : Nat) : Nat → List Char → Prop where
  | digit {value : Nat} {c : Char} (h : IsDigit base value c) : Numeral base value [c]
  | snoc {n value : Nat} {digits : List Char} {c : Char} (hmore : Numeral base n digits)
      (h : IsDigit base value c) : Numeral base (n * base + value) (digits ++ [c])

variable {base : Nat}

theorem digit?_of_isDigit (hbase : base ≤ 16) {value : Nat} {c : Char} (h : IsDigit base value c) :
    digit? base c = some value := by
  obtain ⟨hvalue, hc⟩ := h
  have hall : ∀ v < 16, digit? 16 v.digitChar = some v ∧ digit? 16 v.digitChar.toUpper = some v := by
    decide
  have hsixteen : digit? 16 c = some value := by
    have hboth := hall value (Nat.lt_of_lt_of_le hvalue hbase)
    rcases hc with rfl | rfl
    · exact hboth.1
    · exact hboth.2
  unfold digit? at hsixteen ⊢
  rw [Option.filter_eq_some_iff] at hsixteen ⊢
  exact ⟨hsixteen.1, by simpa using hvalue⟩

namespace Numeral

variable {n : Nat} {digits : List Char}

theorem digit?_ne_none (hbase : base ≤ 16) (h : Numeral base n digits) :
    ∀ c ∈ digits, digit? base c ≠ none := by
  induction h with
  | digit h =>
    intro c hc
    rw [List.mem_singleton.mp hc, digit?_of_isDigit hbase h]
    nofun
  | snoc _ h ih =>
    intro c hc
    rcases List.mem_append.mp hc with hc | hc
    · exact ih c hc
    · rw [List.mem_singleton.mp hc, digit?_of_isDigit hbase h]
      nofun

/-- What is no digit does not occur among digits. -/
theorem not_mem (hbase : base ≤ 16) (h : Numeral base n digits) {c : Char}
    (hc : digit? base c = none) : c ∉ digits :=
  fun hmem => h.digit?_ne_none hbase c hmem hc

/-- **Digits are read as the number they write.** -/
theorem number?_eq (hbase : base ≤ 16) (h : Numeral base n digits) :
    number? base digits = some n := by
  have hfold : digits.foldlM (fun n c => (digit? base c).map (n * base + ·)) 0 = some n := by
    induction h with
    | digit h => simp [digit?_of_isDigit hbase h]
    | snoc _ h ih => simp [List.foldlM_append, ih, digit?_of_isDigit hbase h]
  have hne : digits ≠ [] := by cases h <;> simp
  rwa [number?]
  exact hne

end Numeral

theorem character?_toNat {c : Char} (hc : c ≠ '\x00') : character? c.toNat = some c := by
  have hzero : c.toNat ≠ 0 := fun hzero => hc (Char.toNat_inj.mp hzero)
  rw [character?, if_pos ⟨hzero, c.valid⟩, Char.ofNat_toNat]

theorem numbered?_decimal {c : Char} (hc : c ≠ '\x00') {digits : List Char}
    (h : Numeral 10 c.toNat digits) : numbered? digits = some c := by
  have hx : 'x' ∉ digits := h.not_mem (by decide) rfl
  unfold numbered?
  split
  · simp at hx
  · rw [h.number?_eq (by decide), Option.bind_some, character?_toNat hc]

theorem numbered?_hexadecimal {c : Char} (hc : c ≠ '\x00') {digits : List Char}
    (h : Numeral 16 c.toNat digits) : numbered? ('x' :: digits) = some c := by
  rw [numbered?, h.number?_eq (by decide), Option.bind_some, character?_toNat hc]

/-! ## Characters -/

/-- A character and what may be written for it in a place that a mark ends. -/
inductive Spelled (mark c : Char) : List Char → Prop where
  | literal (hmark : c ≠ mark) (hampersand : c ≠ '&') : Spelled mark c [c]
  | predefined {name : List Char} (hname : (name, [c]) ∈ EntityTable.predefined) :
      Spelled mark c ('&' :: (name ++ [';']))
  | decimal {digits : List Char} (hc : c ≠ '\x00') (hdigits : Numeral 10 c.toNat digits) :
      Spelled mark c ('&' :: '#' :: (digits ++ [';']))
  | hexadecimal {digits : List Char} (hc : c ≠ '\x00') (hdigits : Numeral 16 c.toNat digits) :
      Spelled mark c ('&' :: '#' :: 'x' :: (digits ++ [';']))

/-- A text and what may be written for it, character by character. -/
inductive Spells (mark : Char) : List Char → List Char → Prop where
  | nil : Spells mark [] []
  | cons {c : Char} {raw text more : List Char} (hc : Spelled mark c raw)
      (hmore : Spells mark text more) : Spells mark (c :: text) (raw ++ more)

variable {mark : Char} {table : EntityTable}

theorem expand_numbered {code : List Char} {c : Char} (hcode : ∀ x ∈ code, endsName x = false)
    (hc : numbered? code = some c) (rest : List Char) :
    expand table ('&' :: '#' :: (code ++ ';' :: rest)) = (expand table rest).map (c :: ·) := by
  have hname : ∀ x ∈ '#' :: code, endsName x = false := by
    intro x hx
    rcases List.mem_cons.mp hx with rfl | hx
    · decide
    · exact hcode x hx
  have hreplace : replacement? table ('#' :: code) = some [c] := by
    rw [replacement?, hc]
    rfl
  rw [← List.cons_append, expand_reference hname, hreplace]
  cases expand table rest <;> rfl

theorem Numeral.endsName {n : Nat} {digits : List Char} (hbase : base ≤ 16)
    (h : Numeral base n digits) : ∀ x ∈ digits, endsName x = false := by
  intro x hx
  have hampersand : x ≠ '&' := fun heq => h.not_mem hbase rfl (heq ▸ hx)
  have hsemicolon : x ≠ ';' := fun heq => h.not_mem hbase rfl (heq ▸ hx)
  simp [Markup.endsName, hampersand, hsemicolon]

theorem Spelled.expand_append (h : table.KeepsPredefined) {c : Char} {raw : List Char}
    (hraw : Spelled mark c raw) (rest : List Char) :
    expand table (raw ++ rest) = (expand table rest).map (c :: ·) := by
  cases hraw with
  | literal _ hampersand => exact expand_cons hampersand rest
  | predefined hname =>
    rw [List.cons_append, List.append_assoc]
    exact expand_predefined (h.spares c) _ hname rest
  | decimal hc hdigits =>
    rw [List.cons_append, List.cons_append, List.append_assoc]
    exact expand_numbered (hdigits.endsName (by decide)) (numbered?_decimal hc hdigits) rest
  | @hexadecimal digits hc hdigits =>
    have hcode : ∀ x ∈ 'x' :: digits, endsName x = false := by
      intro x hx
      rcases List.mem_cons.mp hx with rfl | hx
      · decide
      · exact hdigits.endsName (by decide) x hx
    simpa using expand_numbered hcode (numbered?_hexadecimal hc hdigits) rest

/-- Whatever is written for a character, it is not nothing. -/
theorem Spelled.ne_nil {c : Char} {raw : List Char} (h : Spelled mark c raw) : raw ≠ [] := by
  cases h <;> simp

theorem Spelled.not_mem_bracket {c : Char} {raw : List Char} (h : Spelled '<' c raw) :
    '<' ∉ raw := by
  have hnames : ∀ entry ∈ EntityTable.predefined, '<' ∉ entry.1 := by decide
  cases h with
  | literal hmark _ => simpa using hmark.symm
  | predefined hname => simpa using hnames _ hname
  | decimal _ hdigits => simpa using hdigits.not_mem (by decide) (c := '<') rfl
  | hexadecimal _ hdigits => simpa using hdigits.not_mem (by decide) (c := '<') rfl

namespace Spells

variable {text raw : List Char}

/-- **What spells a text expands to it**, whatever the doctype declares beside the predefined names.
-/
theorem expand_eq (h : table.KeepsPredefined) (hraw : Spells mark text raw) :
    expand table raw = some text := by
  induction hraw with
  | nil => rw [expand]
  | cons hc _ ih =>
    rw [hc.expand_append h, ih]
    rfl

theorem append {text' raw' : List Char} (h : Spells mark text raw) (h' : Spells mark text' raw') :
    Spells mark (text ++ text') (raw ++ raw') := by
  induction h with
  | nil => exact h'
  | cons hc _ ih =>
    rw [List.append_assoc]
    exact .cons hc ih

theorem eq_nil_iff (h : Spells mark text raw) : raw = [] ↔ text = [] := by
  cases h with
  | nil => exact Iff.rfl
  | cons hc _ => simp [hc.ne_nil]

theorem not_mem_bracket (h : Spells '<' text raw) : '<' ∉ raw := by
  induction h with
  | nil => exact List.not_mem_nil
  | cons hc _ ih =>
    rw [List.mem_append, not_or]
    exact ⟨hc.not_mem_bracket, ih⟩

end Spells

end SvgTidy.Markup
