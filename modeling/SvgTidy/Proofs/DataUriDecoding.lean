import Mathlib.Data.List.Basic
import SvgTidy.Options

/-!
# Reading data URIs back

A data URI holds the bytes of an image behind the prefix of its kind. `DataUri.bytes?` reads them: it
takes the prefix off and decodes what follows, which is standard base64 with padding
(`base64Bytes?`), a text with percent signs in which two hexadecimal digits stand for a byte
(`percentBytes?`), or the image itself. What is not written that way is refused.

Principal results: `base64Bytes?_base64Digits`, `percentBytes?_escape` — decoding undoes encoding;
`escaped_escape` — an escaped text needs no further escaping; `tidy_dataUri` — asking for a URI
changes nothing else; `encode_lossless` — all of it together.
-/

namespace SvgTidy

namespace DataUri

/-! ## Bytes of a text -/

theorem utf8_eq (text : String) : utf8 text = text.toUTF8.data.toList := by
  change _ = text.toByteArray.data.toList
  rw [← String.utf8Encode_toList]
  exact List.toList_data_toByteArray.symm

/-! ## Base64 -/

/-- The number that a digit stands for: capital letters come first, then small ones, then digits. -/
def sextet? (c : Char) : Option Nat :=
  if 'A' ≤ c ∧ c ≤ 'Z' then some (c.toNat - 'A'.toNat)
  else if 'a' ≤ c ∧ c ≤ 'z' then some (c.toNat - 'a'.toNat + 26)
  else if '0' ≤ c ∧ c ≤ '9' then some (c.toNat - '0'.toNat + 52)
  else if c = '+' then some 62
  else if c = '/' then some 63
  else none

/-- The bytes that a text stands for in groups of four digits. Only the last group may be filled up
with equals signs, and the bits that it has too many are zero. -/
def base64Bytes? : List Char → Option (List UInt8)
  | [] => some []
  | [a, b, '=', '='] => do
    let a ← sextet? a
    let b ← sextet? b
    if b % 16 = 0 then some [.ofNat (a * 4 + b / 16)] else none
  | [a, b, c, '='] => do
    let a ← sextet? a
    let b ← sextet? b
    let c ← sextet? c
    if c % 4 = 0 then some [.ofNat (a * 4 + b / 16), .ofNat (b % 16 * 16 + c / 4)] else none
  | a :: b :: c :: d :: rest => do
    let a ← sextet? a
    let b ← sextet? b
    let c ← sextet? c
    let d ← sextet? d
    let bytes ← base64Bytes? rest
    some (.ofNat (a * 4 + b / 16) :: .ofNat (b % 16 * 16 + c / 4) :: .ofNat (c % 4 * 64 + d) ::
      bytes)
  | _ => none

theorem sextet?_digit : ∀ n < 64, sextet? (digit n) = some n := by
  decide +kernel

theorem digit_ne_padding : ∀ n < 64, digit n ≠ '=' := by
  decide +kernel

theorem base64Bytes?_one {a b : Nat} (ha : a < 64) (hb : b < 64) (hbits : b % 16 = 0) :
    base64Bytes? [digit a, digit b, '=', '='] = some [.ofNat (a * 4 + b / 16)] := by
  rw [base64Bytes?, sextet?_digit a ha, sextet?_digit b hb]
  exact if_pos hbits

theorem base64Bytes?_two {a b c : Nat} (ha : a < 64) (hb : b < 64) (hc : c < 64)
    (hbits : c % 4 = 0) :
    base64Bytes? [digit a, digit b, digit c, '='] =
      some [.ofNat (a * 4 + b / 16), .ofNat (b % 16 * 16 + c / 4)] := by
  rw [base64Bytes?, sextet?_digit a ha, sextet?_digit b hb, sextet?_digit c hc]
  · exact if_pos hbits
  · exact digit_ne_padding c hc

theorem base64Bytes?_group {a b c d : Nat} (ha : a < 64) (hb : b < 64) (hc : c < 64) (hd : d < 64)
    (rest : List Char) :
    base64Bytes? (digit a :: digit b :: digit c :: digit d :: rest) =
      (base64Bytes? rest).map fun bytes => .ofNat (a * 4 + b / 16) ::
        .ofNat (b % 16 * 16 + c / 4) :: .ofNat (c % 4 * 64 + d) :: bytes := by
  have hpadding := digit_ne_padding d hd
  rw [base64Bytes?, sextet?_digit a ha, sextet?_digit b hb, sextet?_digit c hc, sextet?_digit d hd]
  · cases base64Bytes? rest <;> rfl
  · exact fun _ h _ => hpadding h
  · exact fun h _ => hpadding h

/-- **Decoding base64 undoes encoding**, whatever the number of bytes. -/
theorem base64Bytes?_base64Digits : ∀ bytes : List UInt8,
    base64Bytes? (base64Digits bytes) = some bytes
  | [] => rfl
  | [a] => by
    have ha : a.toNat < 256 := a.toNat_lt
    have hfirst : a.toNat * 16 / 64 * 4 + a.toNat * 16 % 64 / 16 = a.toNat := by omega
    rw [base64Digits, base64Bytes?_one (by omega) (by omega) (by omega), hfirst, UInt8.ofNat_toNat]
  | [a, b] => by
    have ha : a.toNat < 256 := a.toNat_lt
    have hb : b.toNat < 256 := b.toNat_lt
    generalize hn : (a.toNat * 256 + b.toNat) * 4 = n
    have hfirst : n / 4096 * 4 + n / 64 % 64 / 16 = a.toNat := by omega
    have hsecond : n / 64 % 64 % 16 * 16 + n % 64 / 4 = b.toNat := by omega
    rw [base64Digits, hn, base64Bytes?_two (by omega) (by omega) (by omega) (by omega), hfirst,
      hsecond, UInt8.ofNat_toNat, UInt8.ofNat_toNat]
  | a :: b :: c :: rest => by
    have ha : a.toNat < 256 := a.toNat_lt
    have hb : b.toNat < 256 := b.toNat_lt
    have hc : c.toNat < 256 := c.toNat_lt
    generalize hn : (a.toNat * 256 + b.toNat) * 256 + c.toNat = n
    have hfirst : n / 262144 * 4 + n / 4096 % 64 / 16 = a.toNat := by omega
    have hsecond : n / 4096 % 64 % 16 * 16 + n / 64 % 64 / 4 = b.toNat := by omega
    have hthird : n / 64 % 64 % 4 * 64 + n % 64 = c.toNat := by omega
    rw [base64Digits, hn, base64Bytes?_group (by omega) (by omega) (by omega) (by omega),
      base64Bytes?_base64Digits rest, Option.map_some, hfirst, hsecond, hthird,
      UInt8.ofNat_toNat, UInt8.ofNat_toNat, UInt8.ofNat_toNat]

/-- Three bytes take four digits, and so do the one or two that are left at the end. -/
theorem length_base64Digits : ∀ bytes : List UInt8,
    (base64Digits bytes).length = 4 * ((bytes.length + 2) / 3)
  | [] => rfl
  | [_] | [_, _] => by simp [base64Digits]
  | a :: b :: c :: rest => by
    simp only [base64Digits, List.length_cons, length_base64Digits rest]
    omega

/-! ## Percent signs -/

/-- The character stands for itself in a component of a URI. -/
def Unreserved (c : Char) : Prop :=
  ('A' ≤ c ∧ c ≤ 'Z') ∨ ('a' ≤ c ∧ c ≤ 'z') ∨ ('0' ≤ c ∧ c ≤ '9') ∨ c ∈ "-_.!~*'()".toList

/-- The character is a hexadecimal digit, and a capital letter if it is a letter. -/
def UpperDigit (c : Char) : Prop :=
  ('0' ≤ c ∧ c ≤ '9') ∨ ('A' ≤ c ∧ c ≤ 'F')

instance (c : Char) : Decidable (UpperDigit c) :=
  inferInstanceAs (Decidable (_ ∨ _))

/-- A text of characters that stand for themselves and of percent signs with two digits. -/
inductive Escaped : List Char → Prop where
  | nil : Escaped []
  | plain {c : Char} {rest : List Char} (hc : Unreserved c) (hrest : Escaped rest) :
      Escaped (c :: rest)
  | byte {high low : Char} {rest : List Char} (hhigh : UpperDigit high) (hlow : UpperDigit low)
      (hrest : Escaped rest) : Escaped ('%' :: high :: low :: rest)

/-- The bytes that a text stands for. A percent sign and two digits, with capital letters or small
ones, are a byte, and any other ASCII character stands for itself. -/
def percentBytes? : List Char → Option (List UInt8)
  | [] => some []
  | '%' :: high :: low :: rest => do
    let high ← Markup.digit? 16 high
    let low ← Markup.digit? 16 low
    let bytes ← percentBytes? rest
    some (.ofNat (high * 16 + low) :: bytes)
  | c :: rest =>
    if c = '%' ∨ 128 ≤ c.toNat then none else (percentBytes? rest).map (.ofNat c.toNat :: ·)

theorem unreserved_of_isUnreserved (byte : UInt8) (h : isUnreserved byte = true) :
    Unreserved (Char.ofNat byte.toNat) := by
  -- A byte is asked for a capital letter, a small one, a digit and a mark, in this order.
  rcases Bool.or_eq_true_iff.mp h with h | h
  · rcases Bool.or_eq_true_iff.mp h with h | h
    · rcases Bool.or_eq_true_iff.mp h with h | h
      · exact .inl (of_decide_eq_true h)
      · obtain ⟨hfirst, hlast⟩ := Bool.and_eq_true_iff.mp h
        exact .inr (.inl ⟨of_decide_eq_true hfirst, of_decide_eq_true hlast⟩)
    · obtain ⟨hfirst, hlast⟩ := Bool.and_eq_true_iff.mp h
      exact .inr (.inr (.inl ⟨of_decide_eq_true hfirst, of_decide_eq_true hlast⟩))
  · exact .inr (.inr (.inr (List.contains_iff_mem.mp h)))

theorem toNat_ofNat_byte (byte : UInt8) : (Char.ofNat byte.toNat).toNat = byte.toNat := by
  have hvalid : byte.toNat.isValidChar := .inl (Nat.lt_trans byte.toNat_lt (by decide))
  rw [Char.ofNat, dif_pos hvalid]
  rfl

theorem ascii_of_unreserved {c : Char} (h : Unreserved c) : c ≠ '%' ∧ c.toNat < 128 := by
  have hmarks : "-_.!~*'()".toList.all (·.toNat < 128) = true := by decide +kernel
  have hbelow {last : Char} (hlast : last.toNat < 128) (hc : c ≤ last) : c.toNat < 128 :=
    Nat.lt_of_le_of_lt hc hlast
  constructor
  · rintro rfl
    have hnot : ¬ Unreserved '%' := by
      unfold Unreserved
      decide
    exact hnot h
  · rcases h with ⟨-, h⟩ | ⟨-, h⟩ | ⟨-, h⟩ | h
    · exact hbelow (by decide) h
    · exact hbelow (by decide) h
    · exact hbelow (by decide) h
    · exact of_decide_eq_true (List.all_eq_true.mp hmarks c h)

theorem hexDigit_spec : ∀ n < 16,
    UpperDigit (hexDigit n) ∧ Markup.digit? 16 (hexDigit n) = some n := by
  decide +kernel

theorem percentBytes?_plain {c : Char} (hc : Unreserved c) (rest : List Char) :
    percentBytes? (c :: rest) = (percentBytes? rest).map (.ofNat c.toNat :: ·) := by
  obtain ⟨hpercent, hascii⟩ := ascii_of_unreserved hc
  rw [percentBytes?]
  · exact if_neg (by simp [hpercent, hascii])
  · exact fun _ _ _ h _ => hpercent h

theorem percentBytes?_byte {high low : Nat} (hhigh : high < 16) (hlow : low < 16)
    (rest : List Char) :
    percentBytes? ('%' :: hexDigit high :: hexDigit low :: rest) =
      (percentBytes? rest).map (.ofNat (high * 16 + low) :: ·) := by
  rw [percentBytes?, (hexDigit_spec high hhigh).2, (hexDigit_spec low hlow).2]
  cases percentBytes? rest <;> rfl

theorem percentBytes?_escapeByte (byte : UInt8) (rest : List Char) :
    percentBytes? (escapeByte byte ++ rest) = (percentBytes? rest).map (byte :: ·) := by
  have hbyte : byte.toNat < 256 := byte.toNat_lt
  unfold escapeByte
  split
  · rename_i h
    rw [List.singleton_append, percentBytes?_plain (unreserved_of_isUnreserved byte h),
      toNat_ofNat_byte, UInt8.ofNat_toNat]
  · have hsplit : byte.toNat / 16 * 16 + byte.toNat % 16 = byte.toNat := by omega
    rw [List.cons_append, List.cons_append, List.singleton_append,
      percentBytes?_byte (by omega) (by omega), hsplit, UInt8.ofNat_toNat]

/-- **Decoding undoes escaping.** -/
theorem percentBytes?_escape (bytes : List UInt8) :
    percentBytes? (bytes.flatMap escapeByte) = some bytes := by
  induction bytes with
  | nil => rfl
  | cons byte rest ih => rw [List.flatMap_cons, percentBytes?_escapeByte, ih, Option.map_some]

theorem Escaped.escapeByte {rest : List Char} (hrest : Escaped rest) (byte : UInt8) :
    Escaped (escapeByte byte ++ rest) := by
  have hbyte : byte.toNat < 256 := byte.toNat_lt
  unfold DataUri.escapeByte
  split
  · rename_i h
    exact .plain (unreserved_of_isUnreserved byte h) hrest
  · exact .byte (hexDigit_spec _ (by omega)).1 (hexDigit_spec _ (by omega)).1 hrest

/-- **Escaping leaves nothing that has a meaning in a URI.** -/
theorem escaped_escape (bytes : List UInt8) : Escaped (bytes.flatMap escapeByte) := by
  induction bytes with
  | nil => exact .nil
  | cons byte rest ih => exact ih.escapeByte byte

/-! ## Whole URIs -/

/-- What stands behind the prefix of a kind, if the prefix is there. -/
def content? (kind : DataUri) (uri : String) : Option (List Char) :=
  match kind with
  | .base64 => uri.toList.dropPrefix? "data:image/svg+xml;base64,".toList
  | .enc | .unenc => uri.toList.dropPrefix? "data:image/svg+xml,".toList

/-- The bytes of the image in a URI. -/
def bytes? (kind : DataUri) (uri : String) : Option (List UInt8) :=
  (kind.content? uri).bind fun content =>
    match kind with
    | .base64 => base64Bytes? content
    | .enc => percentBytes? content
    | .unenc => some (content.flatMap String.utf8EncodeChar)

theorem content?_encode (kind : DataUri) (text : String) :
    kind.content? (kind.encode text) = some (kind.payload text).toList := by
  have hscheme : (kind.encode text).toList = kind.scheme.toList ++ (kind.payload text).toList :=
    String.toList_append
  unfold content?
  cases kind <;> exact List.dropPrefix?_eq_some_iff.mpr ⟨_, hscheme, beq_self_eq_true _⟩

theorem base64Bytes?_payload (text : String) :
    base64Bytes? (base64.payload text).toList = some text.toUTF8.data.toList := by
  rw [payload, String.toList_ofList, ← utf8_eq]
  exact base64Bytes?_base64Digits (utf8 text)

theorem percentBytes?_payload (text : String) :
    percentBytes? (enc.payload text).toList = some text.toUTF8.data.toList := by
  rw [payload, String.toList_ofList, ← utf8_eq]
  exact percentBytes?_escape (utf8 text)

/-- **The bytes of the image are read back from its URI.** -/
theorem bytes?_encode (kind : DataUri) (text : String) :
    kind.bytes? (kind.encode text) = some text.toUTF8.data.toList := by
  rw [bytes?, content?_encode, Option.bind_some]
  cases kind with
  | base64 => exact base64Bytes?_payload text
  | enc => exact percentBytes?_payload text
  | unenc =>
    rw [← utf8_eq]
    rfl

theorem encode_injective (kind : DataUri) : Function.Injective kind.encode := by
  intro text other h
  have hbytes := kind.bytes?_encode text
  rw [h, kind.bytes?_encode other, Option.some_inj] at hbytes
  refine (String.toByteArray_inj.mp (ByteArray.ext ?_)).symm
  exact Array.toList_inj.mp hbytes

end DataUri

/-! ## Tidying into a URI -/

/-- **Asking for a data URI changes nothing but the form of the output.** -/
theorem tidy_dataUri {S : Slots} (text : String) (options : Options S) (kind : DataUri) :
    tidy text { options with dataUri := some kind } =
      ((tidy text { options with dataUri := none }).1.map fun output =>
          { output with data := kind.encode output.data },
        (tidy text { options with dataUri := none }).2) := by
  unfold tidy
  cases Document.read text options.path with
  | error diagnostic => rfl
  | ok doc =>
    have hdoc (dataUri : Option DataUri) :
        doc.tidy { options with dataUri } = doc.tidy options := rfl
    simp only [hdoc]
    cases (doc.tidy options).result <;> rfl

/-- **A data URI holds its image without loss.** Behind the prefix of its kind stands an escaped text
that decodes to the bytes of the image, or base64 that does, in whole groups of four digits. So each
kind tells all images apart, and tidying into a URI puts into it what is returned without. -/
theorem DataUri.encode_lossless :
    (∀ text : String, ∃ content, enc.content? (enc.encode text) = some content ∧
      Escaped content ∧ percentBytes? content = some text.toUTF8.data.toList) ∧
    (∀ text : String, ∃ content, base64.content? (base64.encode text) = some content ∧
      4 ∣ content.length ∧ base64Bytes? content = some text.toUTF8.data.toList) ∧
    (∀ kind : DataUri, Function.Injective kind.encode) ∧
    ∀ (S : Slots) (text : String) (options : Options S) (kind : DataUri),
      tidy text { options with dataUri := some kind } =
        ((tidy text { options with dataUri := none }).1.map fun output =>
            { output with data := kind.encode output.data },
          (tidy text { options with dataUri := none }).2) := by
  refine ⟨fun text => ?_, fun text => ?_, encode_injective,
    fun S text options kind => tidy_dataUri text options kind⟩
  · refine ⟨_, enc.content?_encode text, ?_, percentBytes?_payload text⟩
    rw [payload, String.toList_ofList]
    exact escaped_escape (utf8 text)
  · refine ⟨_, base64.content?_encode text, ?_, base64Bytes?_payload text⟩
    rw [payload, String.toList_ofList, length_base64Digits]
    exact Nat.dvd_mul_right 4 _

end SvgTidy
