import Mathlib.Data.List.Basic
import Mathlib.Data.List.TakeWhile
import SvgTidy.Cleanup.Preset
import SvgTidy.Proofs.SeparatedParts
import SvgTidy.Proofs.TrimmedTexts

/-!
# Shortening colours again

Two settings used one after the other do what a single one does that has the rules of both
(`ColorRules.merge`): for colours, for declarations, for styles and for the values of attributes. So
shortening again changes nothing, and the order of settings does not matter. A short form is found by
the six digits that a colour stands for: a keyword has none, and three digits stand for the same ones
as the six they come from.

Principal results: `convertValue_merge` — one setting after another; from it
`convertValue_convertValue`, `convertValue_comm` and `convertValue_of_settled` — rules that have
nothing to do have nothing to do after other rules.
-/

namespace SvgTidy

namespace Text

theorem mem_of_mem_trim {text : List Char} {c : Char} (h : c ∈ trim text) : c ∈ text :=
  (List.dropWhile_suffix _).subset ((trimRight_isPrefix _).subset h)

end Text

namespace Cleanup.ColorRules

open Text

variable {rules other : ColorRules} {color digits : List Char}

/-! ## Digits -/

/-- A digit as in the keys of the table of keywords. -/
def IsLowerHex (c : Char) : Prop :=
  isHexDigit c = true ∧ c.toLower = c ∧ isBlank c = false ∧ c ≠ ';'

/-- What holds of the digits among the first characters holds of every digit. -/
theorem forall_of_isHexDigit {p : Char → Prop}
    (hall : ∀ n : Fin 128, isHexDigit (Char.ofNat n) = true → p (Char.ofNat n)) {c : Char}
    (h : isHexDigit c = true) : p c := by
  have hlt : c.toNat < 128 := by
    have hdigit := h
    simp only [isHexDigit, Char.isDigit, Bool.or_eq_true, Bool.and_eq_true, decide_eq_true_eq,
      Char.le_def, UInt32.le_iff_toNat_le] at hdigit
    simp only [Char.toNat]
    rcases hdigit with (hdigit | hdigit) | hdigit
    · exact Nat.lt_of_le_of_lt hdigit.2 (by decide)
    · exact Nat.lt_of_le_of_lt hdigit.2 (by decide)
    · exact Nat.lt_of_le_of_lt hdigit.2 (by decide)
  have := hall ⟨c.toNat, hlt⟩
  rw [Char.ofNat_toNat] at this
  exact this h

theorem isLowerHex_toLower {c : Char} (h : isHexDigit c = true) : IsLowerHex c.toLower := by
  refine forall_of_isHexDigit (p := fun c => isHexDigit c.toLower = true ∧
    c.toLower.toLower = c.toLower ∧ isBlank c.toLower = false ∧ c.toLower ≠ ';') ?_ h
  decide +kernel

/-- Six digits as in the keys of the table of keywords. -/
def IsSix (digits : List Char) : Prop :=
  digits.length = 6 ∧ ∀ c ∈ digits, IsLowerHex c

theorem isSix_of_sixDigits? {hex : List Char} (h : sixDigits? hex = some digits) : IsSix digits := by
  unfold sixDigits? at h
  split at h
  · rename_i hhex
    have hlower : ∀ c ∈ hex.map Char.toLower, IsLowerHex c := by
      intro c hc
      obtain ⟨c', hc', rfl⟩ := List.mem_map.mp hc
      exact isLowerHex_toLower (List.all_eq_true.mp hhex c' hc')
    simp only at h
    split at h
    · rename_i hlength
      obtain rfl := Option.some.inj h
      refine ⟨?_, fun c hc => ?_⟩
      · obtain ⟨r, g, b, hdigits⟩ := List.length_eq_three.mp hlength
        rw [hdigits]
        rfl
      · obtain ⟨c', hc', hmem⟩ := List.mem_flatMap.mp hc
        obtain rfl : c = c' := by simpa using hmem
        exact hlower c hc'
    · split at h
      · rename_i hlength
        obtain rfl := Option.some.inj h
        exact ⟨hlength, hlower⟩
      · cases h
  · cases h

theorem map_toLower_of_isLowerHex {hex : List Char} (h : ∀ c ∈ hex, IsLowerHex c) :
    hex.map Char.toLower = hex := by
  rw [List.map_congr_left (g := id) fun c hc => (h c hc).2.1, List.map_id]

theorem sixDigits?_shortest (h : IsSix digits) : sixDigits? (shortest digits) = some digits := by
  obtain ⟨hlength, hall⟩ := h
  have hself : sixDigits? digits = some digits := by
    rw [sixDigits?, if_pos (List.all_eq_true.mpr fun c hc => (hall c hc).1),
      map_toLower_of_isLowerHex hall]
    simp [hlength]
  unfold shortest
  split
  · rename_i r r' g g' b b'
    split
    · rename_i heq
      obtain ⟨rfl, rfl, rfl⟩ := heq
      have hthree : ∀ c ∈ [r, g, b], IsLowerHex c := fun c hc => hall c (by simp at hc ⊢; tauto)
      rw [sixDigits?, if_pos (List.all_eq_true.mpr fun c hc => (hthree c hc).1),
        map_toLower_of_isLowerHex hthree]
      rfl
    · exact hself
  · exact hself

theorem isLowerHex_of_mem_shortest (h : IsSix digits) : ∀ c ∈ shortest digits, IsLowerHex c := by
  obtain ⟨-, hall⟩ := h
  unfold shortest
  split
  · split
    · intro c hc
      exact hall c (by simp at hc ⊢; tauto)
    · exact hall
  · exact hall

/-! ## Colours -/

/-- The six digits that a trimmed colour stands for. -/
def digits? : List Char → Option (List Char)
  | '#' :: hex => sixDigits? hex
  | _ => none

/-- The short form of a colour that stands for six digits. -/
def shorten (rules : ColorRules) (digits color : List Char) : List Char :=
  match if rules.shortName then keyword? digits else none with
  | some name => name
  | none => if rules.shortHex then '#' :: shortest digits else color

theorem convert_plain (rules : ColorRules) (h : digits? (trim color) = none) :
    rules.convert color = trim color := by
  unfold convert
  generalize trim color = trimmed at h
  simp only
  split
  · rename_i hex
    rw [show sixDigits? hex = none from h]
  · rfl

theorem convert_digits (rules : ColorRules) (h : digits? (trim color) = some digits) :
    rules.convert color = rules.shorten digits (trim color) := by
  unfold convert
  generalize trim color = trimmed at h
  simp only
  split
  · rename_i hex
    rw [show sixDigits? hex = some digits from h]
    rfl
  · rename_i hne
    unfold digits? at h
    split at h
    · exact absurd rfl (hne _)
    · cases h

theorem isSix_of_digits? (h : digits? color = some digits) : IsSix digits := by
  unfold digits? at h
  split at h
  · exact isSix_of_sixDigits? h
  · cases h

/-- A keyword and its digits stand in the table. -/
theorem exists_keyword {name : List Char} (h : keyword? digits = some name) :
    ∃ entry ∈ colorKeywords, entry.1.toList = digits ∧ entry.2.toList = name := by
  obtain ⟨word, hword, rfl⟩ := Option.map_eq_some_iff.mp h
  obtain ⟨before, after, hsplit, -⟩ := List.lookup_eq_some_iff.mp hword
  exact ⟨(String.ofList digits, word), by simp [hsplit], String.toList_ofList, rfl⟩

/-- A keyword is a colour that stands for itself. -/
theorem keyword_plain {name : List Char} (h : keyword? digits = some name) :
    trim name = name ∧ digits? name = none ∧ ';' ∉ name := by
  have hall : ∀ entry ∈ colorKeywords, trim entry.2.toList = entry.2.toList ∧
      digits? entry.2.toList = none ∧ ';' ∉ entry.2.toList := by
    decide +kernel
  obtain ⟨entry, hmem, -, rfl⟩ := exists_keyword h
  exact hall entry hmem

theorem digits?_shortest (h : IsSix digits) : digits? ('#' :: shortest digits) = some digits :=
  sixDigits?_shortest h

theorem trim_shortest (h : IsSix digits) :
    trim ('#' :: shortest digits) = '#' :: shortest digits := by
  have hblank : ∀ c ∈ '#' :: shortest digits, isBlank c = false := by
    intro c hc
    rcases List.mem_cons.mp hc with rfl | hc
    · decide
    · exact (isLowerHex_of_mem_shortest h c hc).2.2.1
  exact trim_eq_self_iff.mpr
    ⟨fun c hc => hblank c (List.mem_of_head? hc), fun c hc => hblank c (List.mem_of_getLast? hc)⟩

/-- The three forms of a colour that stands for six digits. -/
theorem shorten_cases (rules : ColorRules) (digits color : List Char) :
    (∃ name, keyword? digits = some name ∧ rules.shorten digits color = name) ∨
      rules.shorten digits color = '#' :: shortest digits ∨ rules.shorten digits color = color := by
  unfold shorten
  split
  · rename_i name hname
    split at hname
    · exact .inl ⟨name, hname, rfl⟩
    · cases hname
  · split
    · exact .inr (.inl rfl)
    · exact .inr (.inr rfl)

theorem trim_convert (rules : ColorRules) (color : List Char) :
    trim (rules.convert color) = rules.convert color := by
  cases hdigits : digits? (trim color) with
  | none => rw [rules.convert_plain hdigits, trim_trim]
  | some digits =>
    rw [rules.convert_digits hdigits]
    rcases rules.shorten_cases digits (trim color) with ⟨name, hname, hshort⟩ | hshort | hshort
    · rw [hshort, (keyword_plain hname).1]
    · rw [hshort, trim_shortest (isSix_of_digits? hdigits)]
    · rw [hshort, trim_trim]

/-- All rules that one of two settings uses. -/
def merge (rules other : ColorRules) : ColorRules :=
  ⟨rules.shortHex || other.shortHex, rules.shortName || other.shortName⟩

@[simp] theorem merge_self (rules : ColorRules) : rules.merge rules = rules := by
  rw [merge, Bool.or_self, Bool.or_self]

theorem merge_comm (rules other : ColorRules) : rules.merge other = other.merge rules := by
  rw [merge, merge, Bool.or_comm rules.shortHex, Bool.or_comm rules.shortName]

/-- What the first rules make of a colour in digits is shortened by the second. -/
theorem convert_shorten (rules other : ColorRules) (htrim : trim color = color)
    (hdigits : digits? color = some digits) :
    other.convert (rules.shorten digits color) = (rules.merge other).shorten digits color := by
  have hsix := isSix_of_digits? hdigits
  cases hname : if rules.shortName then keyword? digits else none with
  | some name =>
    -- a keyword is left alone, and the merged rules give it as well
    obtain ⟨hshort, hkeyword⟩ : rules.shortName = true ∧ keyword? digits = some name := by
      split at hname
      · exact ⟨‹_›, hname⟩
      · cases hname
    obtain ⟨hnameTrim, hnameDigits, -⟩ := keyword_plain hkeyword
    have hfirst : rules.shorten digits color = name := by rw [shorten, hname]
    rw [hfirst, other.convert_plain (by rw [hnameTrim, hnameDigits]), hnameTrim, shorten, merge,
      hshort, Bool.true_or, if_pos rfl, hkeyword]
  | none =>
    have hsame : (if rules.shortName || other.shortName then keyword? digits else none) =
        if other.shortName then keyword? digits else none := by
      cases hshort : rules.shortName with
      | false => rw [Bool.false_or]
      | true =>
        rw [hshort, if_pos rfl] at hname
        rw [hname, ite_self, ite_self]
    rw [shorten, hname, shorten, merge]
    simp only [hsame]
    by_cases hhex : rules.shortHex = true
    · rw [if_pos hhex, other.convert_digits (by rw [trim_shortest hsix, digits?_shortest hsix]),
        trim_shortest hsix, shorten, hhex, Bool.true_or, if_pos rfl, ite_self]
    · rw [Bool.not_eq_true] at hhex
      rw [if_neg (by rw [hhex]; exact Bool.false_ne_true),
        other.convert_digits (by rw [htrim, hdigits]), htrim, shorten, hhex, Bool.false_or]

/-- **A colour is shortened by one setting after another as by both at once.** -/
theorem convert_merge (rules other : ColorRules) (color : List Char) :
    other.convert (rules.convert color) = (rules.merge other).convert color := by
  cases hdigits : digits? (trim color) with
  | none =>
    rw [rules.convert_plain hdigits, other.convert_plain (by rw [trim_trim, hdigits]), trim_trim,
      (rules.merge other).convert_plain hdigits]
  | some digits =>
    rw [rules.convert_digits hdigits, convert_shorten rules other (trim_trim color) hdigits,
      (rules.merge other).convert_digits hdigits]

theorem not_mem_convert (h : ';' ∉ color) (rules : ColorRules) : ';' ∉ rules.convert color := by
  have htrim : ';' ∉ trim color := fun hm => h (mem_of_mem_trim hm)
  cases hdigits : digits? (trim color) with
  | none => rwa [rules.convert_plain hdigits]
  | some digits =>
    rw [rules.convert_digits hdigits]
    rcases rules.shorten_cases digits (trim color) with ⟨name, hname, hshort⟩ | hshort | hshort
    · rw [hshort]
      exact (keyword_plain hname).2.2
    · rw [hshort, List.mem_cons, not_or]
      refine ⟨by decide, fun hm => ?_⟩
      exact (isLowerHex_of_mem_shortest (isSix_of_digits? hdigits) _ hm).2.2.2 rfl
    · rwa [hshort]

/-! ## Declarations -/

variable {property value declaration style : List Char}

/-- The value of a declaration in its short form. -/
def convertPart (rules : ColorRules) (property value : List Char) : List Char :=
  if colorProperties.contains (String.ofList property) then rules.convert value else value

theorem convertPart_merge (rules other : ColorRules) (property value : List Char) :
    other.convertPart property (rules.convertPart property value) =
      (rules.merge other).convertPart property value := by
  unfold convertPart
  split
  · exact rules.convert_merge other value
  · rfl

theorem trim_convertPart (h : trim value = value) (rules : ColorRules) (property : List Char) :
    trim (rules.convertPart property value) = rules.convertPart property value := by
  unfold convertPart
  split
  · exact rules.trim_convert value
  · exact h

/-- A declaration with a colon, in the form that writing gives it. -/
structure IsPair (declaration property value : List Char) : Prop where
  eq : declaration = property ++ ':' :: value
  trim_property : trim property = property
  trim_value : trim value = value
  colon : ':' ∉ property

theorem trim_pair (hproperty : trim property = property) (hvalue : trim value = value) :
    trim (property ++ ':' :: value) = property ++ ':' :: value := by
  obtain ⟨hhead, -⟩ := trim_eq_self_iff.mp hproperty
  obtain ⟨-, hlast⟩ := trim_eq_self_iff.mp hvalue
  refine trim_eq_self_iff.mpr ⟨fun c hc => ?_, fun c hc => ?_⟩
  · rw [List.head?_append] at hc
    cases hfirst : property.head? with
    | some first =>
      rw [hfirst, Option.some_or] at hc
      exact hhead c (hfirst.trans hc)
    | none =>
      rw [hfirst, Option.none_or, List.head?_cons, Option.some.injEq] at hc
      subst hc
      decide
  · rw [List.getLast?_append, List.getLast?_cons] at hc
    cases hend : value.getLast? with
    | some last =>
      rw [hend] at hc
      exact hlast c (hend.trans hc)
    | none =>
      rw [hend] at hc
      obtain rfl : ':' = c := Option.some.inj hc
      decide

/-- The property that a declaration with a colon sets. -/
def propertyOf (declaration : List Char) : List Char :=
  trim (declaration.takeWhile (· != ':'))

/-- What it is set to. -/
def valueOf (declaration : List Char) : List Char :=
  trim ((declaration.dropWhile (· != ':')).drop 1)

theorem mem_of_mem_propertyOf {c : Char} (h : c ∈ propertyOf declaration) : c ∈ declaration :=
  (List.takeWhile_prefix _).subset (mem_of_mem_trim h)

theorem mem_of_mem_valueOf {c : Char} (h : c ∈ valueOf declaration) : c ∈ declaration :=
  (List.dropWhile_suffix _).subset (List.mem_of_mem_drop (mem_of_mem_trim h))

/-- The short form of a declaration with a colon. -/
theorem isPair_convertDeclaration (hcolon : ':' ∈ declaration) (rules : ColorRules) :
    IsPair (rules.convertDeclaration declaration) (propertyOf declaration)
      (rules.convertPart (propertyOf declaration) (valueOf declaration)) := by
  refine ⟨?_, trim_trim _, trim_convertPart (trim_trim _) _ _, fun hm => ?_⟩
  · rw [convertDeclaration, if_pos hcolon]
    rfl
  · have := List.mem_takeWhile_imp (mem_of_mem_trim hm)
    simp at this

theorem IsPair.parts (h : IsPair declaration property value) :
    propertyOf declaration = property ∧ valueOf declaration = value := by
  have hfree : ∀ c ∈ property, (c != ':') = true := by
    intro c hc
    rw [bne_iff_ne]
    rintro rfl
    exact h.colon hc
  constructor
  · rw [propertyOf, h.eq, List.takeWhile_append_of_pos hfree]
    simp [h.trim_property]
  · rw [valueOf, h.eq, List.dropWhile_append_of_pos hfree]
    simp [h.trim_value]

theorem IsPair.convertDeclaration (h : IsPair declaration property value) (rules : ColorRules) :
    IsPair (rules.convertDeclaration declaration) property (rules.convertPart property value) := by
  have hcolon : ':' ∈ declaration := by simp [h.eq]
  obtain ⟨rfl, rfl⟩ := h.parts
  exact isPair_convertDeclaration hcolon rules

theorem convertDeclaration_of_no_colon (h : ':' ∉ declaration) (rules : ColorRules) :
    rules.convertDeclaration declaration = declaration :=
  if_neg h

theorem convertDeclaration_merge (rules other : ColorRules) (declaration : List Char) :
    other.convertDeclaration (rules.convertDeclaration declaration) =
      (rules.merge other).convertDeclaration declaration := by
  by_cases hcolon : ':' ∈ declaration
  · have hpair := isPair_convertDeclaration hcolon
    rw [((hpair rules).convertDeclaration other).eq, (hpair (rules.merge other)).eq,
      convertPart_merge]
  · rw [convertDeclaration_of_no_colon hcolon, convertDeclaration_of_no_colon hcolon,
      convertDeclaration_of_no_colon hcolon]

/-! ## Styles -/

/-- The declarations of a style. -/
def declarations (style : List Char) : List (List Char) :=
  ((split ';' style).map trim).filter (!·.isEmpty)

/-- A declaration as it stands between semicolons. -/
structure IsDeclaration (declaration : List Char) : Prop where
  ne_nil : declaration ≠ []
  trim : trim declaration = declaration
  semicolon : ';' ∉ declaration

theorem isDeclaration_of_mem (h : declaration ∈ declarations style) : IsDeclaration declaration := by
  obtain ⟨hmem, hne⟩ := List.mem_filter.mp h
  obtain ⟨part, hpart, rfl⟩ := List.mem_map.mp hmem
  exact ⟨by simpa using hne, trim_trim part,
    fun hm => not_mem_of_mem_split hpart (mem_of_mem_trim hm)⟩

theorem IsDeclaration.convertDeclaration (h : IsDeclaration declaration) (rules : ColorRules) :
    IsDeclaration (rules.convertDeclaration declaration) := by
  by_cases hcolon : ':' ∈ declaration
  · have hself := isPair_convertDeclaration hcolon rules
    refine ⟨by simp [hself.eq], ?_, ?_⟩
    · rw [hself.eq, trim_pair hself.trim_property hself.trim_value]
    · rw [hself.eq, List.mem_append, List.mem_cons, not_or, not_or]
      refine ⟨fun hm => h.semicolon (mem_of_mem_propertyOf hm), by decide, ?_⟩
      have hfree : ';' ∉ valueOf declaration := fun hm => h.semicolon (mem_of_mem_valueOf hm)
      unfold convertPart
      split
      · exact not_mem_convert hfree rules
      · exact hfree
  · rwa [convertDeclaration_of_no_colon hcolon]

/-- Declarations are found again in the style that they make up. -/
theorem declarations_intercalate {list : List (List Char)} (h : ∀ d ∈ list, IsDeclaration d) :
    declarations ([';'].intercalate list) = list := by
  by_cases hnil : list = []
  · rw [hnil]
    rfl
  · have htrim : list.map Text.trim = list := by
      rw [List.map_congr_left (g := id) fun d hd => (h d hd).trim, List.map_id]
    rw [declarations, split_intercalate hnil fun d hd => (h d hd).semicolon, htrim]
    refine List.filter_eq_self.mpr fun d hd => ?_
    simpa using (h d hd).ne_nil

theorem declarations_convertStyle (rules : ColorRules) (style : List Char) :
    declarations (rules.convertStyle style) = (declarations style).map rules.convertDeclaration := by
  refine declarations_intercalate fun d hd => ?_
  obtain ⟨declaration, hmem, rfl⟩ := List.mem_map.mp hd
  exact (isDeclaration_of_mem hmem).convertDeclaration rules

theorem convertStyle_eq (rules : ColorRules) (style : List Char) :
    rules.convertStyle style =
      [';'].intercalate ((declarations style).map rules.convertDeclaration) := rfl

theorem convertStyle_merge (rules other : ColorRules) (style : List Char) :
    other.convertStyle (rules.convertStyle style) = (rules.merge other).convertStyle style := by
  rw [convertStyle_eq, declarations_convertStyle, List.map_map, convertStyle_eq]
  congr 2
  exact funext (rules.convertDeclaration_merge other)

/-! ## Values -/

/-- **A value is shortened by one setting after another as by both at once.** -/
theorem convertValue_merge (rules other : ColorRules) (name value : String) :
    other.convertValue name (rules.convertValue name value) =
      (rules.merge other).convertValue name value := by
  unfold convertValue
  split
  · rw [String.toList_ofList, convert_merge]
  · split
    · rw [String.toList_ofList, convertStyle_merge]
    · rfl

/-- **Shortening a value twice is shortening it once.** -/
theorem convertValue_convertValue (rules : ColorRules) (name value : String) :
    rules.convertValue name (rules.convertValue name value) = rules.convertValue name value := by
  rw [convertValue_merge, merge_self]

/-- **The order of settings does not matter.** -/
theorem convertValue_comm (rules other : ColorRules) (name value : String) :
    other.convertValue name (rules.convertValue name value) =
      rules.convertValue name (other.convertValue name value) := by
  rw [convertValue_merge, convertValue_merge, merge_comm]

/-- **Rules that leave a value alone leave it alone after other rules.** -/
theorem convertValue_of_settled {name value : String} (h : rules.convertValue name value = value)
    (other : ColorRules) :
    rules.convertValue name (other.convertValue name value) = other.convertValue name value := by
  rw [convertValue_comm, h]

end Cleanup.ColorRules

end SvgTidy
