import Mathlib.Algebra.Order.BigOperators.Group.List
import Mathlib.Algebra.Order.Ring.Nat
import SvgTidy.Markup.Reference
import SvgTidy.Proofs.ColorShortening

/-!
# What colours and styles mean

`denote` reads a colour: three or six hexadecimal digits and the keywords of the table as red, green
and blue, and anything else as the text it is. `meaning` reads a declaration and `meanings` a style.
The short forms mean what the long ones do, and they are no longer.

Principal results: `denote_convert` and `length_convert_le` — for colours; `meanings_convertStyle`
and `length_convertStyle_le` — for styles.
-/

namespace SvgTidy.Cleanup.ColorRules

open Text

/-! ## Colours -/

/-- What a colour stands for. -/
inductive Color where
  /-- Red, green and blue, each below 256. -/
  | rgb (red green blue : Nat)
  /-- A text that is not looked into. -/
  | other (text : List Char)
  deriving DecidableEq, Repr

/-- The colour that hexadecimal digits write, one or two for each channel. One digit stands for two
of the same. -/
def channels? : List Char → Option Color
  | [r, g, b] => do
    return .rgb (17 * (← Markup.digit? 16 r)) (17 * (← Markup.digit? 16 g))
      (17 * (← Markup.digit? 16 b))
  | [r, r', g, g', b, b'] => do
    return .rgb (16 * (← Markup.digit? 16 r) + (← Markup.digit? 16 r'))
      (16 * (← Markup.digit? 16 g) + (← Markup.digit? 16 g'))
      (16 * (← Markup.digit? 16 b) + (← Markup.digit? 16 b'))
  | _ => none

/-- The colour that a trimmed text writes in digits or names by a keyword. -/
def rgb? : List Char → Option Color
  | '#' :: hex => channels? hex
  | word =>
    (colorKeywords.find? fun entry => entry.2.toList == word).bind fun entry =>
      channels? entry.1.toList

/-- What a trimmed text stands for as a colour. -/
def denote (color : List Char) : Color :=
  (rgb? color).getD (.other color)

variable {rules : ColorRules} {color digits hex : List Char}

/-- A digit is worth as much in lower case. -/
theorem exists_digit? {c : Char} (h : isHexDigit c = true) :
    ∃ d, Markup.digit? 16 c = some d ∧ Markup.digit? 16 c.toLower = some d := by
  have hboth : (Markup.digit? 16 c).isSome = true ∧
      Markup.digit? 16 c.toLower = Markup.digit? 16 c := by
    refine forall_of_isHexDigit (p := fun c => (Markup.digit? 16 c).isSome = true ∧
      Markup.digit? 16 c.toLower = Markup.digit? 16 c) ?_ h
    decide +kernel
  obtain ⟨d, hd⟩ := Option.isSome_iff_exists.mp hboth.1
  exact ⟨d, hd, hboth.2.trans hd⟩

theorem exists_six : ∀ {digits : List Char}, digits.length = 6 →
    ∃ r r' g g' b b', digits = [r, r', g, g', b, b']
  | [r, r', g, g', b, b'], _ => ⟨r, r', g, g', b, b', rfl⟩

/-- The six digits for a colour write the same channels. -/
theorem channels?_of_sixDigits? (h : sixDigits? hex = some digits) :
    channels? hex = channels? digits ∧ (channels? digits).isSome = true := by
  unfold sixDigits? at h
  split at h
  · rename_i hall
    rw [List.all_eq_true] at hall
    simp only at h
    split at h
    · rename_i hlength
      rw [List.length_map] at hlength
      obtain ⟨r, g, b, rfl⟩ := List.length_eq_three.mp hlength
      obtain rfl := Option.some.inj h
      obtain ⟨dr, hr, hr'⟩ := exists_digit? (hall r (by simp))
      obtain ⟨dg, hg, hg'⟩ := exists_digit? (hall g (by simp))
      obtain ⟨db, hb, hb'⟩ := exists_digit? (hall b (by simp))
      simp [channels?, hr, hr', hg, hg', hb, hb']
      omega
    · split at h
      · rename_i hlength
        rw [List.length_map] at hlength
        obtain ⟨r, r', g, g', b, b', rfl⟩ := exists_six hlength
        obtain rfl := Option.some.inj h
        obtain ⟨dr, hr, hlr⟩ := exists_digit? (hall r (by simp))
        obtain ⟨dr', hr', hlr'⟩ := exists_digit? (hall r' (by simp))
        obtain ⟨dg, hg, hlg⟩ := exists_digit? (hall g (by simp))
        obtain ⟨dg', hg', hlg'⟩ := exists_digit? (hall g' (by simp))
        obtain ⟨db, hb, hlb⟩ := exists_digit? (hall b (by simp))
        obtain ⟨db', hb', hlb'⟩ := exists_digit? (hall b' (by simp))
        simp [channels?, hr, hlr, hr', hlr', hg, hlg, hg', hlg', hb, hlb, hb', hlb']
      · cases h
  · cases h

/-- A colour in digits and the six digits it stands for are the same red, green and blue. -/
theorem rgb?_of_digits? (h : digits? color = some digits) :
    rgb? color = channels? digits ∧ (channels? digits).isSome = true := by
  unfold digits? at h
  split at h
  · exact channels?_of_sixDigits? h
  · cases h

/-- A keyword is the red, green and blue of its digits. -/
theorem rgb?_of_keyword? {name : List Char} (h : keyword? digits = some name) :
    rgb? name = channels? digits := by
  have hall : ∀ entry ∈ colorKeywords, rgb? entry.2.toList = channels? entry.1.toList := by
    decide +kernel
  obtain ⟨entry, hmem, rfl, rfl⟩ := exists_keyword h
  exact hall entry hmem

/-- **A short form is the same colour.** -/
theorem denote_convert (rules : ColorRules) (color : List Char) :
    denote (rules.convert color) = denote (trim color) := by
  cases hdigits : digits? (trim color) with
  | none => rw [rules.convert_plain hdigits]
  | some digits =>
    obtain ⟨hself, hsome⟩ := rgb?_of_digits? hdigits
    obtain ⟨c, hc⟩ := Option.isSome_iff_exists.mp hsome
    have hsix := isSix_of_digits? hdigits
    rw [rules.convert_digits hdigits, denote, denote, hself, hc]
    rcases rules.shorten_cases digits (trim color) with ⟨name, hname, hshort⟩ | hshort | hshort
    · rw [hshort, rgb?_of_keyword? hname, hc]
      rfl
    · rw [hshort, (rgb?_of_digits? (digits?_shortest hsix)).1, hc]
      rfl
    · rw [hshort, hself, hc]

/-! ### Lengths -/

theorem length_trim_le (text : List Char) : (trim text).length ≤ text.length :=
  Nat.le_trans (trimRight_isPrefix _).length_le (List.dropWhile_suffix _).length_le

/-- Six digits have a short form no longer than the digits they come from. -/
theorem length_shortest_le (h : sixDigits? hex = some digits) :
    (shortest digits).length ≤ hex.length := by
  unfold sixDigits? at h
  split at h
  · simp only at h
    split at h
    · rename_i hlength
      rw [List.length_map] at hlength
      obtain ⟨r, g, b, rfl⟩ := List.length_eq_three.mp hlength
      obtain rfl := Option.some.inj h
      simp [shortest]
    · split at h
      · rename_i hlength
        rw [List.length_map] at hlength
        obtain ⟨r, r', g, g', b, b', rfl⟩ := exists_six hlength
        obtain rfl := Option.some.inj h
        unfold shortest
        split
        · split <;> simp_all
        · simp
      · cases h
  · cases h

/-- A keyword is no longer than the digits in their short form. -/
theorem length_keyword_le {name : List Char} (h : keyword? digits = some name) :
    name.length ≤ (shortest digits).length + 1 := by
  have hall : ∀ entry ∈ colorKeywords,
      entry.2.toList.length ≤ (shortest entry.1.toList).length + 1 := by
    decide +kernel
  obtain ⟨entry, hmem, rfl, rfl⟩ := exists_keyword h
  exact hall entry hmem

/-- **A short form is no longer.** -/
theorem length_convert_le (rules : ColorRules) (color : List Char) :
    (rules.convert color).length ≤ color.length := by
  refine Nat.le_trans ?_ (length_trim_le color)
  cases hdigits : digits? (trim color) with
  | none => rw [rules.convert_plain hdigits]
  | some digits =>
    obtain ⟨hex, htrim, hhex⟩ : ∃ hex, trim color = '#' :: hex ∧ sixDigits? hex = some digits := by
      unfold digits? at hdigits
      split at hdigits
      · exact ⟨_, by assumption, hdigits⟩
      · cases hdigits
    have hshortest := length_shortest_le hhex
    rw [rules.convert_digits hdigits, htrim, List.length_cons]
    rcases rules.shorten_cases digits ('#' :: hex) with ⟨name, hname, hshort⟩ | hshort | hshort
    · rw [hshort]
      exact Nat.le_trans (length_keyword_le hname) (Nat.succ_le_succ hshortest)
    · rw [hshort, List.length_cons]
      exact Nat.succ_le_succ hshortest
    · rw [hshort, List.length_cons]

/-! ## Styles -/

variable {declaration style : List Char}

/-- What a declaration says. -/
inductive Meaning where
  /-- A property is set to a colour. -/
  | color (property : List Char) (color : Color)
  /-- A property is set to something else. -/
  | setting (property value : List Char)
  /-- A text without a colon. -/
  | bare (text : List Char)
  deriving DecidableEq, Repr

/-- What a declaration says: the property up to the first colon, and the value after it. -/
def meaning (declaration : List Char) : Meaning :=
  if ':' ∈ declaration then
    if colorProperties.contains (String.ofList (propertyOf declaration)) then
      .color (propertyOf declaration) (denote (valueOf declaration))
    else .setting (propertyOf declaration) (valueOf declaration)
  else .bare declaration

/-- What a style says, declaration by declaration. -/
def meanings (style : List Char) : List Meaning :=
  (declarations style).map meaning

/-- A declaration says the same in its short form. -/
theorem meaning_convertDeclaration (rules : ColorRules) (declaration : List Char) :
    meaning (rules.convertDeclaration declaration) = meaning declaration := by
  by_cases hcolon : ':' ∈ declaration
  · have hpair := isPair_convertDeclaration hcolon rules
    obtain ⟨hproperty, hvalue⟩ := hpair.parts
    have hcolon' : ':' ∈ rules.convertDeclaration declaration := by simp [hpair.eq]
    rw [meaning, meaning, if_pos hcolon, if_pos hcolon', hproperty, hvalue]
    unfold convertPart
    split
    · rw [denote_convert, valueOf, trim_trim]
    · rfl
  · rw [convertDeclaration_of_no_colon hcolon]

/-- **A style says the same in its short form.** -/
theorem meanings_convertStyle (rules : ColorRules) (style : List Char) :
    meanings (rules.convertStyle style) = meanings style := by
  rw [meanings, declarations_convertStyle, List.map_map, meanings]
  exact List.map_congr_left fun declaration _ => rules.meaning_convertDeclaration declaration

/-! ### Lengths -/

theorem length_convertDeclaration_le (rules : ColorRules) (declaration : List Char) :
    (rules.convertDeclaration declaration).length ≤ declaration.length := by
  by_cases hcolon : ':' ∈ declaration
  · have hproperty : (propertyOf declaration).length ≤ (declaration.takeWhile (· != ':')).length :=
      length_trim_le _
    have hvalue : (rules.convertPart (propertyOf declaration) (valueOf declaration)).length ≤
        (declaration.dropWhile (· != ':')).length - 1 := by
      have hpart := length_trim_le ((declaration.dropWhile (· != ':')).drop 1)
      rw [List.length_drop] at hpart
      refine Nat.le_trans ?_ hpart
      unfold convertPart
      split
      · exact rules.length_convert_le _
      · exact Nat.le_refl _
    have hsplit := congrArg List.length
      (List.takeWhile_append_dropWhile (p := (· != ':')) (l := declaration))
    have hrest : declaration.dropWhile (· != ':') ≠ [] := by
      rw [Ne, List.dropWhile_eq_nil_iff]
      exact fun hall => by simpa using hall ':' hcolon
    have hpos := List.length_pos_iff.mpr hrest
    rw [List.length_append] at hsplit
    rw [(isPair_convertDeclaration hcolon rules).eq, List.length_append, List.length_cons]
    omega
  · rw [convertDeclaration_of_no_colon hcolon]

/-- The length of parts with a separator behind each of them. -/
def weight (parts : List (List Char)) : Nat :=
  (parts.map fun part => part.length + 1).sum

theorem length_intercalate (separator : Char) : ∀ parts : List (List Char),
    ([separator].intercalate parts).length = weight parts - 1
  | [] => rfl
  | [part] => by simp [weight]
  | part :: next :: parts => by
    have ih := length_intercalate separator (next :: parts)
    rw [List.intercalate_cons_cons, List.length_append, List.length_append, ih]
    simp only [weight, List.map_cons, List.sum_cons, List.length_singleton]
    omega

theorem weight_split (separator : Char) (text : List Char) :
    weight (split separator text) = text.length + 1 := by
  induction text with
  | nil => rfl
  | cons c text ih =>
    by_cases h : c = separator
    · rw [split, if_pos h]
      simp only [weight, List.map_cons, List.sum_cons, List.length_nil, List.length_cons] at ih ⊢
      omega
    · obtain ⟨first, others, hsplit⟩ := List.exists_cons_of_ne_nil (split_ne_nil separator text)
      rw [split_cons_of_ne h, hsplit, List.modifyHead_cons]
      rw [hsplit] at ih
      simp only [weight, List.map_cons, List.sum_cons, List.length_cons] at ih ⊢
      omega

theorem weight_map_le {shorten : List Char → List Char}
    (h : ∀ part, (shorten part).length ≤ part.length) (parts : List (List Char)) :
    weight (parts.map shorten) ≤ weight parts := by
  rw [weight, List.map_map]
  exact List.sum_le_sum fun part _ => Nat.succ_le_succ (h part)

theorem weight_filter_le (keep : List Char → Bool) (parts : List (List Char)) :
    weight (parts.filter keep) ≤ weight parts :=
  (List.filter_sublist.map _).sum_le_sum fun _ _ => Nat.zero_le _

/-- **A style is no longer in its short form.** -/
theorem length_convertStyle_le (rules : ColorRules) (style : List Char) :
    (rules.convertStyle style).length ≤ style.length := by
  have hweight : weight ((declarations style).map rules.convertDeclaration) ≤ style.length + 1 :=
    calc weight ((declarations style).map rules.convertDeclaration)
      _ ≤ weight (declarations style) := weight_map_le rules.length_convertDeclaration_le _
      _ ≤ weight ((split ';' style).map trim) := weight_filter_le _ _
      _ ≤ weight (split ';' style) := weight_map_le length_trim_le _
      _ = style.length + 1 := weight_split ';' style
  rw [convertStyle_eq, length_intercalate]
  exact Nat.sub_le_of_le_add hweight

end SvgTidy.Cleanup.ColorRules
