import Mathlib.Data.List.Induction
import Mathlib.Data.List.TakeWhile
import SvgTidy.Text.Blank

/-!
# What trimming does

A text is trimmed when neither its first nor its last character is blank. Blanks around a trimmed
text are what trimming takes off.

Principal results: `trim_eq_self_iff` — when trimming changes nothing; `trim_around` — it takes off
just the blanks put around such a text; `trim_trim` — what is trimmed stays trimmed.
-/

namespace SvgTidy.Text

/-- Nothing but blanks. -/
def Blank (text : List Char) : Prop :=
  ∀ c ∈ text, isBlank c = true

theorem Blank.nil : Blank [] :=
  fun _ h => absurd h List.not_mem_nil

theorem Blank.append {s t : List Char} (hs : Blank s) (ht : Blank t) : Blank (s ++ t) := by
  intro c hc
  rcases List.mem_append.mp hc with hc | hc
  · exact hs c hc
  · exact ht c hc

theorem Blank.not_mem {text : List Char} (h : Blank text) {c : Char} (hc : isBlank c = false) :
    c ∉ text := by
  intro hm
  rw [h c hm] at hc
  cases hc

theorem dropWhile_blank_append {gap : List Char} (hgap : Blank gap) (text : List Char) :
    (gap ++ text).dropWhile isBlank = text.dropWhile isBlank :=
  List.dropWhile_append_of_pos hgap

/-! ## The right end -/

theorem trimRight_concat (text : List Char) (c : Char) :
    trimRight (text ++ [c]) = if isBlank c then trimRight text else text ++ [c] := by
  induction text with
  | nil =>
    simp only [List.nil_append, trimRight]
  | cons x text ih =>
    rw [List.cons_append, trimRight, ih]
    by_cases hc : isBlank c = true
    · rw [if_pos hc, if_pos hc, trimRight]
    · rw [if_neg hc, if_neg hc]
      cases text <;> rfl

theorem trimRight_append_blank {gap : List Char} (hgap : Blank gap) (text : List Char) :
    trimRight (text ++ gap) = trimRight text := by
  induction gap using List.reverseRecOn with
  | nil => rw [List.append_nil]
  | append_singleton gap c ih =>
    rw [← List.append_assoc, trimRight_concat, if_pos (hgap c (by simp)),
      ih fun x hx => hgap x (List.mem_append_left _ hx)]

theorem trimRight_isPrefix (text : List Char) : trimRight text <+: text := by
  induction text using List.reverseRecOn with
  | nil => exact List.prefix_rfl
  | append_singleton text c ih =>
    rw [trimRight_concat]
    split
    · exact ih.trans (List.prefix_append _ _)
    · exact List.prefix_rfl

theorem trimRight_eq_self_iff {text : List Char} :
    trimRight text = text ↔ ∀ c, text.getLast? = some c → isBlank c = false := by
  rcases text.eq_nil_or_concat with rfl | ⟨text, c, rfl⟩
  · simp [trimRight]
  · rw [List.concat_eq_append, trimRight_concat, List.getLast?_append, List.getLast?_singleton,
      Option.some_or]
    split
    · rename_i hc
      have hlength := (trimRight_isPrefix text).length_le
      refine ⟨fun heq => ?_, fun h => ?_⟩
      · rw [heq, List.length_append, List.length_singleton] at hlength
        omega
      · rw [h c rfl] at hc
        cases hc
    · rename_i hc
      simpa using hc

/-- What is kept of the right end ends in no blank. -/
theorem trimRight_trimRight (text : List Char) : trimRight (trimRight text) = trimRight text := by
  induction text using List.reverseRecOn with
  | nil => rfl
  | append_singleton text c ih =>
    rw [trimRight_concat]
    split
    · exact ih
    · rename_i hc
      rw [trimRight_concat, if_neg hc]

/-! ## Both ends -/

theorem head?_trim {text : List Char} {c : Char} (h : (trim text).head? = some c) :
    isBlank c = false := by
  obtain ⟨rest, hrest⟩ := trimRight_isPrefix (text.dropWhile isBlank)
  have hhead : (text.dropWhile isBlank).head? = some c := by
    rw [← hrest, List.head?_append]
    rw [trim] at h
    rw [h, Option.some_or]
  have := List.head?_dropWhile_not isBlank text
  rw [hhead] at this
  simpa using this

/-- A text is trimmed when it neither begins nor ends with a blank. -/
theorem trim_eq_self_iff {text : List Char} :
    trim text = text ↔ (∀ c, text.head? = some c → isBlank c = false) ∧
      ∀ c, text.getLast? = some c → isBlank c = false := by
  refine ⟨fun h => ⟨fun c hc => head?_trim (h.symm ▸ hc), ?_⟩, fun ⟨hhead, hlast⟩ => ?_⟩
  · rw [← trimRight_eq_self_iff, ← h, trim, trimRight_trimRight]
  · have hdrop : text.dropWhile isBlank = text := by
      cases text with
      | nil => rfl
      | cons c text => rw [List.dropWhile_cons_of_neg (by simp [hhead c rfl])]
    rw [trim, hdrop, trimRight_eq_self_iff]
    exact hlast

theorem trim_trim (text : List Char) : trim (trim text) = trim text := by
  refine trim_eq_self_iff.mpr ⟨fun c hc => head?_trim hc, ?_⟩
  rw [← trimRight_eq_self_iff, trim, trimRight_trimRight]

theorem trim_blank {text : List Char} (h : Blank text) : trim text = [] := by
  rw [trim, List.dropWhile_eq_nil_iff.mpr h]
  rfl

/-- Trimming takes off the blanks around a text that is trimmed itself. -/
theorem trim_around {before text after : List Char} (hbefore : Blank before) (hafter : Blank after)
    (htext : trim text = text) : trim (before ++ text ++ after) = text := by
  rw [List.append_assoc, trim, dropWhile_blank_append hbefore]
  cases text with
  | nil =>
    rw [List.nil_append, List.dropWhile_eq_nil_iff.mpr hafter]
    rfl
  | cons c text =>
    obtain ⟨hhead, hlast⟩ := trim_eq_self_iff.mp htext
    rw [List.cons_append, List.dropWhile_cons_of_neg (by simp [hhead c rfl]), ← List.cons_append,
      trimRight_append_blank hafter, trimRight_eq_self_iff]
    exact hlast

end SvgTidy.Text
