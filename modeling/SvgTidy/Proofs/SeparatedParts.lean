import Mathlib.Data.List.Basic
import Mathlib.Data.List.DropRight
import Mathlib.Data.List.TakeWhile
import SvgTidy.Text.Split

/-!
# Cutting and joining

What was joined with a separator is cut into the same parts again, and what a text is cut into can
be told from a place in it: how many parts stand before the place, and which one it lies in.

Principal results: `split_intercalate` — cutting undoes joining; `split_append_separator` — a cut at
one separator; `getElem?_split` — the part in which a place lies.
-/

namespace SvgTidy.Text

variable {separator : Char}

theorem split_cons_of_ne {c : Char} (h : c ≠ separator) (rest : List Char) :
    split separator (c :: rest) = (split separator rest).modifyHead (c :: ·) := by
  obtain ⟨first, others, hsplit⟩ := List.exists_cons_of_ne_nil (split_ne_nil separator rest)
  rw [split, if_neg h, hsplit, List.modifyHead_cons]

/-- Cutting at a separator is what the library calls it. -/
theorem split_eq_splitOn (text : List Char) : split separator text = text.splitOn separator := by
  induction text with
  | nil => rfl
  | cons c rest ih =>
    rw [List.splitOn, List.splitOnP_cons_eq_if_modifyHead]
    by_cases h : c = separator
    · rw [split, if_pos h, if_pos (beq_iff_eq.mpr h), ih, List.splitOn]
    · rw [split_cons_of_ne h, if_neg (by simpa using h), ih, List.splitOn]

/-- There is one stretch more than there are separators. -/
theorem length_split (text : List Char) :
    (split separator text).length = text.count separator + 1 := by
  induction text with
  | nil => rfl
  | cons c rest ih =>
    by_cases h : c = separator
    · rw [split, if_pos h, List.length_cons, ih, h, List.count_cons_self]
    · rw [split_cons_of_ne h, List.length_modifyHead, ih, List.count_cons_of_ne h]

theorem split_append_separator (rest : List Char) : ∀ text : List Char,
    split separator (text ++ separator :: rest) = split separator text ++ split separator rest
  | [] => by
    show split separator (separator :: rest) = [] :: split separator rest
    rw [split, if_pos rfl]
  | c :: text => by
    rw [List.cons_append]
    by_cases h : c = separator
    · rw [split, if_pos h, split, if_pos h, split_append_separator rest text, List.cons_append]
    · obtain ⟨first, others, hsplit⟩ := List.exists_cons_of_ne_nil (split_ne_nil separator text)
      rw [split_cons_of_ne h, split_cons_of_ne h, split_append_separator rest text, hsplit,
        List.cons_append, List.modifyHead_cons, List.modifyHead_cons, List.cons_append]

/-! ## Joining -/

theorem split_of_not_mem : ∀ {text : List Char}, separator ∉ text → split separator text = [text]
  | [], _ => rfl
  | c :: rest, h => by
    rw [List.mem_cons, not_or] at h
    rw [split, if_neg (Ne.symm h.1), split_of_not_mem h.2]

theorem split_append (rest : List Char) {first : List Char} (h : separator ∉ first) :
    split separator (first ++ separator :: rest) = first :: split separator rest := by
  rw [split_append_separator, split_of_not_mem h, List.singleton_append]

theorem split_intercalate : ∀ {parts : List (List Char)}, parts ≠ [] →
    (∀ part ∈ parts, separator ∉ part) → split separator ([separator].intercalate parts) = parts
  | [], h, _ => absurd rfl h
  | [part], _, h => by
    rw [List.intercalate_singleton, split_of_not_mem (h part List.mem_cons_self)]
  | part :: next :: parts, _, h => by
    rw [List.intercalate_cons_cons, List.append_assoc, List.singleton_append,
      split_append _ (h part List.mem_cons_self),
      split_intercalate (by simp) fun x hx => h x (List.mem_cons_of_mem _ hx)]

theorem not_mem_of_mem_split : ∀ {text part : List Char}, part ∈ split separator text →
    separator ∉ part
  | [], part, h => by
    rw [split, List.mem_singleton] at h
    simp [h]
  | c :: rest, part, h => by
    have ih := @not_mem_of_mem_split rest
    unfold split at h
    split at h
    · rcases List.mem_cons.mp h with rfl | h
      · simp
      · exact ih h
    · rename_i hc
      split at h
      · rw [List.mem_singleton] at h
        simp [h, Ne.symm hc]
      · rename_i first others hsplit
        rw [hsplit] at ih
        rcases List.mem_cons.mp h with rfl | h
        · simpa [Ne.symm hc] using ih List.mem_cons_self
        · exact ih (List.mem_cons_of_mem _ h)

/-! ## Places -/

theorem head?_split : ∀ text : List Char,
    (split separator text).head? = some (text.takeWhile (· != separator))
  | [] => rfl
  | c :: text => by
    by_cases h : c = separator
    · rw [split, if_pos h, h, List.takeWhile_cons_of_neg (by simp)]
      rfl
    · rw [split_cons_of_ne h, List.head?_modifyHead, head?_split text,
        List.takeWhile_cons_of_pos (by simpa using h)]
      rfl

/-- The stretch that goes on from the end of one text into the next. -/
theorem getElem?_split (before after : List Char) :
    (split separator (before ++ after))[before.count separator]? =
      some (before.rtakeWhile (· != separator) ++ after.takeWhile (· != separator)) := by
  have hlast : ∀ c ∈ before.rtakeWhile (· != separator), (c != separator) = true :=
    fun c hc => List.mem_rtakeWhile_imp (p := (· != separator)) hc
  have hnone : (before.rtakeWhile (· != separator)).count separator = 0 :=
    List.count_eq_zero.mpr fun hmem => by simpa using hlast _ hmem
  have hhead : (split separator (before.rtakeWhile (· != separator) ++ after)).head? = _ :=
    head?_split _
  rw [List.takeWhile_append_of_pos hlast, List.head?_eq_getElem?] at hhead
  have hsplit := List.rdropWhile_append_rtakeWhile (p := (· != separator)) (l := before)
  generalize before.rtakeWhile (· != separator) = last at *
  rcases List.eq_nil_or_concat (before.rdropWhile (· != separator)) with hnil | ⟨front, c, hfront⟩
  · rw [hnil, List.nil_append] at hsplit
    rw [← hsplit, hnone]
    exact hhead
  · have hc : c = separator := by
      have := List.rdropWhile_last_not (· != separator) before (by simp [hfront])
      simpa [hfront] using this
    rw [hfront, hc, List.concat_eq_append, List.append_assoc, List.singleton_append] at hsplit
    rw [← hsplit, List.append_assoc, List.cons_append, split_append_separator, List.count_append,
      List.count_cons_self, hnone, List.getElem?_append_right (by rw [length_split]),
      length_split, Nat.zero_add, Nat.sub_self]
    exact hhead

end SvgTidy.Text
