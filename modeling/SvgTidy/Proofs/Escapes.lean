import SvgTidy.Markup.Layout
import SvgTidy.Markup.Reference

/-!
# Escaping is undone by expansion

Writing puts references for the characters that markup needs, and reading expands them again. Both
escapes are undone as long as the entities in force leave the predefined names their meaning.

Principal results: `expand_escapeText`, `expand_escapeValue` — expansion undoes either escape;
`expand_plain` — and what holds no ampersand is its own expansion.
-/

namespace SvgTidy.Markup

variable {table : EntityTable}

/-! ## Expansion, step by step -/

theorem expand_cons {c : Char} (hc : c ≠ '&') (rest : List Char) :
    expand table (c :: rest) = (expand table rest).map (c :: ·) := by
  rw [expand]
  exact fun h => hc h

theorem takeWhile_reference {name : List Char} (hname : ∀ c ∈ name, endsName c = false)
    (rest : List Char) : (name ++ ';' :: rest).takeWhile (!endsName ·) = name := by
  rw [List.takeWhile_append_of_pos fun c hc => by rw [hname c hc]; rfl,
    List.takeWhile_cons_of_neg (by decide), List.append_nil]

theorem dropWhile_reference {name : List Char} (hname : ∀ c ∈ name, endsName c = false)
    (rest : List Char) : (name ++ ';' :: rest).dropWhile (!endsName ·) = ';' :: rest := by
  rw [List.dropWhile_append_of_pos fun c hc => by rw [hname c hc]; rfl,
    List.dropWhile_cons_of_neg (by decide)]

theorem expand_reference {name : List Char} (hname : ∀ c ∈ name, endsName c = false)
    (rest : List Char) :
    expand table ('&' :: (name ++ ';' :: rest)) =
      match replacement? table name, expand table rest with
      | some replaced, some expanded => some (replaced ++ expanded)
      | _, _ => none := by
  have htake := takeWhile_reference hname rest
  have hdrop := dropWhile_reference hname rest
  rw [expand]
  split
  · rename_i after hafter
    cases hdrop.symm.trans hafter
    cases hreplace : replacement? table name <;> cases expand table rest <;>
      simp only [htake, hreplace]
  · rename_i hafter
    exact absurd hdrop (hafter rest)

/-- A text without ampersands is its own expansion. -/
theorem expand_plain {text : List Char} (h : '&' ∉ text) : expand table text = some text := by
  induction text with
  | nil => rw [expand]
  | cons c rest ih =>
    rw [List.mem_cons, not_or] at h
    rw [expand_cons (Ne.symm h.1), ih h.2]
    rfl

/-- Expansion takes a plain stretch as it is. -/
theorem expand_plain_append {plain : List Char} (h : '&' ∉ plain) (rest : List Char) :
    expand table (plain ++ rest) = (expand table rest).map (plain ++ ·) := by
  induction plain with
  | nil => simp
  | cons c plain ih =>
    rw [List.mem_cons, not_or] at h
    rw [List.cons_append, expand_cons (Ne.symm h.1), ih h.2, Option.map_map]
    rfl

/-! ## Predefined names -/

namespace EntityTable

/-- What the table says of a predefined name for the character, if anything, is that character. -/
def Spares (table : EntityTable) (c : Char) : Prop :=
  ∀ name, (name, [c]) ∈ predefined → ∀ value, table.lookup name = some value → value = [c]

/-- No entry gives a predefined name another meaning. -/
def KeepsPredefined (table : EntityTable) : Prop :=
  ∀ entry ∈ table, entry.1 ∉ predefined.map (·.1)

instance : DecidablePred KeepsPredefined :=
  fun table => inferInstanceAs (Decidable (∀ entry ∈ table, entry.1 ∉ predefined.map (·.1)))

theorem KeepsPredefined.spares (h : table.KeepsPredefined) (c : Char) : table.Spares c := by
  intro name hname value hvalue
  have hnone : table.lookup name = none := by
    rw [List.lookup_eq_none_iff]
    intro entry hentry
    rw [bne_iff_ne]
    rintro rfl
    exact h entry hentry (List.mem_map.mpr ⟨_, hname, rfl⟩)
  rw [hnone] at hvalue
  cases hvalue

theorem lookup_predefined {name : List Char} {c : Char} (hname : (name, [c]) ∈ predefined) :
    predefined.lookup name = some [c] := by
  have hlookup : ∀ entry ∈ predefined, predefined.lookup entry.1 = some entry.2 := by decide
  exact hlookup _ hname

/-- A predefined name stands for what the table says of it, else for its character. -/
theorem resolve?_predefined {name : List Char} {c : Char} (hname : (name, [c]) ∈ predefined) :
    table.resolve? name = some ((table.lookup name).getD [c]) := by
  rw [resolve?, List.lookup_append, lookup_predefined hname]
  cases table.lookup name <;> rfl

theorem Spares.resolve? {c : Char} (h : table.Spares c) {name : List Char}
    (hname : (name, [c]) ∈ predefined) : table.resolve? name = some [c] := by
  rw [resolve?_predefined hname]
  cases hvalue : table.lookup name with
  | none => rfl
  | some value => rw [h name hname value hvalue, Option.getD_some]

end EntityTable

open EntityTable

/-- A predefined name between its marks is expanded to what it stands for. -/
theorem expand_named {name : List Char} (hname : name ∈ predefined.map (·.1))
    {replaced : List Char} (hresolve : table.resolve? name = some replaced) (rest : List Char) :
    expand table ('&' :: (name ++ ';' :: rest)) = (expand table rest).map (replaced ++ ·) := by
  have hopen : ∀ name ∈ predefined.map (·.1), name.all (!endsName ·) = true := by decide
  have hplain : ∀ name ∈ predefined.map (·.1), name.head? ≠ some '#' := by decide
  have hreplace : replacement? table name = some replaced := by
    unfold replacement?
    split
    · exact absurd rfl (hplain _ hname)
    · exact hresolve
  have hends : ∀ c ∈ name, endsName c = false := by
    intro c hc
    simpa using List.all_eq_true.mp (hopen _ hname) c hc
  rw [expand_reference hends, hreplace]
  cases expand table rest <;> rfl

theorem expand_predefined {c : Char} (h : table.Spares c) (name : List Char)
    (hname : (name, [c]) ∈ predefined) (rest : List Char) :
    expand table ('&' :: (name ++ ';' :: rest)) = (expand table rest).map (c :: ·) :=
  expand_named (List.mem_map_of_mem hname) (h.resolve? hname) rest

theorem expand_escapeChar {c : Char} (h : table.Spares c) (rest : List Char) :
    expand table (escapeChar c ++ rest) = (expand table rest).map (c :: ·) := by
  unfold escapeChar
  split
  · exact expand_predefined h "amp".toList (by decide) rest
  · exact expand_predefined h "lt".toList (by decide) rest
  · exact expand_predefined h "gt".toList (by decide) rest
  · exact expand_predefined h "apos".toList (by decide) rest
  · exact expand_predefined h "quot".toList (by decide) rest
  · exact expand_cons (by assumption) rest

theorem expand_escapeValueChar {c : Char} (h : c ≠ '\'' → table.Spares c) (rest : List Char) :
    expand table (escapeValueChar c ++ rest) = (expand table rest).map (c :: ·) := by
  unfold escapeValueChar
  split
  · subst c
    exact expand_cons (by decide) rest
  · rename_i hc
    exact expand_escapeChar (h hc) rest

/-- **Expansion undoes the escaping of text.** -/
theorem expand_escapeText {text : List Char} (h : ∀ c ∈ text, table.Spares c) (rest : List Char) :
    expand table (escapeText text ++ rest) = (expand table rest).map (text ++ ·) := by
  induction text with
  | nil => simp [escapeText]
  | cons c text ih =>
    have hcons : escapeText (c :: text) = escapeChar c ++ escapeText text := List.flatMap_cons
    rw [hcons, List.append_assoc, expand_escapeChar (h c List.mem_cons_self),
      ih fun x hx => h x (List.mem_cons_of_mem _ hx), Option.map_map]
    rfl

/-- **Expansion undoes the escaping of values.** -/
theorem expand_escapeValue {value : List Char} (h : ∀ c ∈ value, c ≠ '\'' → table.Spares c) :
    expand table (escapeValue value) = some value := by
  induction value with
  | nil => rw [escapeValue, List.flatMap_nil, expand]
  | cons c value ih =>
    have hcons : escapeValue (c :: value) = escapeValueChar c ++ escapeValue value :=
      List.flatMap_cons
    rw [hcons, expand_escapeValueChar (h c List.mem_cons_self),
      ih fun x hx => h x (List.mem_cons_of_mem _ hx)]
    rfl

/-! ## Characters that do not occur -/

theorem not_mem_escapeChar {mark : Char} (hmark : mark ∈ ['<', '"']) (c : Char) :
    mark ∉ escapeChar c := by
  simp only [List.mem_cons, List.not_mem_nil, or_false] at hmark
  unfold escapeChar
  split <;> rcases hmark with rfl | rfl <;> simp_all [eq_comm]

/-- Escaped text holds no opening bracket. -/
theorem not_mem_escapeText (text : List Char) : '<' ∉ escapeText text := by
  rw [escapeText, List.mem_flatMap]
  rintro ⟨c, -, hc⟩
  exact not_mem_escapeChar (by decide) c hc

/-- An escaped value holds no double quote. -/
theorem not_mem_escapeValue (value : List Char) : '"' ∉ escapeValue value := by
  rw [escapeValue, List.mem_flatMap]
  rintro ⟨c, -, hc⟩
  unfold escapeValueChar at hc
  split at hc
  · subst c
    simp at hc
  · exact not_mem_escapeChar (by decide) c hc

/-- Blanks stand for themselves in text. -/
theorem escapeText_blank {text : List Char} (h : ∀ c ∈ text, Text.isBlank c = true) :
    escapeText text = text := by
  induction text with
  | nil => rfl
  | cons c text ih =>
    have hc : escapeChar c = [c] := by
      have hblank := h c List.mem_cons_self
      unfold escapeChar
      split <;> first | rfl | exact absurd hblank (by decide)
    rw [escapeText, List.flatMap_cons, hc, ← escapeText,
      ih fun x hx => h x (List.mem_cons_of_mem _ hx)]
    rfl

theorem escapeText_append (s t : List Char) : escapeText (s ++ t) = escapeText s ++ escapeText t :=
  List.flatMap_append

end SvgTidy.Markup
