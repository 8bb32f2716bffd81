import Mathlib.Data.List.TakeWhile
import SvgTidy.Proofs.Escapes

/-!
# Texts whose references resolve

`Resolves` says of a text what `expand` finds out while it replaces: behind every ampersand there is
a name, a semicolon, and something that the name stands for. Nothing in it depends on the order in
which the references are looked at.

Principal results: `reference_induction` — the ways in which a text goes on; `resolves_iff` — expansion
succeeds on these texts and no others; `blameless_of_decode` — what is blamed when it fails begins at a
character of the text.
-/

namespace SvgTidy.Markup

/-- Every ampersand begins a reference, and what it names stands for something. -/
def Resolves (table : EntityTable) (raw : List Char) : Prop :=
  ∀ before after, raw = before ++ '&' :: after →
    ∃ name rest, after = name ++ ';' :: rest ∧ (∀ c ∈ name, endsName c = false) ∧
      (replacement? table name).isSome

variable {table : EntityTable}

namespace Resolves

theorem nil : Resolves table [] := by
  intro before after h
  simp at h

theorem cons_iff {c : Char} (hc : c ≠ '&') (rest : List Char) :
    Resolves table (c :: rest) ↔ Resolves table rest := by
  constructor
  · intro h before after hrest
    exact h (c :: before) after (by rw [hrest, List.cons_append])
  · intro h before after hcons
    cases before with
    | nil =>
      rw [List.nil_append, List.cons.injEq] at hcons
      exact absurd hcons.1 hc
    | cons first before =>
      rw [List.cons_append, List.cons.injEq] at hcons
      exact h before after hcons.2

theorem append_iff {plain : List Char} (hplain : '&' ∉ plain) (rest : List Char) :
    Resolves table (plain ++ rest) ↔ Resolves table rest := by
  induction plain with
  | nil => exact Iff.rfl
  | cons c plain ih =>
    rw [List.mem_cons, not_or] at hplain
    exact (cons_iff (Ne.symm hplain.1) _).trans (ih hplain.2)

theorem reference_iff {name : List Char} (hname : ∀ c ∈ name, endsName c = false)
    (rest : List Char) :
    Resolves table ('&' :: (name ++ ';' :: rest)) ↔
      (replacement? table name).isSome ∧ Resolves table rest := by
  have hplain : '&' ∉ name ++ [';'] := by
    intro hmem
    rw [List.mem_append, List.mem_singleton] at hmem
    rcases hmem with hmem | hmem
    · exact absurd (hname _ hmem) (by decide)
    · exact absurd hmem (by decide)
  have hbehind : Resolves table (name ++ ';' :: rest) ↔ Resolves table rest := by
    simpa using append_iff hplain rest
  constructor
  · intro h
    refine ⟨?_, hbehind.mp fun before after hrest => ?_⟩
    · obtain ⟨other, more, heq, hother, hsome⟩ := h [] _ rfl
      have hsame : name = other := by
        rw [← takeWhile_reference hname rest, heq, takeWhile_reference hother]
      exact hsame ▸ hsome
    · exact h ('&' :: before) after (by rw [hrest, List.cons_append])
  · intro ⟨hsome, hrest⟩ before after hcons
    cases before with
    | nil =>
      rw [List.nil_append, List.cons.injEq] at hcons
      exact ⟨name, rest, hcons.2.symm, hname, hsome⟩
    | cons first before =>
      rw [List.cons_append, List.cons.injEq] at hcons
      exact hbehind.mpr hrest before after hcons.2

end Resolves

/-- **Induction along the references of a text.** Behind an ampersand there is a name up to its
semicolon, or there is none. -/
theorem reference_induction {motive : List Char → Prop} (nil : motive [])
    (plain : ∀ c rest, c ≠ '&' → motive rest → motive (c :: rest))
    (reference : ∀ name rest, (∀ c ∈ name, endsName c = false) → motive rest →
      motive ('&' :: (name ++ ';' :: rest)))
    (stray : ∀ rest, (∀ name after, (∀ c ∈ name, endsName c = false) →
      rest ≠ name ++ ';' :: after) → motive ('&' :: rest))
    (raw : List Char) : motive raw := by
  generalize hlength : raw.length = length
  induction length using Nat.strongRecOn generalizing raw with
  | ind length ih =>
    cases raw with
    | nil => exact nil
    | cons c rest =>
      rw [List.length_cons] at hlength
      by_cases hc : c = '&'
      · subst hc
        by_cases hnamed : ∃ name after, (∀ c ∈ name, endsName c = false) ∧
            rest = name ++ ';' :: after
        · obtain ⟨name, after, hname, rfl⟩ := hnamed
          rw [List.length_append, List.length_cons] at hlength
          exact reference name after hname (ih after.length (by omega) after rfl)
        · exact stray rest fun name after hname heq => hnamed ⟨name, after, hname, heq⟩
      · exact plain c rest hc (ih rest.length (by omega) rest rfl)

/-- An ampersand that begins no reference does not expand. -/
theorem expand_stray {rest : List Char}
    (h : ∀ name after, (∀ c ∈ name, endsName c = false) → rest ≠ name ++ ';' :: after) :
    expand table ('&' :: rest) = none := by
  have hsplit := List.takeWhile_append_dropWhile (p := (!endsName ·)) (l := rest)
  rw [expand]
  split
  · rename_i after hafter
    rw [hafter] at hsplit
    refine absurd hsplit.symm (h _ after fun c hmem => ?_)
    simpa using List.mem_takeWhile_imp hmem
  · rfl

/-- **Expansion succeeds on the texts whose references resolve, and on no others.** -/
theorem resolves_iff (table : EntityTable) (raw : List Char) :
    Resolves table raw ↔ (expand table raw).isSome := by
  induction raw using reference_induction with
  | nil =>
    rw [expand]
    exact ⟨fun _ => rfl, fun _ => .nil⟩
  | plain c rest hc ih => rw [Resolves.cons_iff hc, expand_cons hc, Option.isSome_map, ih]
  | reference name rest hname ih =>
    rw [Resolves.reference_iff hname, expand_reference hname, ih]
    cases replacement? table name <;> cases expand table rest <;> simp
  | stray rest hstray =>
    rw [expand_stray hstray]
    constructor
    · intro h
      obtain ⟨name, after, heq, hname, -⟩ := h [] rest rfl
      exact absurd heq (hstray name after hname)
    · intro h
      cases h

/-! ## The reference to blame -/

theorem badReference?_isPrefix {raw blameless : List Char}
    (h : badReference? table raw = some blameless) : ∃ rest, raw = blameless ++ '&' :: rest := by
  induction raw generalizing blameless with
  | nil => simp [badReference?] at h
  | cons c more ih =>
    unfold badReference? at h
    split at h
    · rename_i hbad
      cases h
      exact ⟨more, by rw [hbad.1, List.nil_append]⟩
    · rw [Option.map_eq_some_iff] at h
      obtain ⟨before, hbefore, rfl⟩ := h
      obtain ⟨rest, hrest⟩ := ih hbefore
      exact ⟨rest, by rw [hrest, List.cons_append]⟩

theorem decode_eq_ok_iff {raw text : List Char} :
    decode table raw = .ok text ↔ expand table raw = some text := by
  unfold decode
  split
  · rename_i found hfound
    rw [hfound, Option.some.injEq, Except.ok.injEq]
  · rename_i hnone
    rw [hnone]
    exact ⟨nofun, nofun⟩

/-- **What is blamed begins at a character of the text.** -/
theorem blameless_of_decode {raw blameless : List Char} (h : decode table raw = .error blameless) :
    ¬ Resolves table raw ∧ ∃ c rest, raw = blameless ++ c :: rest := by
  unfold decode at h
  split at h
  · cases h
  · rename_i hnone
    cases h
    have hfails : ¬ Resolves table raw := by
      rw [resolves_iff, hnone]
      exact Bool.false_ne_true
    refine ⟨hfails, ?_⟩
    cases hbad : badReference? table raw with
    | none =>
      cases raw with
      | nil => exact absurd Resolves.nil hfails
      | cons c rest => exact ⟨c, rest, rfl⟩
    | some blameless =>
      obtain ⟨rest, hrest⟩ := badReference?_isPrefix hbad
      exact ⟨'&', rest, hrest⟩

end SvgTidy.Markup
