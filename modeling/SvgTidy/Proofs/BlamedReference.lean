import SvgTidy.Proofs.DecodedReferences
import SvgTidy.Proofs.TokenPlaces

/-!
# Which reference is blamed

A text that does not expand has an ampersand at which the expansion gives up: what stands before it
expands, and no reference stands behind it. The reader names the place of an ampersand that a second
scan looks for, and that scan has a notion of its own of what a reference is. It lets a plus sign
stand before the digits of a number, and it reads a name up to the next semicolon, over further
ampersands. `Overlooks` says where this makes a difference.

Principal results: `isBlameless_iff` — what the second scan takes for the name of a reference;
`RejectedAt.blamed_eq_iff` — which ampersand it finds; `Assembly.decodeAt_blames` — the place that is
named is that of the ampersand at which the expansion gives up, unless that one is overlooked.
-/

namespace SvgTidy

namespace Markup

open EntityTable

variable {table : EntityTable}

/-! ## Where the expansion gives up -/

/-- A reference stands behind an ampersand: a name, a semicolon, and something that the name stands
for. -/
def Refers (table : EntityTable) (after : List Char) : Prop :=
  ∃ name rest, after = name ++ ';' :: rest ∧ (∀ c ∈ name, endsName c = false) ∧
    (replacement? table name).isSome

theorem Refers.append {after : List Char} (h : Refers table after) (more : List Char) :
    Refers table (after ++ more) := by
  obtain ⟨name, rest, rfl, hname, hsome⟩ := h
  exact ⟨name, rest ++ more, by simp, hname, hsome⟩

/-- The text before the ampersand expands, but no reference stands behind it. -/
structure RejectedAt (table : EntityTable) (raw before after : List Char) : Prop where
  split : raw = before ++ '&' :: after
  resolves : Resolves table before
  rejected : ¬ Refers table after

namespace RejectedAt

variable {raw before after before' after' : List Char}

theorem expand_eq_none (h : RejectedAt table raw before after) : expand table raw = none := by
  rw [← Option.not_isSome_iff_eq_none, ← resolves_iff]
  exact fun hresolves => h.rejected (hresolves before after h.split)

/-- The expansion gives up at one ampersand only. -/
theorem unique (h : RejectedAt table raw before after) (h' : RejectedAt table raw before' after') :
    before' = before ∧ after' = after := by
  -- of two, the later one has the earlier one before it, with all of its reference
  have later {between : List Char} {front back front' back' : List Char}
      (hfront : front' = front ++ '&' :: between) (hresolves : Resolves table front')
      (hback : back = between ++ '&' :: back') : Refers table back := by
    subst hback
    exact Refers.append (hresolves front between hfront) _
  rcases List.append_eq_append_iff.mp (h.split.symm.trans h'.split) with
    ⟨more, hmore, hafter⟩ | ⟨more, hmore, hafter⟩
  · cases more with
    | nil => cases hafter; simpa using hmore
    | cons c between =>
      cases hafter
      exact absurd (later hmore h'.resolves rfl) h.rejected
  · cases more with
    | nil => cases hafter; simpa using hmore.symm
    | cons c between =>
      cases hafter
      exact absurd (later hmore h.resolves rfl) h'.rejected

end RejectedAt

/-- **A text that does not expand is rejected at some ampersand.** -/
theorem exists_rejectedAt {raw : List Char} (h : ¬ Resolves table raw) :
    ∃ before after, RejectedAt table raw before after := by
  induction raw using reference_induction with
  | nil => exact absurd Resolves.nil h
  | plain c rest hc ih =>
    rw [Resolves.cons_iff hc] at h
    obtain ⟨before, after, hat⟩ := ih h
    refine ⟨c :: before, after, ?_, ?_, hat.rejected⟩
    · rw [hat.split, List.cons_append]
    · exact (Resolves.cons_iff hc before).mpr hat.resolves
  | reference name rest hname ih =>
    rw [Resolves.reference_iff hname] at h
    by_cases hsome : (replacement? table name).isSome
    · obtain ⟨before, after, hat⟩ := ih fun hrest => h ⟨hsome, hrest⟩
      refine ⟨'&' :: (name ++ ';' :: before), after, ?_, ?_, hat.rejected⟩
      · rw [hat.split]
        simp
      · exact (Resolves.reference_iff hname before).mpr ⟨hsome, hat.resolves⟩
    · refine ⟨[], name ++ ';' :: rest, rfl, Resolves.nil, ?_⟩
      rintro ⟨other, more, heq, hother, hsome'⟩
      rw [← takeWhile_reference hother more, ← heq, takeWhile_reference hname] at hsome'
      exact hsome hsome'
  | stray rest hstray =>
    refine ⟨[], rest, rfl, Resolves.nil, ?_⟩
    rintro ⟨name, after, heq, hname, -⟩
    exact hstray name after hname heq

/-! ## What the second scan takes for a reference -/

/-- The names that only the second scan takes for those of a reference: a number behind a plus sign,
and a declared name that an ampersand occurs in. -/
inductive Mistaken (table : EntityTable) : List Char → Prop where
  | decimal {digits : List Char} (h : ((number? 10 digits).bind character?).isSome) :
      Mistaken table ('#' :: '+' :: digits)
  | hexadecimal {digits : List Char} (h : ((number? 16 digits).bind character?).isSome) :
      Mistaken table ('#' :: 'x' :: '+' :: digits)
  | spanning {name : List Char} (hmem : '&' ∈ name) (hnumber : name.head? ≠ some '#')
      (h : (table.lookup name).isSome) : Mistaken table name

theorem digit?_of_endsName {base : Nat} {c : Char} (h : endsName c = true) : digit? base c = none := by
  rw [endsName, Bool.or_eq_true, beq_iff_eq, beq_iff_eq] at h
  rcases h with rfl | rfl <;> rfl

theorem endsName_of_foldlM {base n m : Nat} {digits : List Char}
    (h : digits.foldlM (fun n c => (digit? base c).map (n * base + ·)) n = some m) :
    ∀ c ∈ digits, endsName c = false := by
  induction digits generalizing n with
  | nil => simp
  | cons first digits ih =>
    rw [List.foldlM_cons, Option.bind_eq_bind, Option.bind_eq_some_iff] at h
    obtain ⟨value, hvalue, hdigits⟩ := h
    intro c hc
    rcases List.mem_cons.mp hc with rfl | hc
    · rw [← Bool.not_eq_true]
      intro hends
      rw [digit?_of_endsName hends] at hvalue
      cases hvalue
    · exact ih hdigits c hc

/-- No mark stands among digits. -/
theorem endsName_of_number? {base : Nat} {digits : List Char}
    (h : ((number? base digits).bind character?).isSome) : ∀ c ∈ digits, endsName c = false := by
  cases hnumber : number? base digits with
  | none => rw [hnumber] at h; cases h
  | some n =>
    cases digits with
    | nil => simp
    | cons first digits => exact endsName_of_foldlM hnumber

/-- A sign is no digit. -/
theorem number?_plus (base : Nat) (digits : List Char) : number? base ('+' :: digits) = none := by
  have hplus : digit? base '+' = none := rfl
  rw [number?, List.foldlM_cons, hplus]
  · rfl
  · simp

theorem signedNumber?_of_ne {base : Nat} {digits : List Char} (h : digits.head? ≠ some '+') :
    signedNumber? base digits = number? base digits := by
  unfold signedNumber?
  split
  · simp at h
  · rfl

/-- Without a declaration no name has an ampersand in it. -/
theorem resolve?_spanning {name : List Char} (hmem : '&' ∈ name) :
    table.resolve? name = table.lookup name := by
  have hpredefined : predefined.lookup name = none := by
    rw [List.lookup_eq_none_iff]
    intro entry hentry
    have hall : ∀ entry ∈ predefined, '&' ∉ entry.1 := by decide
    rw [bne_iff_ne]
    rintro rfl
    exact hall entry hentry hmem
  rw [resolve?, List.lookup_append, hpredefined, Option.or_none]

/-- A number is taken for one by the second scan if it is one, or if it is one behind a plus sign. -/
theorem signedNumber?_iff {base : Nat} {digits : List Char} :
    ((signedNumber? base digits).bind character?).isSome ↔
      ((∀ c ∈ digits, endsName c = false) ∧ ((number? base digits).bind character?).isSome) ∨
        ∃ unsigned, digits = '+' :: unsigned ∧
          ((number? base unsigned).bind character?).isSome := by
  by_cases hsign : digits.head? = some '+'
  · obtain ⟨unsigned, rfl⟩ := List.head?_eq_some_iff.mp hsign
    rw [number?_plus]
    simp [signedNumber?]
  · rw [signedNumber?_of_ne hsign]
    constructor
    · exact fun h => .inl ⟨endsName_of_number? h, h⟩
    · rintro (⟨-, h⟩ | ⟨unsigned, rfl, -⟩)
      · exact h
      · simp at hsign

/-- A name is looked up by both; the second scan looks up names with an ampersand, too. -/
theorem isSome_resolve?_iff {name : List Char} (hname : ';' ∉ name) :
    (table.resolve? name).isSome ↔
      ((∀ c ∈ name, endsName c = false) ∧ (table.resolve? name).isSome) ∨
        ('&' ∈ name ∧ (table.lookup name).isSome) := by
  by_cases hmem : '&' ∈ name
  · have hends : ¬ ∀ c ∈ name, endsName c = false := fun h => absurd (h _ hmem) (by decide)
    simp [resolve?_spanning hmem, hmem, hends]
  · have hends : ∀ c ∈ name, endsName c = false := by
      intro c hc
      rw [endsName, Bool.or_eq_false_iff, beq_eq_false_iff_ne, beq_eq_false_iff_ne]
      exact ⟨fun heq => hmem (heq ▸ hc), fun heq => hname (heq ▸ hc)⟩
    simp only [hmem, false_and, or_false]
    exact ⟨fun h => ⟨hends, h⟩, And.right⟩

/-- **What the second scan takes for the name of a reference**: what is one, and what is mistaken for
one. -/
theorem isBlameless_iff {name : List Char} (hname : ';' ∉ name) :
    isBlameless table name = true ↔
      ((∀ c ∈ name, endsName c = false) ∧ (replacement? table name).isSome) ∨
        Mistaken table name := by
  have hash : endsName '#' = false := rfl
  have hx : endsName 'x' = false := rfl
  unfold isBlameless replacement?
  split
  · rename_i digits
    rw [signedNumber?_iff]
    simp only [numbered?, Option.isSome_map, List.forall_mem_cons, hash, hx, true_and]
    refine or_congr_right ⟨?_, fun h => ?_⟩
    · rintro ⟨unsigned, rfl, h⟩
      exact .hexadecimal h
    · cases h with
      | hexadecimal h => exact ⟨_, rfl, h⟩
      | spanning _ hnumber _ => simp at hnumber
  · rename_i digits hfirst
    have hnumbered : numbered? digits = (number? 10 digits).bind character? := by
      unfold numbered?
      split
      · exact absurd rfl (hfirst _)
      · rfl
    rw [signedNumber?_iff]
    simp only [hnumbered, Option.isSome_map, List.forall_mem_cons, hash, true_and]
    refine or_congr_right ⟨?_, fun h => ?_⟩
    · rintro ⟨unsigned, rfl, h⟩
      exact .decimal h
    · cases h with
      | decimal h => exact ⟨_, rfl, h⟩
      | hexadecimal h => exact absurd rfl (hfirst _)
      | spanning _ hnumber _ => simp at hnumber
  · rename_i hhex hnumber
    split
    · exact absurd rfl (hnumber _)
    · have hfirst : name.head? ≠ some '#' := by
        rw [Ne, List.head?_eq_some_iff]
        rintro ⟨digits, rfl⟩
        exact hnumber _ rfl
      refine (isSome_resolve?_iff hname).trans (or_congr_right ⟨?_, fun h => ?_⟩)
      · rintro ⟨hmem, h⟩
        exact .spanning hmem hfirst h
      · cases h with
        | decimal _ => exact absurd rfl (hnumber _)
        | hexadecimal _ => exact absurd rfl (hnumber _)
        | spanning hmem _ h => exact ⟨hmem, h⟩

/-- The second scan passes over an ampersand behind which no reference stands. -/
def Overlooks (table : EntityTable) (after : List Char) : Prop :=
  ∃ name rest, after = name ++ ';' :: rest ∧ ';' ∉ name ∧ Mistaken table name

/-- It passes over the ampersands before references, and over those it overlooks. -/
theorem passesOver_iff {after : List Char} :
    (';' ∈ after ∧ isBlameless table (after.takeWhile (· != ';')) = true) ↔
      Refers table after ∨ Overlooks table after := by
  have hsemicolon {name : List Char} (hname : ∀ c ∈ name, endsName c = false) : ';' ∉ name :=
    fun hmem => absurd (hname _ hmem) (by decide)
  have hname {name rest : List Char} (hname : ';' ∉ name) :
      (name ++ ';' :: rest).takeWhile (· != ';') = name := by
    apply takeWhile_append_stop
    · intro c hc
      rw [bne_iff_ne]
      exact fun heq => hname (heq ▸ hc)
    · intro c hc
      cases hc
      rfl
  constructor
  · rintro ⟨hmem, h⟩
    obtain ⟨name, rest, rfl, hfree⟩ := List.eq_append_cons_of_mem hmem
    rw [hname hfree, isBlameless_iff hfree] at h
    rcases h with ⟨hends, hsome⟩ | h
    · exact .inl ⟨name, rest, rfl, hends, hsome⟩
    · exact .inr ⟨name, rest, rfl, hfree, h⟩
  · rintro (⟨name, rest, rfl, hends, hsome⟩ | ⟨name, rest, rfl, hfree, h⟩)
    · refine ⟨by simp, ?_⟩
      rw [hname (hsemicolon hends), isBlameless_iff (hsemicolon hends)]
      exact .inl ⟨hends, hsome⟩
    · refine ⟨by simp, ?_⟩
      rw [hname hfree, isBlameless_iff hfree]
      exact .inr h

/-! ## Which ampersand the second scan finds -/

theorem badReference?_ampersand (table : EntityTable) (after : List Char) :
    (Refers table after ∨ Overlooks table after) ∧
        badReference? table ('&' :: after) = (badReference? table after).map ('&' :: ·) ∨
      ¬ (Refers table after ∨ Overlooks table after) ∧
        badReference? table ('&' :: after) = some [] := by
  rw [badReference?, ← passesOver_iff]
  by_cases h : ';' ∈ after ∧ isBlameless table (after.takeWhile (· != ';')) = true
  · exact .inl ⟨h, if_neg fun hbad => hbad.2 h⟩
  · exact .inr ⟨h, if_pos ⟨rfl, h⟩⟩

theorem badReference?_cons {c : Char} (hc : c ≠ '&') (rest : List Char) :
    badReference? table (c :: rest) = (badReference? table rest).map (c :: ·) := by
  rw [badReference?, if_neg fun h => hc h.1]

/-- It passes over a text that expands. -/
theorem badReference?_append {before : List Char} (h : Resolves table before) (rest : List Char) :
    badReference? table (before ++ rest) = (badReference? table rest).map (before ++ ·) := by
  induction before with
  | nil => cases hbad : badReference? table rest <;> simp [hbad]
  | cons c before ih =>
    have hbefore := ih fun front back hsplit =>
      h (c :: front) back (by rw [hsplit, List.cons_append])
    have hcons : badReference? table (c :: (before ++ rest)) =
        (badReference? table (before ++ rest)).map (c :: ·) := by
      by_cases hc : c = '&'
      · subst hc
        have hrefers : Refers table before := h [] before rfl
        rcases badReference?_ampersand table (before ++ rest) with ⟨-, heq⟩ | ⟨hnot, -⟩
        · exact heq
        · exact absurd (.inl (hrefers.append rest)) hnot
      · exact badReference?_cons hc _
    rw [List.cons_append, hcons, hbefore, Option.map_map]
    rfl

/-- **It finds nothing in a text in which every ampersand stands before a reference or is
overlooked.** -/
theorem badReference?_eq_none_iff {raw : List Char} :
    badReference? table raw = none ↔
      ∀ front back, raw = front ++ '&' :: back → Refers table back ∨ Overlooks table back := by
  induction raw with
  | nil => simp [badReference?]
  | cons c rest ih =>
    have hsplits {P : List Char → Prop} :
        (∀ front back, c :: rest = front ++ '&' :: back → P back) ↔
          (c = '&' → P rest) ∧ ∀ front back, rest = front ++ '&' :: back → P back := by
      simp only [List.cons_eq_append_iff]
      constructor
      · intro h
        exact ⟨fun hc => h [] rest (.inl ⟨rfl, by rw [hc]⟩),
          fun front back hback => h (c :: front) back (.inr ⟨front, rfl, hback⟩)⟩
      · rintro ⟨hfirst, hrest⟩ front back (⟨-, heq⟩ | ⟨front, -, heq⟩)
        · cases heq
          exact hfirst rfl
        · exact hrest front back heq
    rw [hsplits, ← ih]
    by_cases hc : c = '&'
    · subst hc
      rcases badReference?_ampersand table rest with ⟨h, heq⟩ | ⟨h, heq⟩
      · simp [heq, h]
      · simp [heq, h]
    · rw [badReference?_cons hc]
      simp [hc]

namespace RejectedAt

variable {raw before after : List Char}

/-- **What stands before the ampersand that is found** is what stands before the one at which the
expansion gives up, unless that one is overlooked. -/
theorem blamed_eq_iff (h : RejectedAt table raw before after) :
    (badReference? table raw).getD [] = before ↔ ¬ Overlooks table after ∨ before = [] ∧
      ∀ front back, after = front ++ '&' :: back → Refers table back ∨ Overlooks table back := by
  rw [h.split, badReference?_append h.resolves, ← badReference?_eq_none_iff]
  rcases badReference?_ampersand table after with ⟨hpasses, heq⟩ | ⟨hstops, heq⟩
  · have hoverlooks : Overlooks table after := hpasses.resolve_left h.rejected
    rw [heq]
    cases badReference? table after with
    | none => simp [hoverlooks, eq_comm]
    | some more => simp [hoverlooks]
  · have hnot : ¬ Overlooks table after := fun hoverlooks => hstops (.inr hoverlooks)
    simp [heq, hnot]

end RejectedAt

/-! ## The place that is named -/

/-- **The place of a reference that stands for nothing.** A text or a value is decoded if it expands.
If it does not, there is one ampersand at which the expansion gives up, and the place that is named
is that of this ampersand exactly if it is not overlooked; or if it is the first character, and there
is nothing to find behind it either, for then the start of the text is named. -/
theorem Assembly.decodeAt_blames (s : Assembly) (raw : List Char) (pos : Position) :
    match s.decodeAt raw pos with
    | .ok text => expand s.entities raw = some text
    | .error flaw => flaw.fault = .badReference ∧
      ∃ before after, RejectedAt s.entities raw before after ∧
        (flaw.pos = pos.advance before ↔ ¬ Overlooks s.entities after ∨ before = [] ∧
          ∀ front back, after = front ++ '&' :: back →
            Refers s.entities back ∨ Overlooks s.entities back) := by
  cases hdecode : s.decodeAt raw pos with
  | ok text => exact expand_of_decodeAt hdecode
  | error flaw =>
    obtain ⟨hfails, hfault, -⟩ := fails_of_decodeAt hdecode
    obtain ⟨before, after, hat⟩ := exists_rejectedAt hfails
    refine ⟨hfault, before, after, hat, ?_⟩
    have hpos : flaw.pos = pos.advance ((badReference? s.entities raw).getD []) := by
      rw [decodeAt, decode, hat.expand_eq_none] at hdecode
      cases hdecode
      rfl
    have hbefore : before <+: raw := ⟨_, hat.split.symm⟩
    have hblamed : (badReference? s.entities raw).getD [] <+: raw := by
      cases hbad : badReference? s.entities raw with
      | none => exact List.nil_prefix
      | some blameless =>
        obtain ⟨rest, hrest⟩ := badReference?_isPrefix hbad
        exact ⟨_, hrest.symm⟩
    rw [hpos, Position.advance_inj hblamed hbefore]
    exact hat.blamed_eq_iff

/-- The sign is overlooked: the expansion gives up at the ampersand, but the start of the text is
named. -/
theorem decodeAt_blames_sign :
    let raw := "ab&#+65;".toList
    RejectedAt [] raw "ab".toList "#+65;".toList ∧
      ∃ flaw, Assembly.start.decodeAt raw ⟨1, 6⟩ = .error flaw ∧ flaw.pos = ⟨1, 6⟩ ∧
        flaw.pos ≠ Position.advance ⟨1, 6⟩ "ab".toList := by
  intro raw
  have hat : RejectedAt [] raw "ab".toList "#+65;".toList := by
    refine ⟨rfl, ?_, ?_⟩
    · intro before after hsplit
      have hmem : '&' ∈ "ab".toList := by simp [hsplit]
      exact absurd hmem (by decide)
    · rintro ⟨name, rest, heq, hname, hsome⟩
      have hread : name = "#+65".toList := by
        rw [← takeWhile_reference hname rest, ← heq]
        rfl
      subst hread
      exact absurd hsome (by decide)
  have hblames := Assembly.decodeAt_blames .start raw ⟨1, 6⟩
  have hdecode : Assembly.start.decodeAt raw ⟨1, 6⟩ = .error ⟨.badReference, ⟨1, 6⟩⟩ := by
    have hexpand : expand Assembly.start.entities raw = none := hat.expand_eq_none
    rw [Assembly.decodeAt, decode, hexpand]
    rfl
  rw [hdecode] at hblames
  obtain ⟨-, before, after, hat', hplace⟩ := hblames
  obtain ⟨rfl, rfl⟩ := hat.unique hat'
  refine ⟨hat, _, hdecode, rfl, fun hpos => ?_⟩
  have hoverlooks : Overlooks [] "#+65;".toList :=
    ⟨"#+65".toList, [], rfl, by decide, .decimal (by decide)⟩
  rcases hplace.mp hpos with hnot | ⟨hnil, -⟩
  · exact hnot hoverlooks
  · cases hnil

end Markup

end SvgTidy
