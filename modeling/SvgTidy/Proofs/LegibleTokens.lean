import Mathlib.Data.List.Induction
import Mathlib.Data.List.TakeWhile
import SvgTidy.Markup.TokenStream
import SvgTidy.Proofs.Escapes

/-!
# What tokens are made of

Which names and bodies a token can have. A body is one in which the closing mark does not occur too
early; `Closed` and `DoctypeClosed` say so without looking at the text after the mark.

Principal results: `before?_append`, `doctypeBody?_append` — where a body ends does not depend on
what follows its mark; `legible_of_readToken` — whatever is read is legible.
-/

namespace SvgTidy.Markup

/-! ## Runs of characters -/

section Runs

variable {p : Char → Bool} {run rest : List Char}

theorem takeWhile_append_stop (hrun : ∀ c ∈ run, p c = true)
    (hrest : ∀ c, rest.head? = some c → p c = false) : (run ++ rest).takeWhile p = run := by
  rw [List.takeWhile_append_of_pos hrun]
  cases rest with
  | nil => simp
  | cons c rest => rw [List.takeWhile_cons_of_neg (by simp [hrest c rfl]), List.append_nil]

theorem dropWhile_append_stop (hrun : ∀ c ∈ run, p c = true)
    (hrest : ∀ c, rest.head? = some c → p c = false) : (run ++ rest).dropWhile p = rest := by
  rw [List.dropWhile_append_of_pos hrun]
  cases rest with
  | nil => rfl
  | cons c rest => rw [List.dropWhile_cons_of_neg (by simp [hrest c rfl])]

theorem Cursor.rest_skipRun (c : Cursor) (p : Char → Bool) :
    (c.skipRun p).rest = c.rest.dropWhile p := by
  have hsplit := List.takeWhile_append_dropWhile (p := p) (l := c.rest)
  calc c.rest.drop (c.rest.takeWhile p).length
      = (c.rest.takeWhile p ++ c.rest.dropWhile p).drop (c.rest.takeWhile p).length := by
        rw [hsplit]
    _ = c.rest.dropWhile p := List.drop_left

theorem head?_dropWhile_ne (p : Char → Bool) (text : List Char) {c : Char}
    (hc : (text.dropWhile p).head? = some c) : p c = false := by
  have := List.head?_dropWhile_not p text
  rw [hc] at this
  simpa using this

end Runs

/-! ## Names -/

/-- A name: a character that may begin one and others that may go on. -/
def IsName (name : List Char) : Prop :=
  ∃ first others, name = first :: others ∧ isNameStart first = true ∧
    ∀ c ∈ others, isNameChar c = true

theorem isNameChar_of_isNameStart {c : Char} (h : isNameStart c = true) : isNameChar c = true := by
  simp [isNameChar, h]

theorem IsName.isNameChar {name : List Char} (h : IsName name) :
    ∀ c ∈ name, isNameChar c = true := by
  obtain ⟨first, others, rfl, hfirst, hothers⟩ := h
  intro c hc
  rcases List.mem_cons.mp hc with rfl | hc
  · exact isNameChar_of_isNameStart hfirst
  · exact hothers c hc

/-- What begins like a name and goes on as one is one. -/
theorem isName_run {c : Cursor} {first : Char} {tail : List Char} (hc : c.rest = first :: tail)
    (hfirst : isNameStart first = true) : IsName (c.run isNameChar) := by
  refine ⟨first, tail.takeWhile Markup.isNameChar, ?_, hfirst, fun x hx => ?_⟩
  · rw [Cursor.run, hc, List.takeWhile_cons_of_pos (isNameChar_of_isNameStart hfirst)]
  · exact List.mem_takeWhile_imp hx

/-! ## Space and quotes -/

/-- Space where none is needed. -/
structure Space where
  chars : List Char
  isSpace : ∀ c ∈ chars, isSpace c = true

/-- Space that keeps two parts apart. -/
structure Separator extends Space where
  ne_nil : chars ≠ []

/-- No space. -/
def Space.none : Space where
  chars := []
  isSpace := nofun

/-- One blank. -/
def Separator.single : Separator where
  chars := [' ']
  isSpace := by simp [Markup.isSpace]
  ne_nil := by simp

/-- A quoted literal. -/
structure Literal where
  quote : Char
  value : List Char
  isQuote : quote = '"' ∨ quote = '\''
  closed : quote ∉ value

def Literal.chars (l : Literal) : List Char :=
  l.quote :: (l.value ++ [l.quote])

/-! ## Closing marks -/

/-- A body that a closing mark ends: the mark does not occur before. -/
def Closed (mark body : List Char) : Prop :=
  Cursor.before? mark (body ++ mark) = some body

theorem before?_append (mark : List Char) (hmark : mark ≠ []) (rest : List Char) :
    ∀ body : List Char, Cursor.before? mark (body ++ (mark ++ rest)) = some body ↔ Closed mark body
  | [] => by
    obtain ⟨c, cs, rfl⟩ := List.exists_cons_of_ne_nil hmark
    simp [Closed, Cursor.before?]
  | c :: body => by
    -- whether the mark stands at the front is decided within the body and the mark
    have hshort : mark.length ≤ (c :: (body ++ mark)).length := by
      simp only [List.length_cons, List.length_append]
      omega
    have hfront : mark <+: c :: (body ++ (mark ++ rest)) ↔ mark <+: c :: (body ++ mark) := by
      have hlong : c :: (body ++ mark) <+: c :: (body ++ (mark ++ rest)) :=
        ⟨rest, by simp⟩
      exact ⟨fun h => List.prefix_of_prefix_length_le h hlong hshort, fun h => h.trans hlong⟩
    have ih := before?_append mark hmark rest body
    rw [Closed] at ih ⊢
    simp only [List.cons_append, Cursor.before?, List.isPrefixOf_iff_prefix, hfront]
    split
    · simp
    · simp [ih]

theorem split_of_before? {mark : List Char} : ∀ {text body : List Char},
    Cursor.before? mark text = some body → ∃ rest, text = body ++ (mark ++ rest)
  | [], _, h => by simp [Cursor.before?] at h
  | c :: text, body, h => by
    unfold Cursor.before? at h
    split at h
    · rename_i hfront
      cases h
      obtain ⟨rest, hrest⟩ := List.isPrefixOf_iff_prefix.mp hfront
      exact ⟨rest, hrest.symm⟩
    · obtain ⟨inner, hinner, rfl⟩ := Option.map_eq_some_iff.mp h
      obtain ⟨rest, rfl⟩ := split_of_before? hinner
      exact ⟨rest, rfl⟩

theorem closed_of_before? {mark text body : List Char} (hmark : mark ≠ [])
    (h : Cursor.before? mark text = some body) : Closed mark body := by
  obtain ⟨rest, rfl⟩ := split_of_before? h
  exact (before?_append mark hmark rest body).mp h

/-- The mark may not occur in the body, nor begin in it and go on in the mark. -/
theorem closed_iff_absent {mark : List Char} (hmark : mark ≠ []) : ∀ body : List Char,
    Closed mark body ↔ ¬ mark <:+: body ++ mark.dropLast
  | [] => by
    obtain ⟨c, others, rfl⟩ := List.exists_cons_of_ne_nil hmark
    have hlong : ¬ (c :: others) <:+: (c :: others).dropLast := by
      intro h
      have := h.length_le
      rw [List.length_dropLast, List.length_cons] at this
      omega
    simpa [Closed, Cursor.before?] using hlong
  | c :: body => by
    have hlong : c :: (body ++ mark.dropLast) <+: c :: (body ++ mark) :=
      List.cons_prefix_cons.mpr
        ⟨rfl, (List.prefix_append_right_inj body).mpr (List.dropLast_prefix mark)⟩
    have hshort : mark.length ≤ (c :: (body ++ mark.dropLast)).length := by
      simp only [List.length_cons, List.length_append, List.length_dropLast]
      omega
    have hfront : mark <+: c :: (body ++ mark) ↔ mark <+: c :: (body ++ mark.dropLast) :=
      ⟨fun h => List.prefix_of_prefix_length_le h hlong hshort, fun h => h.trans hlong⟩
    have ih := closed_iff_absent hmark body
    rw [Closed] at ih ⊢
    simp only [List.cons_append, Cursor.before?, List.isPrefixOf_iff_prefix, hfront,
      List.infix_cons_iff, not_or]
    split
    · rename_i h
      simp [h]
    · rename_i h
      simp [h, ih]

/-- Behind the body no occurrence can end where the last character of the mark is missing. -/
theorem infix_append_iff {mark front : List Char} {last : Char} (hlast : mark.getLast? = some last)
    (hfront : last ∉ front) (body : List Char) : mark <:+: body ++ front ↔ mark <:+: body := by
  induction front using List.reverseRecOn with
  | nil => rw [List.append_nil]
  | append_singleton front c ih =>
    rw [List.mem_append, not_or, List.mem_singleton] at hfront
    rw [← List.append_assoc, List.infix_concat_iff, ih hfront.1, or_iff_right]
    intro hends
    obtain ⟨before, hbefore⟩ := hends
    have hboth := congrArg List.getLast? hbefore
    rw [List.getLast?_append, hlast, List.getLast?_append] at hboth
    exact hfront.2 (by simpa using hboth)

theorem closed_comment_iff (body : List Char) :
    Closed "--".toList body ↔ ¬ "--".toList <:+: body ∧ body.getLast? ≠ some '-' := by
  have hends : "--".toList <:+ body ++ ['-'] ↔ body.getLast? = some '-' := by
    rw [← List.singleton_suffix_iff_getLast?_eq_some, List.suffix_concat_iff]
    constructor
    · rintro (hnil | ⟨front, hfront, hsuffix⟩)
      · cases hnil
      · have hfront : ['-'] ++ ['-'] = front ++ ['-'] := hfront
        obtain rfl := List.append_cancel_right hfront
        exact hsuffix
    · exact fun hsuffix => .inr ⟨['-'], rfl, hsuffix⟩
  rw [closed_iff_absent (by decide)]
  show ¬ "--".toList <:+: body ++ ['-'] ↔ _
  rw [List.infix_concat_iff, hends, not_or, and_comm]

theorem closed_cdata_iff (body : List Char) :
    Closed "]]>".toList body ↔ ¬ "]]>".toList <:+: body := by
  rw [closed_iff_absent (by decide), infix_append_iff rfl (by decide)]

theorem closed_instruction_iff (body : List Char) :
    Closed "?>".toList body ↔ ¬ "?>".toList <:+: body := by
  rw [closed_iff_absent (by decide), infix_append_iff rfl (by decide)]

/-- A body that the bracket of a doctype ends. -/
def DoctypeClosed (body : List Char) : Prop :=
  Cursor.doctypeBody? none 0 (body ++ ['>']) = some body

theorem doctypeBody?_append (rest : List Char) :
    ∀ (body : List Char) (quote : Option Char) (depth : Nat),
      Cursor.doctypeBody? quote depth (body ++ '>' :: rest) = some body ↔
        Cursor.doctypeBody? quote depth (body ++ ['>']) = some body
  | [], some quote, depth => by simp [Cursor.doctypeBody?]
  | [], none, depth => by
    simp only [List.nil_append, Cursor.doctypeBody?]
    split <;> simp
  | c :: body, some quote, depth => by
    have ih := doctypeBody?_append rest body (if c = quote then none else some quote) depth
    simp [Cursor.doctypeBody?, ih]
  | c :: body, none, depth => by
    have ih := doctypeBody?_append rest body
    simp only [List.cons_append, Cursor.doctypeBody?]
    split
    · simp
    · split
      · simp [ih]
      · split
        · simp [ih]
        · split <;> simp [ih]

theorem split_of_doctypeBody? :
    ∀ {text body : List Char} {quote : Option Char} {depth : Nat},
      Cursor.doctypeBody? quote depth text = some body → ∃ rest, text = body ++ '>' :: rest
  | [], _, _, _, h => by simp [Cursor.doctypeBody?] at h
  | c :: text, body, some quote, depth, h => by
    rw [Cursor.doctypeBody?] at h
    obtain ⟨inner, hinner, rfl⟩ := Option.map_eq_some_iff.mp h
    obtain ⟨rest, rfl⟩ := split_of_doctypeBody? hinner
    exact ⟨rest, rfl⟩
  | c :: text, body, none, depth, h => by
    have hmore {quote : Option Char} {depth : Nat}
        (h : (Cursor.doctypeBody? quote depth text).map (c :: ·) = some body) :
        ∃ rest, c :: text = body ++ '>' :: rest := by
      obtain ⟨inner, hinner, rfl⟩ := Option.map_eq_some_iff.mp h
      obtain ⟨rest, rfl⟩ := split_of_doctypeBody? hinner
      exact ⟨rest, rfl⟩
    rw [Cursor.doctypeBody?] at h
    split at h
    · rename_i hclose
      cases h
      exact ⟨text, by rw [hclose.1]; rfl⟩
    · split at h
      · exact hmore h
      · split at h
        · exact hmore h
        · split at h
          · exact hmore h
          · exact hmore h

theorem doctypeClosed_of_doctypeBody? {text body : List Char}
    (h : Cursor.doctypeBody? none 0 text = some body) : DoctypeClosed body := by
  obtain ⟨rest, rfl⟩ := split_of_doctypeBody? h
  exact (doctypeBody?_append rest body none 0).mp h

/-! ## What is read -/

/-- Markup comes next, or nothing. -/
def StartsMarkup (text : List Char) : Prop :=
  ∀ x, text.head? = some x → x = '<'

theorem startsMarkup_nil : StartsMarkup [] := nofun

theorem startsMarkup_cons (text : List Char) : StartsMarkup ('<' :: text) :=
  fun _ hx => (Option.some.inj hx).symm

/-- What a token that was read is made of. -/
def Token.Legible : Token → Prop
  | .text raw => raw ≠ [] ∧ '<' ∉ raw
  | .startTag name attributes _ => IsName name ∧ ∀ a ∈ attributes, IsName a.name
  | .endTag name => IsName name
  | .comment body => Closed "--".toList body
  | .cdata body => Closed "]]>".toList body
  | .instruction name body =>
    name ≠ [] ∧ (∀ c ∈ name, Cursor.isInstructionNameChar c = true) ∧
      (∀ c, body.head? = some c → isSpace c = false) ∧ Closed "?>".toList body
  | .doctype body => DoctypeClosed body

/-- A token that is not text. -/
def Token.IsMarkup : Token → Prop
  | .text _ => False
  | _ => True

namespace Cursor

variable {c d : Cursor}

theorem closed_of_upTo {word : String} {body : List Char} (hword : word.toList ≠ [])
    (h : c.upTo word = .ok (body, d)) : Closed word.toList body ∧ ∃ rest, c.rest = body ++ rest := by
  unfold upTo at h
  split at h
  · rename_i hbody
    cases h
    obtain ⟨rest, hrest⟩ := split_of_before? hbody
    exact ⟨closed_of_before? hword hbody, word.toList ++ rest, hrest⟩
  · cases h

theorem legible_of_readComment {t : Token} (h : c.readComment = .ok (t, d)) :
    t.Legible ∧ t.IsMarkup := by
  unfold readComment at h
  split at h
  · cases h
  · rename_i hbody
    split at h
    · cases h
    · cases h
      exact ⟨(closed_of_upTo (by decide) hbody).1, trivial⟩
    · cases h

theorem legible_of_readCdata {t : Token} (h : c.readCdata = .ok (t, d)) :
    t.Legible ∧ t.IsMarkup := by
  unfold readCdata at h
  split at h
  · cases h
  · rename_i hbody
    cases h
    exact ⟨(closed_of_upTo (by decide) hbody).1, trivial⟩

theorem legible_of_readDoctype {t : Token} (h : c.readDoctype = .ok (t, d)) :
    t.Legible ∧ t.IsMarkup := by
  unfold readDoctype at h
  split at h
  · cases h
  · rename_i hbody
    cases h
    exact ⟨doctypeClosed_of_doctypeBody? hbody, trivial⟩

theorem legible_of_readInstruction {t : Token} (h : c.readInstruction = .ok (t, d)) :
    t.Legible ∧ t.IsMarkup := by
  unfold readInstruction at h
  simp only at h
  split at h
  · cases h
  · split at h
    · cases h
    · rename_i hname
      split at h
      · cases h
      · rename_i body done hbody
        cases h
        obtain ⟨hclosed, rest, hrest⟩ := closed_of_upTo (by decide) hbody
        refine ⟨⟨hname, fun x hx => List.mem_takeWhile_imp hx, fun x hx => ?_, hclosed⟩, trivial⟩
        -- the space before the body was skipped
        refine head?_dropWhile_ne isSpace (c.skipRun isInstructionNameChar).rest ?_
        rw [skipSpace, rest_skipRun] at hrest
        rw [hrest, List.head?_append, hx, Option.some_or]

theorem isName_of_readAttribute {a : RawAttribute} {first : Char} {tail : List Char}
    (hc : c.rest = first :: tail) (hfirst : isNameStart first = true)
    (h : c.readAttribute = .ok (a, d)) : IsName a.name := by
  unfold readAttribute at h
  simp only at h
  split at h
  · cases h
  · split at h
    · cases h
    · cases h
      exact isName_run hc hfirst
  · split at h <;> cases h

theorem isName_of_readAttributes {fresh : Bool} {r : List RawAttribute × Bool}
    (h : c.readAttributes fresh = .ok (r, d)) : ∀ a ∈ r.1, IsName a.name := by
  fun_induction readAttributes fresh c generalizing r d with
  | case1 => cases h
  | case2 =>
    cases h
    exact fun _ ha => by simp at ha
  | case3 => cases h
  | case4 =>
    cases h
    exact fun _ ha => by simp at ha
  | case5 => cases h
  | case6 => cases h
  | case7 => cases h
  | case8 => cases h
  | case9 =>
    rename_i _ _ hrest hfirst _ _ _ hattr _ _ _ _ hmore ih
    cases h
    intro a ha
    rcases List.mem_cons.mp ha with rfl | ha
    · exact isName_of_readAttribute hrest hfirst hattr
    · exact ih hmore a ha
  | case10 => cases h

theorem legible_of_readStartTag {t : Token} {first : Char} {tail : List Char}
    (hc : c.rest = first :: tail) (hfirst : isNameStart first = true)
    (h : c.readStartTag = .ok (t, d)) : t.Legible ∧ t.IsMarkup := by
  unfold readStartTag at h
  simp only at h
  split at h
  · cases h
  · split at h
    · split at h
      · cases h
      · rename_i hattrs
        cases h
        exact ⟨⟨isName_run hc hfirst, isName_of_readAttributes hattrs⟩, trivial⟩
    · cases h

theorem legible_of_readEndTag {t : Token} (h : c.readEndTag = .ok (t, d)) :
    t.Legible ∧ t.IsMarkup := by
  unfold readEndTag at h
  split at h
  · cases h
  · rename_i hrest
    split at h
    · rename_i hfirst
      simp only at h
      split at h
      · cases h
      · cases h
        exact ⟨isName_run hrest hfirst, trivial⟩
      · cases h
    · cases h

theorem legible_of_readMarkup {t : Token} (h : c.readMarkup = .ok (t, d)) :
    t.Legible ∧ t.IsMarkup := by
  unfold readMarkup at h
  split at h
  · exact legible_of_readComment h
  · split at h
    · exact legible_of_readCdata h
    · split at h
      · exact legible_of_readDoctype h
      · split at h
        · cases h
        · cases h
        · exact legible_of_readInstruction h
        · exact legible_of_readEndTag h
        · rename_i first tail _ _ _ hrest
          split at h
          · rename_i hfirst
            exact legible_of_readStartTag hrest hfirst h
          · cases h

/-- **Whatever is read is legible.** -/
theorem legible_of_readToken {t : Token} (hc : c.rest ≠ []) (h : c.readToken = .ok (t, d)) :
    t.Legible := by
  unfold readToken at h
  split at h
  · exact (legible_of_readMarkup h).1
  · rename_i hbracket
    cases h
    refine ⟨fun hnil => ?_, fun hm => by simpa using List.mem_takeWhile_imp hm⟩
    obtain ⟨first, tail, hrest⟩ := List.exists_cons_of_ne_nil hc
    have hfirst : first ≠ '<' := fun heq => hbracket tail (by rw [hrest, heq])
    rw [run, hrest, List.takeWhile_cons_of_pos (by simpa using hfirst)] at hnil
    cases hnil

/-- Text is read where no bracket stands, and up to the next one. -/
theorem startsMarkup_of_readToken_text {raw : List Char} (hc : c.rest ≠ [])
    (h : c.readToken = .ok (.text raw, d)) : ¬ StartsMarkup c.rest ∧ StartsMarkup d.rest := by
  unfold readToken at h
  split at h
  · exact (legible_of_readMarkup h).2.elim
  · rename_i hbracket
    cases h
    refine ⟨fun hstarts => ?_, fun x hx => ?_⟩
    · obtain ⟨first, tail, hrest⟩ := List.exists_cons_of_ne_nil hc
      obtain rfl := hstarts first (by rw [hrest]; rfl)
      exact hbracket tail hrest
    · rw [rest_skipRun] at hx
      simpa using head?_dropWhile_ne _ _ hx

end Cursor

end SvgTidy.Markup
