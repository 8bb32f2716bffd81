import SvgTidy.Proofs.ReaderStops

/-!
# Every break is found

`Cursor.stops_of_readToken` says that markup is refused only where it breaks in one of the ways that
`Breaks` lists. Here is the converse: a text that breaks is refused with that fault, and where it
breaks. So the list is exact, and a text breaks in one way and at one place only, although no rule of
the list says which of them comes first.

Principal results: `refuses_readAttributes`, `refuses_readToken` — one for the two lists;
`Cursor.readToken_eq_faulty_iff` — when a token is refused; `Breaks.unique` — the place and the fault.
-/

namespace SvgTidy.Markup

/-- A reader that begins at the cursor finds a fault where this is left of the text. -/
def Cursor.Refuses {α : Type} (c : Cursor) (reading : Reading α) (fault : Fault)
    (rest : List Char) : Prop :=
  ∃ d, c.Reaches d ∧ d.rest = rest ∧ reading = .error (.faulty fault d.pos)

open Cursor

variable {c d : Cursor} {rest name tail : List Char} {next : Char} {fault : Fault}

theorem Cursor.Refuses.of_reaches {α : Type} {reading : Reading α}
    (h : d.Refuses reading fault rest) (hreaches : c.Reaches d) : c.Refuses reading fault rest := by
  obtain ⟨e, he, hrest, hreading⟩ := h
  exact ⟨e, hreaches.trans he, hrest, hreading⟩

/-- No run begins at a character that does not belong to it. -/
theorem skipRun_of_ne {p : Char → Bool} (hc : c.rest = next :: tail) (hnext : p next = false) :
    c.run p = [] ∧ (c.skipRun p).rest = next :: tail := by
  have hrest : c.rest = [] ++ next :: tail := hc
  refine skipRun_of_stop hrest (List.forall_mem_nil _) fun x hx => ?_
  cases hx
  exact hnext

/-! ## Attributes -/

/-- A name that neither a sign of equality nor a value follows. -/
theorem refuses_readAttribute_sign (after : Space) (hname : IsName name)
    (hc : c.rest = name ++ (after.chars ++ next :: tail))
    (hends : after.chars = [] → isNameChar next = false) (hspace : isSpace next = false)
    (hnext : next ≠ '=') :
    c.Refuses c.readAttribute
      (if after.chars ≠ [] ∨ next = '>' then .attributeWithoutValue else .badAttributeName)
      (next :: tail) := by
  obtain ⟨-, hnamed⟩ :=
    skipRun_of_stop hc hname.isNameChar (isNameChar_of_space after hends tail)
  obtain ⟨hgap, hsign⟩ := skipRun_of_stop hnamed after.isSpace fun x hx => by
    cases hx
    exact hspace
  refine ⟨(c.skipRun isNameChar).skipSpace, (Reaches.skipRun c _).trans (.skipSpace _), hsign, ?_⟩
  rw [← skipSpace] at hsign
  rw [readAttribute]
  simp only [hsign, hgap]
  split <;> rfl

/-- A value without quotes. -/
theorem refuses_readAttribute_value (afterName beforeValue : Space) (hname : IsName name)
    (hc : c.rest = name ++ (afterName.chars ++ '=' :: (beforeValue.chars ++ next :: tail)))
    (hspace : isSpace next = false) (hnext : next ≠ '"' ∧ next ≠ '\'') :
    c.Refuses c.readAttribute .unquotedValue (next :: tail) := by
  have hequals : isNameChar '=' = false := rfl
  have hstop := isNameChar_of_space afterName (fun _ => hequals) (beforeValue.chars ++ next :: tail)
  obtain ⟨-, hnamed⟩ := skipRun_of_stop hc hname.isNameChar hstop
  have hsign := rest_skipSpace afterName hnamed fun x hx => by
    cases hx
    rfl
  have hbehind : ((c.skipRun isNameChar).skipSpace.skip 1).rest =
      beforeValue.chars ++ next :: tail := by
    rw [rest_skip, hsign]
    rfl
  have hvalue := rest_skipSpace beforeValue hbehind fun x hx => by
    cases hx
    exact hspace
  refine ⟨((c.skipRun isNameChar).skipSpace.skip 1).skipSpace, ?_, hvalue, ?_⟩
  · exact (((Reaches.skipRun c _).trans (.skipSpace _)).trans (.skip _ 1)).trans (.skipSpace _)
  · rw [readAttribute]
    simp only [hsign, readQuoted, hvalue, if_neg (not_or.mpr hnext)]
    rfl

/-- A fault of an attribute is one of its tag. -/
theorem Cursor.Refuses.attribute (gap : Separator) (hname : IsName name) (fresh : Bool)
    (hc : c.rest = gap.chars ++ (name ++ tail))
    (h : ∀ d : Cursor, d.rest = name ++ tail → d.Refuses d.readAttribute fault rest) :
    c.Refuses (c.readAttributes fresh) fault rest := by
  obtain ⟨first, others, rfl, hfirst, -⟩ := hname
  have hnext := rest_skipSpace gap.toSpace hc fun x hx => by
    cases hx
    exact isSpace_of_isNameStart hfirst
  obtain ⟨d, hd, hrest, hreading⟩ := h c.skipSpace hnext
  refine ⟨d, (Reaches.skipSpace c).trans hd, hrest, ?_⟩
  rw [readAttributes_step hnext hfirst (run_ne_nil_of_separator gap hc), hreading]

theorem refuses_readAttributes {fresh : Bool} {read : List Char}
    (h : TagBreaks fresh read fault rest) :
    ∀ c : Cursor, c.rest = read ++ rest → c.Refuses (c.readAttributes fresh) fault rest := by
  induction h with
  | afterAttribute fresh a hname hmore ih =>
    intro c hc
    rw [List.append_assoc] at hc
    obtain ⟨pos, after, hreaches, hafter, hcons⟩ := readAttributes_cons a hname fresh hc
    obtain ⟨d, hd, hrest, hreading⟩ := ih after hafter
    refine ⟨d, hreaches.trans hd, hrest, ?_⟩
    rw [hcons, hreading]
  | @straySlash fresh gap next tail hnext =>
    intro c hc
    rw [List.append_assoc] at hc
    have hslash : c.skipSpace.rest = '/' :: next :: tail := rest_skipSpace gap hc fun x hx => by
      cases hx
      rfl
    have hclosing : (c.skipSpace.skip 1).rest = next :: tail := by
      rw [rest_skip, hslash]
      rfl
    refine ⟨c.skipSpace.skip 1, (Reaches.skipSpace c).trans (.skip _ 1), hclosing, ?_⟩
    rw [readAttributes_eq]
    simp only [hslash, hclosing]
    rfl
  | @unspacedAttributes next tail hnext =>
    intro c hc
    obtain ⟨hnone, hhere⟩ := skipRun_of_ne hc (isSpace_of_isNameStart hnext)
    refine ⟨c.skipSpace, .skipSpace c, hhere, ?_⟩
    rw [← skipSpace] at hhere
    rw [readAttributes_inside hhere (ne_of_isNameStart hnext), if_pos hnext, if_pos ⟨hnone, rfl⟩]
    rfl
  | @noName fresh gap next tail hspace hname hends =>
    intro c hc
    have hhere := rest_skipSpace gap hc fun x hx => by
      cases hx
      exact hspace
    refine ⟨c.skipSpace, .skipSpace c, hhere, ?_⟩
    rw [readAttributes_inside hhere hends, hname, if_neg Bool.false_ne_true]
    rfl
  | @foreignCharacter fresh gap name next tail hname hends hspace hnext =>
    intro c hc
    rw [List.append_assoc] at hc
    refine .attribute gap hname fresh hc fun d hd => ?_
    have hsign := refuses_readAttribute_sign .none hname hd (fun _ => hends) hspace hnext.1
    rwa [if_neg (by simpa using ⟨rfl, hnext.2⟩)] at hsign
  | @attributeWithoutValue fresh gap name after next tail hname hspace hnext =>
    intro c hc
    rw [List.append_assoc, List.append_assoc] at hc
    refine .attribute gap hname fresh hc fun d hd => ?_
    have hsign := refuses_readAttribute_sign after hname hd ?_ hspace hnext.1
    · rwa [if_pos hnext.2] at hsign
    · intro hnone
      rw [hnext.2.resolve_left (· hnone)]
      rfl
  | @unquotedValue fresh gap name afterName beforeValue next tail hname hspace hnext =>
    intro c hc
    simp only [List.append_assoc, List.cons_append] at hc
    exact .attribute gap hname fresh hc fun d hd =>
      refuses_readAttribute_value afterName beforeValue hname hd hspace hnext

/-! ## Pieces of markup -/

theorem refuses_readComment {body : List Char} (hbody : Closed "--".toList body)
    (hc : c.rest = body ++ ("--".toList ++ next :: tail)) (hnext : next ≠ '>') :
    c.Refuses c.readComment .malformedComment (next :: tail) := by
  obtain ⟨d, hd, hrest⟩ := upTo_of_closed "--" (by decide) hbody hc
  refine ⟨d, upTo_reaches hd, hrest, ?_⟩
  rw [readComment, hd]
  simp only [hrest]
  rfl

theorem refuses_readInstruction (hc : c.rest = next :: tail)
    (hnext : isInstructionNameChar next = false) :
    c.Refuses c.readInstruction .namelessInstruction (next :: tail) := by
  obtain ⟨hnone, hhere⟩ := skipRun_of_ne hc hnext
  refine ⟨c.skipRun isInstructionNameChar, .skipRun c _, hhere, ?_⟩
  rw [readInstruction, hnone]
  simp only [hhere]
  rfl

theorem refuses_readEndTag_name (hc : c.rest = next :: tail) (hnext : isNameStart next = false) :
    c.Refuses c.readEndTag .badEndTagName (next :: tail) := by
  refine ⟨c, .refl c, hc, ?_⟩
  rw [readEndTag, hc]
  simp only [hnext]
  rfl

theorem refuses_readEndTag_junk (gap : Space) (hname : IsName name)
    (hc : c.rest = name ++ (gap.chars ++ next :: tail))
    (hends : gap.chars = [] → isNameChar next = false) (hspace : isSpace next = false)
    (hnext : next ≠ '>') : c.Refuses c.readEndTag .junkInEndTag (next :: tail) := by
  obtain ⟨-, hnamed⟩ := skipRun_of_stop hc hname.isNameChar (isNameChar_of_space gap hends tail)
  have hclosing := rest_skipSpace gap hnamed fun x hx => by
    cases hx
    exact hspace
  obtain ⟨first, others, rfl, hfirst, -⟩ := hname
  refine ⟨(c.skipRun isNameChar).skipSpace, (Reaches.skipRun c _).trans (.skipSpace _), hclosing, ?_⟩
  rw [readEndTag, hc]
  simp only [List.cons_append, hfirst, if_true, hclosing]
  rfl

theorem refuses_readStartTag_name (hname : IsName name) (hc : c.rest = name ++ next :: tail)
    (hends : isNameChar next = false) (hspace : isSpace next = false)
    (hnext : next ≠ '>' ∧ next ≠ '/') : c.Refuses c.readStartTag .badTagName (next :: tail) := by
  obtain ⟨-, hnamed⟩ := skipRun_of_stop hc hname.isNameChar fun x hx => by
    cases hx
    exact hends
  refine ⟨c.skipRun isNameChar, .skipRun c _, hnamed, ?_⟩
  rw [readStartTag]
  simp only [hnamed, hspace, hnext.1, hnext.2]
  rfl

theorem refuses_readStartTag {read : List Char} (hname : IsName name)
    (hc : c.rest = name ++ (read ++ rest))
    (hends : ∀ x, (read ++ rest).head? = some x → isSpace x = true ∨ x = '>' ∨ x = '/')
    (h : TagBreaks true read fault rest) : c.Refuses c.readStartTag fault rest := by
  obtain ⟨-, hnamed⟩ := skipRun_of_stop hc hname.isNameChar fun x hx => by
    rcases hends x hx with hspace | rfl | rfl
    · exact isNameChar_of_isSpace hspace
    · rfl
    · rfl
  obtain ⟨d, hd, hrest, hreading⟩ := refuses_readAttributes h _ hnamed
  refine ⟨d, (Reaches.skipRun c _).trans hd, hrest, ?_⟩
  have hne : read ++ rest ≠ [] := by simp [h.ne_nil]
  obtain ⟨next, more, hnext⟩ := List.exists_cons_of_ne_nil hne
  rw [hnext] at hnamed hends
  rw [readStartTag]
  simp only [hnamed, hends next rfl, if_true, hreading]

/-- A piece of markup is refused behind its bracket. -/
theorem Cursor.Refuses.markup {more : List Char} (hc : c.rest = '<' :: more)
    (h : ∀ d : Cursor, d.rest = more → d.Refuses d.readMarkup fault rest) :
    c.Refuses c.readToken fault rest := by
  obtain ⟨htoken, hinside⟩ := readToken_bracket more hc
  rw [htoken]
  exact (h _ hinside).of_reaches (.skip c 1)

/-- **A text that breaks is refused there, with that fault.** -/
theorem refuses_readToken {read : List Char} (h : Breaks read fault rest)
    (hc : c.rest = read ++ rest) : c.Refuses c.readToken fault rest := by
  cases h with
  | @unknownDeclaration rest hcomment hcdata hdoctype =>
    refine .markup hc fun d hd => ⟨d, .refl d, hd, ?_⟩
    have hlooks {word : String} (hword : ¬ word.toList <+: '!' :: rest) : d.looksAt word = false := by
      rw [looksAt, hd, ← Bool.not_eq_true, List.isPrefixOf_iff_prefix]
      exact hword
    have hkeyword : d.looksAtDoctype = false := by
      rw [looksAtDoctype, hd, beq_eq_false_iff_ne]
      exact hdoctype
    rw [readMarkup, hlooks hcomment, hlooks hcdata, hkeyword]
    simp only [hd]
    rfl
  | @strayBracket next tail hname hnext =>
    refine .markup hc fun d hd => ⟨d, .refl d, hd, ?_⟩
    simp only [List.mem_cons, List.not_mem_nil, or_false, not_or] at hnext
    rw [readMarkup_of_first hd hnext.1, if_neg hnext.2.1, if_neg hnext.2.2, hname]
    rfl
  | @malformedComment body next tail hbody hnext =>
    have hbracket : c.rest = '<' :: ("!--".toList ++ (body ++ ("--".toList ++ next :: tail))) := by
      rw [hc]
      simp
    refine .markup hbracket fun d hd => ?_
    rw [(readMarkup_of_bang hd).1 rfl]
    have hinside : (d.skip 3).rest = body ++ ("--".toList ++ next :: tail) := by
      rw [rest_skip, hd]
      rfl
    exact (refuses_readComment hbody hinside hnext).of_reaches (.skip d 3)
  | @namelessInstruction next tail hnext =>
    have hbracket : c.rest = '<' :: '?' :: next :: tail := hc
    refine .markup hbracket fun d hd => ?_
    rw [readMarkup_of_first hd (by decide), if_pos rfl]
    exact (refuses_readInstruction (by rw [rest_skip, hd]; rfl) hnext).of_reaches (.skip d 1)
  | @badEndTagName next tail hnext =>
    have hbracket : c.rest = '<' :: '/' :: next :: tail := hc
    refine .markup hbracket fun d hd => ?_
    rw [readMarkup_of_first hd (by decide), if_neg (by decide), if_pos rfl]
    exact (refuses_readEndTag_name (by rw [rest_skip, hd]; rfl) hnext).of_reaches (.skip d 1)
  | @junkInEndTag name gap next tail hname hends hspace hnext =>
    have hbracket : c.rest = '<' :: '/' :: (name ++ (gap.chars ++ next :: tail)) := by
      rw [hc]
      simp
    refine .markup hbracket fun d hd => ?_
    rw [readMarkup_of_first hd (by decide), if_neg (by decide), if_pos rfl]
    have hinside : (d.skip 1).rest = name ++ (gap.chars ++ next :: tail) := by
      rw [rest_skip, hd]
      rfl
    exact (refuses_readEndTag_junk gap hname hinside hends hspace hnext).of_reaches (.skip d 1)
  | badTagName hname hends hspace hnext =>
    refine .markup hc fun d hd => ?_
    rw [readMarkup_of_name hname hd]
    exact refuses_readStartTag_name hname hd hends hspace hnext
  | inTag hname hends h =>
    rw [List.cons_append, List.append_assoc] at hc
    refine .markup hc fun d hd => ?_
    rw [readMarkup_of_name hname hd]
    exact refuses_readStartTag hname hd hends h

/-- **A token is refused exactly where the text breaks.** -/
theorem Cursor.readToken_eq_faulty_iff {pos : Position} :
    c.readToken = .error (.faulty fault pos) ↔
      ∃ read d, c.Spans read d ∧ Breaks read fault d.rest ∧ pos = d.pos := by
  constructor
  · exact stops_of_readToken
  · rintro ⟨read, d, hspans, hbreaks, rfl⟩
    obtain ⟨e, he, hrest, hreading⟩ := refuses_readToken hbreaks hspans.rest
    have hsame : e = d := by
      rw [he.read_eq (hspans.rest.trans (by rw [hrest])), hspans.reaches.read_eq hspans.rest]
    rw [hreading, hsame]

/-- **A text breaks in one way and at one place.** -/
theorem Breaks.unique {read read' rest rest' : List Char} {fault fault' : Fault}
    (h : Breaks read fault rest) (h' : Breaks read' fault' rest')
    (hsame : read ++ rest = read' ++ rest') : read = read' ∧ fault = fault' := by
  obtain ⟨c, hc⟩ : ∃ c : Cursor, c.rest = read ++ rest := ⟨⟨_, .start, .start⟩, rfl⟩
  obtain ⟨d, hd, hrest, hreading⟩ := refuses_readToken h hc
  obtain ⟨d', hd', hrest', hreading'⟩ := refuses_readToken h' (hc.trans hsame)
  have hspans : c.Spans read d := ⟨by rw [hc, hrest], hd⟩
  have hspans' : c.Spans read' d' := ⟨by rw [hc, hrest', hsame], hd'⟩
  rw [hreading, Except.error.injEq, Failure.faulty.injEq, hspans.pos, hspans'.pos] at hreading'
  refine ⟨?_, hreading'.1⟩
  exact (Position.advance_inj (List.prefix_append read rest)
    (hsame ▸ List.prefix_append read' rest')).mp hreading'.2

end SvgTidy.Markup
