import SvgTidy.Proofs.AcceptedTexts

/-!
# Flaws point into the text

A position is that of a character still to be read, or of the end of the text, if it comes of
advancing over some of what is still to be read (`Cursor.Points`). Readers fail at a cursor that
they have reached, and assembly refuses a token at its first character, at its last, or inside its
text or one of its values, so whatever is reported is such a position.

Principal results: `Cursor.lies_of_readToken` — where a reader fails; `Tracks.step_points` — where
assembly refuses a token; `points_of_assemble` — where a flaw of a text is.
-/

namespace SvgTidy.Markup

namespace Cursor

variable {c d : Cursor} {pos : Position}

/-- The position is that of a character still to be read, or of the end. -/
def Points (c : Cursor) (pos : Position) : Prop :=
  ∃ before after, c.rest = before ++ after ∧ pos = c.pos.advance before

theorem points_pos (c : Cursor) : c.Points c.pos :=
  ⟨[], c.rest, rfl, rfl⟩

theorem points_endPos (c : Cursor) : c.Points c.endPos :=
  ⟨c.rest, [], (List.append_nil _).symm, rfl⟩

theorem Reaches.exists_advance (h : c.Reaches d) :
    ∃ read, c.rest = read ++ d.rest ∧ d.pos = c.pos.advance read := by
  obtain ⟨read, hrest, hd⟩ := h.exists_read
  refine ⟨read, hrest, ?_⟩
  rw [hd, pos_skip, hrest, List.take_left']
  rfl

/-- What a later cursor points to, an earlier one does. -/
theorem Points.of_reaches (h : d.Points pos) (hread : c.Reaches d) : c.Points pos := by
  obtain ⟨read, hrest, hpos⟩ := hread.exists_advance
  obtain ⟨before, after, hsplit, rfl⟩ := h
  refine ⟨read ++ before, after, ?_, ?_⟩
  · rw [hrest, hsplit, List.append_assoc]
  · rw [hpos, Position.advance_append]

/-- The position of the character read last. -/
theorem Reaches.points_last (h : c.Reaches d) (hread : d.rest.length < c.rest.length) :
    c.Points d.last := by
  obtain ⟨read, hrest, hd⟩ := h.exists_read
  have htake : c.rest.take read.length = read := by
    rw [hrest, List.take_left']
    rfl
  have hne : read ≠ [] := by
    rintro rfl
    rw [hrest, List.nil_append] at hread
    exact absurd hread (Nat.lt_irrefl _)
  refine ⟨read.dropLast, read.getLast hne :: d.rest, ?_, ?_⟩
  · rw [List.append_cons, List.dropLast_append_getLast hne, hrest]
  · rw [hd]
    simp only [Cursor.skip]
    rw [htake, if_neg hne]

end Cursor

/-- A failure is at a position to which a cursor points. -/
def Failure.LiesIn (c : Cursor) : Failure → Prop
  | .faulty _ pos => c.Points pos
  | .endOfText pos => c.Points pos

theorem Failure.LiesIn.of_reaches {c d : Cursor} {failure : Failure} (h : failure.LiesIn d)
    (hread : c.Reaches d) : failure.LiesIn c := by
  cases failure <;> exact Cursor.Points.of_reaches h hread

namespace Cursor

variable {c d : Cursor} {pos : Position} {failure : Failure}

theorem lies_of_refuse {α : Type} {fault : Fault}
    (h : (d.refuse fault : Reading α) = .error failure) (hread : c.Reaches d) :
    failure.LiesIn c := by
  cases h
  exact Points.of_reaches d.points_pos hread

theorem lies_of_truncated {α : Type} (h : (d.truncated : Reading α) = .error failure)
    (hread : c.Reaches d) : failure.LiesIn c := by
  cases h
  exact Points.of_reaches d.points_endPos hread

/-! ## Readers -/

theorem lies_of_upTo {word : String} (h : c.upTo word = .error failure) : failure.LiesIn c := by
  unfold upTo at h
  split at h
  · cases h
  · exact lies_of_truncated h (.refl c)

theorem lies_of_readComment (h : c.readComment = .error failure) : failure.LiesIn c := by
  unfold readComment at h
  split at h
  · rename_i hbody
    cases h
    exact lies_of_upTo hbody
  · rename_i hbody
    split at h
    · exact lies_of_truncated h (upTo_reaches hbody)
    · cases h
    · exact lies_of_refuse h (upTo_reaches hbody)

theorem lies_of_readCdata (h : c.readCdata = .error failure) : failure.LiesIn c := by
  unfold readCdata at h
  split at h
  · rename_i hbody
    cases h
    exact lies_of_upTo hbody
  · cases h

theorem lies_of_readDoctype (h : c.readDoctype = .error failure) : failure.LiesIn c := by
  unfold readDoctype at h
  split at h
  · exact lies_of_truncated h (.refl c)
  · cases h

theorem lies_of_readInstruction (h : c.readInstruction = .error failure) : failure.LiesIn c := by
  have hnamed : c.Reaches (c.skipRun isInstructionNameChar) := .skipRun c _
  unfold readInstruction at h
  simp only at h
  split at h
  · exact lies_of_truncated h hnamed
  · split at h
    · exact lies_of_refuse h hnamed
    · split at h
      · rename_i hbody
        cases h
        exact (lies_of_upTo hbody).of_reaches (hnamed.trans (.skipSpace _))
      · cases h

theorem lies_of_readQuoted (h : c.readQuoted = .error failure) : failure.LiesIn c := by
  unfold readQuoted at h
  split at h
  · exact lies_of_truncated h (.refl c)
  · split at h
    · simp only at h
      split at h
      · exact lies_of_truncated h ((Reaches.skip c 1).trans (.skipRun _ _))
      · cases h
    · exact lies_of_refuse h (.refl c)

theorem lies_of_readAttribute (h : c.readAttribute = .error failure) : failure.LiesIn c := by
  have hsign : c.Reaches (c.skipRun isNameChar).skipSpace :=
    (Reaches.skipRun c _).trans (.skipSpace _)
  unfold readAttribute at h
  simp only at h
  split at h
  · exact lies_of_truncated h hsign
  · split at h
    · rename_i hquoted
      cases h
      exact (lies_of_readQuoted hquoted).of_reaches ((hsign.trans (.skip _ 1)).trans (.skipSpace _))
    · cases h
  · split at h <;> exact lies_of_refuse h hsign

theorem lies_of_readAttributes {fresh : Bool} (h : c.readAttributes fresh = .error failure) :
    failure.LiesIn c := by
  fun_induction readAttributes fresh c with
  | case1 => exact lies_of_truncated h (.skipSpace _)
  | case2 => cases h
  | case3 => exact lies_of_truncated h ((Reaches.skipSpace _).trans (.skip _ 1))
  | case4 => cases h
  | case5 => exact lies_of_refuse h ((Reaches.skipSpace _).trans (.skip _ 1))
  | case6 => exact lies_of_refuse h (.skipSpace _)
  | case7 =>
    rename_i hattribute
    cases h
    exact (lies_of_readAttribute hattribute).of_reaches (.skipSpace _)
  | case8 =>
    rename_i hattribute _ _ hmore ih
    cases h
    exact (ih hmore).of_reaches ((Reaches.skipSpace _).trans (readAttribute_reaches hattribute).1)
  | case9 => cases h
  | case10 => exact lies_of_refuse h (.skipSpace _)

theorem lies_of_readStartTag (h : c.readStartTag = .error failure) : failure.LiesIn c := by
  have hnamed : c.Reaches (c.skipRun isNameChar) := .skipRun c _
  unfold readStartTag at h
  simp only at h
  split at h
  · exact lies_of_truncated h hnamed
  · split at h
    · split at h
      · rename_i hattributes
        cases h
        exact (lies_of_readAttributes hattributes).of_reaches hnamed
      · cases h
    · exact lies_of_refuse h hnamed

theorem lies_of_readEndTag (h : c.readEndTag = .error failure) : failure.LiesIn c := by
  have hclosing : c.Reaches (c.skipRun isNameChar).skipSpace :=
    (Reaches.skipRun c _).trans (.skipSpace _)
  unfold readEndTag at h
  split at h
  · exact lies_of_truncated h (.refl c)
  · split at h
    · simp only at h
      split at h
      · exact lies_of_truncated h hclosing
      · cases h
      · exact lies_of_refuse h hclosing
    · exact lies_of_refuse h (.refl c)

theorem lies_of_readMarkup (h : c.readMarkup = .error failure) : failure.LiesIn c := by
  unfold readMarkup at h
  split at h
  · exact (lies_of_readComment h).of_reaches (.skip c 3)
  · split at h
    · exact (lies_of_readCdata h).of_reaches (.skip c 8)
    · split at h
      · exact (lies_of_readDoctype h).of_reaches (.skip c 8)
      · split at h
        · exact lies_of_truncated h (.refl c)
        · exact lies_of_refuse h (.refl c)
        · exact (lies_of_readInstruction h).of_reaches (.skip c 1)
        · exact (lies_of_readEndTag h).of_reaches (.skip c 1)
        · split at h
          · exact lies_of_readStartTag h
          · exact lies_of_refuse h (.refl c)

/-- **A reader fails at a character still to be read, or at the end.** -/
theorem lies_of_readToken (h : c.readToken = .error failure) : failure.LiesIn c := by
  unfold readToken at h
  split at h
  · exact (lies_of_readMarkup h).of_reaches (.skip c 1)
  · cases h

/-! ## Tokens -/

/-- A token was read from a later cursor. -/
def Reads (c : Cursor) (placed : PlacedToken) : Prop :=
  ∃ d e : Cursor, c.Reaches d ∧ d.rest ≠ [] ∧ d.readToken = .ok (placed.token, e) ∧
    placed.start = d.pos ∧ placed.stop = e.last

/-- The tokens of a stream were read from it, and what ends it lies in it. -/
theorem reads_of_tokens (c : Cursor) :
    (∀ placed ∈ c.tokens.1, c.Reads placed) ∧
      ∀ failure, c.tokens.2 = some failure → failure.LiesIn c := by
  induction c using token_induction with
  | ended c hc =>
    rw [tokens_of_nil hc]
    exact ⟨nofun, nofun⟩
  | failed c failure hc hread =>
    rw [tokens_of_error hc hread]
    refine ⟨nofun, fun failure' h => ?_⟩
    cases h
    exact lies_of_readToken hread
  | token c token d hc hread ih =>
    have hreaches := readToken_reaches hread
    obtain ⟨htokens, hfailure⟩ := ih
    rw [tokens_of_ok hc hread]
    refine ⟨fun placed hplaced => ?_, fun failure h => (hfailure failure h).of_reaches hreaches⟩
    rcases List.mem_cons.mp hplaced with rfl | hplaced
    · exact ⟨c, d, .refl c, hc, hread, rfl, rfl⟩
    · obtain ⟨e, f, he, hrest⟩ := htokens placed hplaced
      exact ⟨e, f, hreaches.trans he, hrest⟩

namespace Reads

variable {placed : PlacedToken}

theorem start (h : c.Reads placed) : c.Points placed.start := by
  obtain ⟨d, e, hd, -, -, hstart, -⟩ := h
  rw [hstart]
  exact d.points_pos.of_reaches hd

theorem stop (h : c.Reads placed) : c.Points placed.stop := by
  obtain ⟨d, e, hd, hne, hread, -, hstop⟩ := h
  rw [hstop]
  exact ((readToken_reaches hread).points_last (length_readToken_lt hne hread)).of_reaches hd

theorem text (h : c.Reads placed) {before after : List Char}
    (htoken : placed.token = .text (before ++ after)) :
    c.Points (placed.start.advance before) := by
  obtain ⟨d, e, hd, -, hread, hstart, -⟩ := h
  rw [htoken] at hread
  rw [hstart]
  refine Points.of_reaches ⟨before, after ++ e.rest, ?_, rfl⟩ hd
  rw [readToken_text hread, List.append_assoc]

theorem value (h : c.Reads placed) {name : List Char} {written : List RawAttribute}
    {selfClosing : Bool} {a : RawAttribute} {before after : List Char}
    (htoken : placed.token = .startTag name written selfClosing) (ha : a ∈ written)
    (hvalue : a.value = before ++ after) : c.Points (a.pos.advance before) := by
  obtain ⟨d, e, hd, -, hread, -, -⟩ := h
  rw [htoken] at hread
  obtain ⟨front, behind, -, hrest, hpos⟩ := readToken_surrounds hread a ha
  refine Points.of_reaches ⟨front ++ before, after ++ (behind ++ e.rest), ?_, ?_⟩ hd
  · rw [hrest, hvalue, List.append_assoc, List.append_assoc]
  · rw [hpos, Position.advance_append]

end Reads

end Cursor

/-! ## Assembly -/

namespace Tracks

variable {c : Cursor} {before : List Token} {s : Assembly} {flaw : Flaw}

/-- **A token is refused at a character of it.** -/
theorem step_points {placed : PlacedToken} (h : Tracks before s) (hplaced : c.Reads placed)
    (hflaw : s.step placed = .error flaw) : c.Points flaw.pos := by
  unfold Assembly.step at hflaw
  split at hflaw
  · rename_i raw htoken
    obtain ⟨-, front, ch, behind, hraw, hpos⟩ := h.text_error hflaw
    rw [hpos]
    exact hplaced.text (hraw ▸ htoken)
  · rename_i name written selfClosing htoken
    obtain ⟨-, a, ha, front, ch, behind, hvalue, hpos⟩ := h.startTag_error hflaw
    rw [hpos]
    exact hplaced.value htoken ha hvalue
  · rw [(h.endTag_error hflaw).2]
    exact hplaced.stop
  · cases hflaw
  · cases hflaw
  · cases hflaw
  · rw [(h.doctype_error hflaw).2]
    exact hplaced.start

theorem run_points {tokens : List PlacedToken} (hreads : ∀ placed ∈ tokens, c.Reads placed)
    (h : Tracks before s) (hflaw : tokens.foldlM Assembly.step s = .error flaw) :
    c.Points flaw.pos := by
  induction tokens generalizing before s with
  | nil => cases hflaw
  | cons placed tokens ih =>
    rw [List.foldlM_cons] at hflaw
    cases hstep : s.step placed with
    | error other =>
      rw [hstep] at hflaw
      cases hflaw
      exact h.step_points (hreads placed List.mem_cons_self) hstep
    | ok next =>
      rw [hstep] at hflaw
      exact ih (fun p hp => hreads p (List.mem_cons_of_mem _ hp)) (h.step_ok hstep).1 hflaw

end Tracks

/-- **A flaw is at a character of the text, or at its end.** -/
theorem points_of_assemble {text : List Char} {flaw : Flaw} (h : assemble text = .error flaw) :
    (Cursor.ofText text).Points flaw.pos := by
  obtain ⟨hreads, hfailure⟩ := (Cursor.ofText text).reads_of_tokens
  unfold assemble tokenize at h
  simp only at h
  split at h
  · rename_i hrun
    cases h
    exact Tracks.start.run_points hreads hrun
  · split at h
    · rename_i hsome
      cases h
      exact hfailure _ hsome
    · split at h
      · cases h
      · cases h
        exact Cursor.points_endPos _

end SvgTidy.Markup
