import Mathlib.Data.List.DropRight
import SvgTidy.Proofs.LegibleTokens
import SvgTidy.Proofs.ReadingSteps

/-!
# Where tokens and their parts stand

A position inside a token is one of a character that was read with it. Positions are compared by
line and then by column, which is the order of the characters. What stops the reader is a fault of
the piece it stands in, never one of how the pieces nest.

Principal results: `Reaches.between` — a character read between two cursors stands between them;
`PlacedToken.Stands.text`, `PlacedToken.Stands.value` — the characters of a text and of the values
in a start tag stand inside their token; `lexical_of_tokens` — which faults end a stream of tokens.
-/

namespace SvgTidy

namespace Position

/-- One position is another or comes before it. -/
instance : LE Position where
  le p q := p.line < q.line ∨ p.line = q.line ∧ p.column ≤ q.column

theorem le_def {p q : Position} :
    p ≤ q ↔ p.line < q.line ∨ p.line = q.line ∧ p.column ≤ q.column :=
  Iff.rfl

protected theorem le_refl (p : Position) : p ≤ p :=
  .inr ⟨rfl, Nat.le_refl _⟩

protected theorem le_trans {p q r : Position} (hpq : p ≤ q) (hqr : q ≤ r) : p ≤ r := by
  rw [le_def] at hpq hqr ⊢
  omega

theorem le_step (p : Position) (c : Char) : p ≤ p.step c := by
  unfold step
  split
  · exact .inl (Nat.lt_succ_self _)
  · exact .inr ⟨rfl, Nat.le_succ _⟩

theorem le_advance (p : Position) (text : List Char) : p ≤ p.advance text := by
  induction text generalizing p with
  | nil => exact Position.le_refl p
  | cons c rest ih => exact Position.le_trans (le_step p c) (ih (p.step c))

theorem advance_eq_self_iff {pos : Position} {text : List Char} :
    pos.advance text = pos ↔ text = [] := by
  constructor
  · intro h
    cases text with
    | nil => rfl
    | cons c rest =>
      have hle : pos.step c ≤ (pos.step c).advance rest := le_advance _ _
      rw [← advance_cons, h, le_def] at hle
      unfold step at hle
      split at hle <;> simp only at hle <;> omega
  · rintro rfl
    rfl

/-- No two places of a text have the same position. -/
theorem advance_inj {pos : Position} {text front front' : List Char} (h : front <+: text)
    (h' : front' <+: text) : pos.advance front = pos.advance front' ↔ front = front' := by
  rcases List.prefix_or_prefix_of_prefix h h' with ⟨more, rfl⟩ | ⟨more, rfl⟩
  · rw [advance_append, eq_comm, advance_eq_self_iff]
    simp
  · rw [advance_append, advance_eq_self_iff]
    simp

/-- Line and column after a text from the beginning. -/
theorem advance_start (before : List Char) :
    start.advance before =
      ⟨before.count '\n' + 1, (before.rtakeWhile (· != '\n')).length + 1⟩ := by
  induction before using List.reverseRecOn with
  | nil => rfl
  | append_singleton before c ih =>
    rw [advance_append, ih, List.rtakeWhile_concat, List.count_append]
    by_cases h : c = '\n'
    · simp [advance, step, h]
    · simp [advance, step, h]

end Position

/-- The fault concerns a single piece of markup, whatever stands around it. -/
def Fault.IsLexical : Fault → Prop
  | .badReference | .textBeforeRoot | .textOutsideRoot | .unmatchedEndTag _ | .misplacedEndTag
  | .misplacedDoctype | .unclosedElement => False
  | _ => True

namespace Markup

namespace Cursor

variable {c d e : Cursor}

namespace Reaches

/-- The characters between two cursors. -/
theorem exists_read (h : c.Reaches d) :
    ∃ read, c.rest = read ++ d.rest ∧ d = c.skip read.length := by
  obtain ⟨n, rfl⟩ := h
  refine ⟨c.rest.take n, (List.take_append_drop n c.rest).symm, ?_⟩
  rw [List.length_take]
  by_cases hn : n ≤ c.rest.length
  · rw [Nat.min_eq_left hn]
  · have hle : c.rest.length ≤ n := by omega
    rw [Nat.min_eq_right hle]
    simp only [Cursor.skip, List.take_of_length_le hle, List.drop_of_length_le hle, List.take_length,
      List.drop_length]

theorem read_eq (h : c.Reaches d) {read : List Char} (hrest : c.rest = read ++ d.rest) :
    d = c.skip read.length := by
  obtain ⟨between, hbetween, hd⟩ := h.exists_read
  rw [List.append_cancel_right (hrest.symm.trans hbetween)]
  exact hd

/-- **A character read between two cursors stands between them.** -/
theorem between (h : c.Reaches d) {before after : List Char} {ch : Char}
    (hrest : c.rest = before ++ ch :: (after ++ d.rest)) :
    c.pos ≤ c.pos.advance before ∧ c.pos.advance before ≤ d.last := by
  have hread : c.rest = (before ++ ch :: after) ++ d.rest := by
    rw [hrest, List.append_assoc, List.cons_append]
  have htake : c.rest.take (before ++ ch :: after).length = before ++ ch :: after := by
    rw [hread, List.take_left']
    rfl
  have hlast : d.last = (c.pos.advance before).advance (ch :: after).dropLast := by
    rw [h.read_eq hread]
    simp only [Cursor.skip]
    rw [htake, if_neg (by simp), List.dropLast_append_of_ne_nil (List.cons_ne_nil ch after),
      Position.advance_append]
  refine ⟨Position.le_advance _ _, ?_⟩
  rw [hlast]
  exact Position.le_advance _ _

end Reaches

/-! ## Attribute values -/

/-- The value of an attribute was read between two cursors, and something after it. -/
def Surrounds (c d : Cursor) (a : RawAttribute) : Prop :=
  ∃ before after, after ≠ [] ∧ c.rest = before ++ (a.value ++ (after ++ d.rest)) ∧
    a.pos = c.pos.advance before

namespace Surrounds

variable {a : RawAttribute}

theorem after (h : Surrounds d e a) (hread : c.Reaches d) : Surrounds c e a := by
  obtain ⟨before, behind, hne, hrest, hpos⟩ := h
  obtain ⟨read, hread, hd⟩ := hread.exists_read
  have hstart : d.pos = c.pos.advance read := by
    rw [hd, pos_skip, hread, List.take_left']
    rfl
  refine ⟨read ++ before, behind, hne, ?_, ?_⟩
  · rw [hread, hrest, List.append_assoc]
  · rw [hpos, hstart, Position.advance_append]

theorem before (h : Surrounds c d a) (hread : d.Reaches e) : Surrounds c e a := by
  obtain ⟨front, behind, hne, hrest, hpos⟩ := h
  obtain ⟨read, hread, -⟩ := hread.exists_read
  refine ⟨front, behind ++ read, by simp [hne], ?_, hpos⟩
  rw [hrest, hread, List.append_assoc behind]

end Surrounds

theorem readQuoted_surrounds {name value : List Char} {pos : Position}
    (h : c.readQuoted = .ok ((value, pos), d)) : Surrounds c d ⟨name, value, pos⟩ := by
  unfold readQuoted at h
  split at h
  · simp at h
  · rename_i quote rest hrest
    split at h
    · simp only at h
      split at h
      · simp at h
      · rename_i next closing hclosing
        cases h
        have hinside : (c.skip 1).rest = rest := by
          rw [rest_skip, hrest, List.drop_one, List.tail_cons]
        rw [rest_skipRun, hinside] at hclosing
        have hbehind : (((c.skip 1).skipRun (· != quote)).skip 1).rest = closing := by
          rw [rest_skip, rest_skipRun, hinside, hclosing, List.drop_one, List.tail_cons]
        refine ⟨[quote], [next], List.cons_ne_nil _ _, ?_, ?_⟩
        · show c.rest = [quote] ++ ((c.skip 1).run (· != quote) ++ ([next] ++ _))
          rw [hbehind, run, hinside, hrest, List.singleton_append, List.singleton_append, ← hclosing,
            List.takeWhile_append_dropWhile]
        · show (c.skip 1).pos = c.pos.advance [quote]
          rw [pos_skip, hrest, List.take_succ_cons, List.take_zero]
    · simp at h

theorem readAttribute_surrounds {a : RawAttribute} (h : c.readAttribute = .ok (a, d)) :
    Surrounds c d a := by
  unfold readAttribute at h
  simp only at h
  split at h
  · simp at h
  · split at h
    · simp at h
    · rename_i hquoted
      cases h
      have hsign : c.Reaches (c.skipRun isNameChar).skipSpace :=
        (Reaches.skipRun c _).trans (.skipSpace _)
      have hquote := (hsign.trans (.skip _ 1)).trans (.skipSpace _)
      exact (readQuoted_surrounds hquoted).after hquote
  · split at h <;> simp at h

theorem readAttributes_surrounds {fresh : Bool} {r : List RawAttribute × Bool}
    (h : c.readAttributes fresh = .ok (r, d)) : ∀ a ∈ r.1, Surrounds c d a := by
  fun_induction readAttributes fresh c generalizing r d with
  | case1 => simp at h
  | case2 =>
    cases h
    simp
  | case3 => simp at h
  | case4 =>
    cases h
    simp
  | case5 => simp at h
  | case6 => simp at h
  | case7 => simp at h
  | case8 => simp at h
  | case9 =>
    rename_i hattribute _ _ _ _ hmore ih
    cases h
    intro a ha
    rcases List.mem_cons.mp ha with rfl | ha
    · have hfirst := (readAttribute_surrounds hattribute).before (readAttributes_reaches hmore)
      exact hfirst.after (.skipSpace _)
    · have hread := (readAttribute_reaches hattribute).1
      exact (ih hmore a ha).after ((Reaches.skipSpace _).trans hread)
  | case10 => simp at h

theorem readStartTag_surrounds {name : List Char} {written : List RawAttribute} {selfClosing : Bool}
    (h : c.readStartTag = .ok (.startTag name written selfClosing, d)) :
    ∀ a ∈ written, Surrounds c d a := by
  unfold readStartTag at h
  simp only at h
  split at h
  · simp at h
  · split at h
    · split at h
      · simp at h
      · rename_i hattributes
        cases h
        intro a ha
        exact (readAttributes_surrounds hattributes a ha).after (.skipRun c _)
    · simp at h

/-! ## Tokens -/

/-- A start tag comes from nothing but `readStartTag`. -/
theorem readStartTag_of_readMarkup {name : List Char} {written : List RawAttribute}
    {selfClosing : Bool} (h : c.readMarkup = .ok (.startTag name written selfClosing, d)) :
    c.readStartTag = .ok (.startTag name written selfClosing, d) := by
  unfold readMarkup at h
  split at h
  · unfold readComment at h
    repeat' split at h
    all_goals cases h
  · split at h
    · unfold readCdata at h
      split at h <;> cases h
    · split at h
      · unfold readDoctype at h
        split at h <;> cases h
      · split at h
        · cases h
        · cases h
        · unfold readInstruction at h
          simp only at h
          repeat' split at h
          all_goals cases h
        · unfold readEndTag at h
          simp only at h
          repeat' split at h
          all_goals cases h
        · split at h
          · exact h
          · cases h

theorem readToken_surrounds {name : List Char} {written : List RawAttribute} {selfClosing : Bool}
    (h : c.readToken = .ok (.startTag name written selfClosing, d)) :
    ∀ a ∈ written, Surrounds c d a := by
  unfold readToken at h
  split at h
  · intro a ha
    exact (readStartTag_surrounds (readStartTag_of_readMarkup h) a ha).after (.skip c 1)
  · cases h

theorem readToken_text {raw : List Char} (h : c.readToken = .ok (.text raw, d)) :
    c.rest = raw ++ d.rest := by
  unfold readToken at h
  split at h
  · exact (legible_of_readMarkup h).2.elim
  · cases h
    rw [rest_skipRun, run, List.takeWhile_append_dropWhile]

/-! ## What readers refuse -/

theorem upTo_ne_faulty {word : String} {fault : Fault} {pos : Position} :
    c.upTo word ≠ .error (.faulty fault pos) := by
  unfold upTo
  split <;> nofun

variable {fault : Fault} {pos : Position}

theorem lexical_of_readComment (h : c.readComment = .error (.faulty fault pos)) :
    fault.IsLexical := by
  unfold readComment at h
  split at h
  · rename_i hbody
    cases h
    exact absurd hbody upTo_ne_faulty
  · split at h <;> cases h
    trivial

theorem lexical_of_readInstruction (h : c.readInstruction = .error (.faulty fault pos)) :
    fault.IsLexical := by
  unfold readInstruction at h
  simp only at h
  split at h
  · cases h
  · split at h
    · cases h
      trivial
    · split at h
      · rename_i hbody
        cases h
        exact absurd hbody upTo_ne_faulty
      · cases h

theorem lexical_of_readQuoted (h : c.readQuoted = .error (.faulty fault pos)) :
    fault.IsLexical := by
  unfold readQuoted at h
  split at h
  · cases h
  · split at h
    · simp only at h
      split at h <;> cases h
    · cases h
      trivial

theorem lexical_of_readAttribute (h : c.readAttribute = .error (.faulty fault pos)) :
    fault.IsLexical := by
  unfold readAttribute at h
  simp only at h
  split at h
  · cases h
  · split at h
    · rename_i hquoted
      cases h
      exact lexical_of_readQuoted hquoted
    · cases h
  · split at h <;> cases h <;> trivial

theorem lexical_of_readAttributes {fresh : Bool}
    (h : c.readAttributes fresh = .error (.faulty fault pos)) : fault.IsLexical := by
  fun_induction readAttributes fresh c with
  | case1 => cases h
  | case2 => cases h
  | case3 => cases h
  | case4 => cases h
  | case5 =>
    cases h
    trivial
  | case6 =>
    cases h
    trivial
  | case7 =>
    rename_i hattribute
    cases h
    exact lexical_of_readAttribute hattribute
  | case8 =>
    rename_i hmore ih
    cases h
    exact ih hmore
  | case9 => cases h
  | case10 =>
    cases h
    trivial

theorem lexical_of_readStartTag (h : c.readStartTag = .error (.faulty fault pos)) :
    fault.IsLexical := by
  unfold readStartTag at h
  simp only at h
  split at h
  · cases h
  · split at h
    · split at h
      · rename_i hattributes
        cases h
        exact lexical_of_readAttributes hattributes
      · cases h
    · cases h
      trivial

theorem lexical_of_readEndTag (h : c.readEndTag = .error (.faulty fault pos)) :
    fault.IsLexical := by
  unfold readEndTag at h
  split at h
  · cases h
  · split at h
    · simp only at h
      split at h <;> cases h
      trivial
    · cases h
      trivial

theorem lexical_of_readMarkup (h : c.readMarkup = .error (.faulty fault pos)) :
    fault.IsLexical := by
  unfold readMarkup at h
  split at h
  · exact lexical_of_readComment h
  · split at h
    · unfold readCdata at h
      split at h
      · rename_i hbody
        cases h
        exact absurd hbody upTo_ne_faulty
      · cases h
    · split at h
      · unfold readDoctype at h
        split at h <;> cases h
      · split at h
        · cases h
        · cases h
          trivial
        · exact lexical_of_readInstruction h
        · exact lexical_of_readEndTag h
        · split at h
          · exact lexical_of_readStartTag h
          · cases h
            trivial

theorem lexical_of_readToken (h : c.readToken = .error (.faulty fault pos)) : fault.IsLexical := by
  unfold readToken at h
  split at h
  · exact lexical_of_readMarkup h
  · cases h

/-- **What ends a stream of tokens is a fault of a single piece.** -/
theorem lexical_of_tokens (c : Cursor) {fault : Fault} {pos : Position}
    (h : c.tokens.2 = some (.faulty fault pos)) : fault.IsLexical := by
  induction c using token_induction with
  | ended c hc =>
    rw [tokens_of_nil hc] at h
    cases h
  | failed c failure hc hread =>
    rw [tokens_of_error hc hread, Option.some.injEq] at h
    subst h
    exact lexical_of_readToken hread
  | token c token d hc hread ih =>
    rw [tokens_of_ok hc hread] at h
    exact ih h

end Cursor

/-! ## Placed tokens -/

/-- The token was read where it is said to stand. -/
def PlacedToken.Stands (placed : PlacedToken) : Prop :=
  ∃ c d : Cursor, c.rest ≠ [] ∧ c.readToken = .ok (placed.token, d) ∧
    placed.start = c.pos ∧ placed.stop = d.last

/-- The position is that of a character of the token. -/
def PlacedToken.Holds (placed : PlacedToken) (pos : Position) : Prop :=
  placed.start ≤ pos ∧ pos ≤ placed.stop

theorem stands_of_mem_tokens (c : Cursor) : ∀ placed ∈ c.tokens.1, placed.Stands := by
  intro placed hplaced
  induction c using Cursor.token_induction with
  | ended c hc =>
    rw [Cursor.tokens_of_nil hc] at hplaced
    cases hplaced
  | failed c failure hc hread =>
    rw [Cursor.tokens_of_error hc hread] at hplaced
    cases hplaced
  | token c token d hc hread ih =>
    rw [Cursor.tokens_of_ok hc hread] at hplaced
    rcases List.mem_cons.mp hplaced with rfl | hplaced
    · exact ⟨c, d, hc, hread, rfl, rfl⟩
    · exact ih hplaced

namespace PlacedToken.Stands

variable {placed : PlacedToken}

/-- A token has a first and a last character. -/
theorem bounds (h : placed.Stands) : placed.start ≤ placed.stop := by
  obtain ⟨c, d, hc, hread, hstart, hstop⟩ := h
  have hreaches := Cursor.readToken_reaches hread
  obtain ⟨read, hrest, -⟩ := hreaches.exists_read
  cases read with
  | nil =>
    have hshorter := Cursor.length_readToken_lt hc hread
    rw [hrest, List.nil_append] at hshorter
    exact absurd hshorter (Nat.lt_irrefl _)
  | cons ch after =>
    have hfirst : c.rest = [] ++ ch :: (after ++ d.rest) := hrest
    have hbetween := hreaches.between hfirst
    rw [hstart, hstop]
    exact hbetween.2

theorem start (h : placed.Stands) : placed.Holds placed.start :=
  ⟨Position.le_refl _, h.bounds⟩

theorem stop (h : placed.Stands) : placed.Holds placed.stop :=
  ⟨h.bounds, Position.le_refl _⟩

/-- **A character of a text stands inside its token.** -/
theorem text (h : placed.Stands) {before after : List Char} {ch : Char}
    (htoken : placed.token = .text (before ++ ch :: after)) :
    placed.Holds (placed.start.advance before) := by
  obtain ⟨c, d, -, hread, hstart, hstop⟩ := h
  rw [htoken] at hread
  have hrest := Cursor.readToken_text hread
  rw [List.append_assoc, List.cons_append] at hrest
  rw [Holds, hstart, hstop]
  exact (Cursor.readToken_reaches hread).between hrest

/-- **A character of an attribute value stands inside its start tag.** -/
theorem value (h : placed.Stands) {name : List Char} {written : List RawAttribute}
    {selfClosing : Bool} {a : RawAttribute} {before after : List Char} {ch : Char}
    (htoken : placed.token = .startTag name written selfClosing) (ha : a ∈ written)
    (hvalue : a.value = before ++ ch :: after) : placed.Holds (a.pos.advance before) := by
  obtain ⟨c, d, -, hread, hstart, hstop⟩ := h
  rw [htoken] at hread
  obtain ⟨front, behind, -, hrest, hpos⟩ := Cursor.readToken_surrounds hread a ha
  have hsplit : c.rest = (front ++ before) ++ ch :: ((after ++ behind) ++ d.rest) := by
    rw [hrest, hvalue]
    simp
  have hbetween := (Cursor.readToken_reaches hread).between hsplit
  rw [Position.advance_append, ← hpos] at hbetween
  rw [Holds, hstart, hstop]
  refine ⟨?_, hbetween.2⟩
  rw [hpos]
  exact Position.le_trans (Position.le_advance _ _) (Position.le_advance _ _)

end PlacedToken.Stands

end Markup

end SvgTidy
