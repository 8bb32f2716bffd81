import SvgTidy.Proofs.ReadingSteps
import SvgTidy.Proofs.TokenSpelling

/-!
# Reading a part of a text

A reader that is given only the front part of a text, or the same text at another place, does what
it does with the whole of it as long as the text lasts. Where the text ends too early for it, it
says so and finds no fault. Positions play no part in this: two texts that read the same may stand
anywhere.

There are two exceptions, both when a token begins. Text goes up to the end and is a token whatever
it was going to be, and of an opening mark that begins with an exclamation mark a part is taken for
an unknown declaration.

Principal results: one theorem per reader, from `skipRun_part` to `readToken_part`.
-/

namespace SvgTidy.Markup

/-- Tokens that are spelled the same. Their attributes may stand at different places. -/
inductive Token.Alike : Token → Token → Prop where
  | refl (token : Token) : Alike token token
  | startTag {written other : List RawAttribute} (name : List Char) (selfClosing : Bool)
      (hwritten : written.map (·.spelling) = other.map (·.spelling)) :
      Alike (.startTag name written selfClosing) (.startTag name other selfClosing)

/-- An opening mark that begins with an exclamation mark, without its bracket. -/
def IsOpener (mark : List Char) : Prop :=
  mark = "!--".toList ∨ mark = "![CDATA[".toList ∨ mark.map Char.toUpper = "!DOCTYPE".toList

/-- The text breaks off inside an opening mark, after its exclamation mark or later. -/
def CutsOpener (text : List Char) : Prop :=
  text ≠ [] ∧ ∃ missing, missing ≠ [] ∧ IsOpener (text ++ missing)

/-- What reading a part gives, compared with reading the whole, which goes on with `more`. Nothing is
said where the whole is faulty. -/
inductive CutShort {α : Type} (same : α → α → Prop) (more : List Char) :
    Reading α → Reading α → Prop where
  /-- The same was read, and as much of the text. -/
  | same {value' value : α} {d' d : Cursor} (hsame : same value' value)
      (hrest : d.rest = d'.rest ++ more) : CutShort same more (.ok (value', d')) (.ok (value, d))
  /-- The part ends too early. -/
  | short {pos : Position} {whole : Reading α} (hmore : more ≠ []) :
      CutShort same more (.error (.endOfText pos)) whole
  /-- The whole ends too early. -/
  | ended {pos' pos : Position} :
      CutShort same more (.error (.endOfText pos')) (.error (.endOfText pos))
  | faulty {part : Reading α} {fault : Fault} {pos : Position} :
      CutShort same more part (.error (.faulty fault pos))

theorem CutShort.of_faulty {α : Type} {same : α → α → Prop} {more : List Char}
    {part whole : Reading α} (h : ∃ fault pos, whole = .error (.faulty fault pos)) :
    CutShort same more part whole := by
  obtain ⟨fault, pos, rfl⟩ := h
  exact .faulty

/-- A reader that goes on after another one, and fails where that one does. -/
theorem CutShort.next {α β : Type} {same : α → α → Prop} {same' : β → β → Prop} {more : List Char}
    {part whole : Reading α} {goOn' goOn : Reading α → Reading β} (h : CutShort same more part whole)
    (hfail : ∀ failure,
      goOn' (.error failure) = .error failure ∧ goOn (.error failure) = .error failure)
    (hok : ∀ value' value d' d, same value' value → d.rest = d'.rest ++ more →
      CutShort same' more (goOn' (.ok (value', d'))) (goOn (.ok (value, d)))) :
    CutShort same' more (goOn' part) (goOn whole) := by
  cases h with
  | same hsame hrest => exact hok _ _ _ _ hsame hrest
  | short hmore =>
    rw [(hfail _).1]
    exact .short hmore
  | ended =>
    rw [(hfail _).1, (hfail _).2]
    exact .ended
  | faulty =>
    rw [(hfail _).2]
    exact .faulty

namespace Cursor

variable {c w : Cursor} {more : List Char}

/-- Where the first cursor has a text before it, the second has the same and then `more`; or the
first text has come to its end, and the second need not have. -/
def Parts (more : List Char) (c w : Cursor) : Prop :=
  w.rest = c.rest ++ more ∨ more ≠ [] ∧ c.rest = []

namespace Parts

theorem append_eq (h : Parts more c w) (hc : c.rest ≠ []) : w.rest = c.rest ++ more :=
  h.elim id fun hend => absurd hend.2 hc

theorem cons {next : Char} {tail : List Char} (h : Parts more c w) (hc : c.rest = next :: tail) :
    w.rest = next :: (tail ++ more) := by
  rw [h.append_eq (by simp [hc]), hc, List.cons_append]

/-- Without more to come the texts are the same. -/
theorem eq (h : Parts [] c w) : w.rest = c.rest := by
  rcases h with h | ⟨hne, -⟩
  · rw [h, List.append_nil]
  · exact absurd rfl hne

theorem skip (h : Parts more c w) {n : Nat} (hn : n ≤ c.rest.length) :
    Parts more (c.skip n) (w.skip n) := by
  rcases h with h | ⟨hmore, hnil⟩
  · exact .inl (by rw [rest_skip, rest_skip, h, List.drop_append_of_le_length hn])
  · exact .inr ⟨hmore, by rw [rest_skip, hnil, List.drop_nil]⟩

theorem skip_one (h : Parts more c w) (hc : c.rest ≠ []) : Parts more (c.skip 1) (w.skip 1) :=
  h.skip (List.length_pos_iff.mpr hc)

theorem run_eq_and_skipRun (h : Parts more c w) {p : Char → Bool} (hrest : (c.skipRun p).rest ≠ []) :
    c.run p = w.run p ∧ (w.skipRun p).rest = (c.skipRun p).rest ++ more := by
  rw [rest_skipRun] at hrest
  have hc : c.rest ≠ [] := fun hnil => hrest (by rw [hnil, List.dropWhile_nil])
  have hrun : ∀ x ∈ c.rest.takeWhile p, p x = true := fun x hx => List.mem_takeWhile_imp hx
  have hstop : ∀ x, (c.rest.dropWhile p ++ more).head? = some x → p x = false := by
    intro x hx
    obtain ⟨first, tail, hfirst⟩ := List.exists_cons_of_ne_nil hrest
    rw [hfirst, List.cons_append] at hx
    exact head?_dropWhile_ne p c.rest (hfirst ▸ hx)
  have hsplit : w.rest = c.rest.takeWhile p ++ (c.rest.dropWhile p ++ more) := by
    rw [h.append_eq hc, ← List.append_assoc, List.takeWhile_append_dropWhile]
  rw [run, run, rest_skipRun, rest_skipRun, hsplit]
  exact ⟨(takeWhile_append_stop hrun hstop).symm, dropWhile_append_stop hrun hstop⟩

/-- A run is the same if it ends before the part does. -/
theorem run_eq (h : Parts more c w) {p : Char → Bool} (hrest : (c.skipRun p).rest ≠ []) :
    c.run p = w.run p :=
  (h.run_eq_and_skipRun hrest).1

theorem skipRun (h : Parts more c w) (p : Char → Bool) :
    Parts more (c.skipRun p) (w.skipRun p) := by
  by_cases hrest : (c.skipRun p).rest = []
  · by_cases hmore : more = []
    · subst hmore
      exact .inl (by rw [rest_skipRun, rest_skipRun, h.eq, List.append_nil])
    · exact .inr ⟨hmore, hrest⟩
  · exact .inl (h.run_eq_and_skipRun hrest).2

theorem skipSpace (h : Parts more c w) : Parts more c.skipSpace w.skipSpace :=
  h.skipRun isSpace

/-- A reader that needs another character complains where there is none. -/
theorem truncated {α : Type} {same : α → α → Prop} (h : Parts more c w) (hc : c.rest = [])
    {whole : Reading α} (hwhole : w.rest = [] → whole = w.truncated) :
    CutShort same more c.truncated whole := by
  by_cases hmore : more = []
  · subst hmore
    rw [hwhole (h.eq.trans hc)]
    exact .ended
  · exact .short hmore

end Parts

/-- A piece of markup that only its bracket is missing to. -/
theorem bracket_part {α : Type} {same : α → α → Prop} {value' value : α} (h : Parts more c w)
    (hsame : same value' value) (fault : Fault) :
    CutShort same more
      (match c.rest with
        | [] => c.truncated
        | '>' :: _ => .ok (value', c.skip 1)
        | _ :: _ => c.refuse fault)
      (match w.rest with
        | [] => w.truncated
        | '>' :: _ => .ok (value, w.skip 1)
        | _ :: _ => w.refuse fault) := by
  cases hc : c.rest with
  | nil => exact h.truncated hc fun hnil => by rw [hnil]
  | cons next tail =>
    have hw := h.cons hc
    by_cases hnext : next = '>'
    · subst hnext
      simp only [hw]
      exact .same hsame (by simp [hc, hw])
    · simp only [hw]
      exact .faulty

theorem rest_ne_nil_of_skipRun {p : Char → Bool} (h : (c.skipRun p).rest ≠ []) : c.rest ≠ [] := by
  intro hnil
  rw [rest_skipRun, hnil] at h
  exact h rfl

theorem before?_more {mark text body : List Char} (hmark : mark ≠ [])
    (h : before? mark text = some body) (more : List Char) :
    before? mark (text ++ more) = some body := by
  obtain ⟨rest, rfl⟩ := split_of_before? h
  rw [List.append_assoc, List.append_assoc, before?_append mark hmark]
  exact closed_of_before? hmark h

theorem doctypeBody?_more {text body : List Char} (h : doctypeBody? none 0 text = some body)
    (more : List Char) : doctypeBody? none 0 (text ++ more) = some body := by
  obtain ⟨rest, rfl⟩ := split_of_doctypeBody? h
  rw [List.append_assoc, List.cons_append, doctypeBody?_append]
  exact doctypeClosed_of_doctypeBody? h

theorem upTo_part (h : Parts more c w) (word : String) (hword : word.toList ≠ []) :
    CutShort (· = ·) more (c.upTo word) (w.upTo word) := by
  unfold upTo
  cases hc : before? word.toList c.rest with
  | some body =>
    obtain ⟨rest, hrest⟩ := split_of_before? hc
    have hfront : w.rest = c.rest ++ more := h.append_eq (by simp [hrest, hword])
    have hw : before? word.toList w.rest = some body := by
      rw [hfront]
      exact before?_more hword hc more
    simp only [hw]
    refine .same rfl ?_
    rw [rest_skip, rest_skip, hfront, List.drop_append_of_le_length]
    rw [hrest, List.length_append, List.length_append, String.length_toList]
    omega
  | none =>
    by_cases hmore : more = []
    · subst hmore
      simp only [h.eq, hc]
      exact .ended
    · exact .short hmore

/-! ## Comments, CDATA sections, doctypes and processing instructions -/

theorem readComment_part (h : Parts more c w) :
    CutShort Token.Alike more c.readComment w.readComment := by
  have hbody := upTo_part h "--" (by decide)
  unfold readComment
  generalize c.upTo "--" = part, w.upTo "--" = whole at hbody
  apply hbody.next
  · exact fun _ => ⟨rfl, rfl⟩
  rintro body _ d' d rfl hrest
  exact bracket_part (.inl hrest) (.refl _) _

theorem readCdata_part (h : Parts more c w) :
    CutShort Token.Alike more c.readCdata w.readCdata := by
  have hbody := upTo_part h "]]>" (by decide)
  unfold readCdata
  generalize c.upTo "]]>" = part, w.upTo "]]>" = whole at hbody
  apply hbody.next
  · exact fun _ => ⟨rfl, rfl⟩
  rintro body _ d' d rfl hrest
  exact .same (.refl _) hrest

theorem readDoctype_part (h : Parts more c w) :
    CutShort Token.Alike more c.readDoctype w.readDoctype := by
  unfold readDoctype
  cases hc : doctypeBody? none 0 c.rest with
  | some body =>
    obtain ⟨rest, hrest⟩ := split_of_doctypeBody? hc
    have hfront : w.rest = c.rest ++ more := h.append_eq (by simp [hrest])
    have hw : doctypeBody? none 0 w.rest = some body := by
      rw [hfront]
      exact doctypeBody?_more hc more
    simp only [hw]
    refine .same (.refl _) ?_
    rw [rest_skip, rest_skip, hfront, List.drop_append_of_le_length]
    rw [hrest, List.length_append, List.length_cons]
    omega
  | none =>
    by_cases hmore : more = []
    · subst hmore
      simp only [h.eq, hc]
      exact .ended
    · exact .short hmore

theorem readInstruction_part (h : Parts more c w) :
    CutShort Token.Alike more c.readInstruction w.readInstruction := by
  have hnamed := h.skipRun isInstructionNameChar
  have hbody := upTo_part hnamed.skipSpace "?>" (by decide)
  unfold readInstruction
  simp only
  by_cases hc : (c.skipRun isInstructionNameChar).rest = []
  · rw [if_pos hc]
    exact hnamed.truncated hc fun hnil => if_pos hnil
  · have hw : (w.skipRun isInstructionNameChar).rest ≠ [] := by
      rw [hnamed.append_eq hc]
      simp [hc]
    rw [if_neg hc, if_neg hw, ← h.run_eq hc]
    by_cases hname : c.run isInstructionNameChar = []
    · rw [if_pos hname, if_pos hname]
      exact .faulty
    · rw [if_neg hname, if_neg hname]
      generalize (c.skipRun _).skipSpace.upTo "?>" = part,
        (w.skipRun _).skipSpace.upTo "?>" = whole at hbody
      apply hbody.next
      · exact fun _ => ⟨rfl, rfl⟩
      rintro body _ d' d rfl hrest
      exact .same (.refl _) hrest

/-! ## Tags -/

theorem readQuoted_part (h : Parts more c w) :
    CutShort (fun r' r => r'.1 = r.1) more c.readQuoted w.readQuoted := by
  unfold readQuoted
  cases hc : c.rest with
  | nil => exact h.truncated hc fun hnil => by rw [hnil]
  | cons quote rest =>
    have hinside := h.skip_one (by simp [hc])
    simp only [h.cons hc]
    split
    · have hclosing := hinside.skipRun (· != quote)
      cases hd : ((c.skip 1).skipRun (· != quote)).rest with
      | nil => exact hclosing.truncated hd fun hnil => by rw [hnil]
      | cons next tail =>
        simp only [hclosing.cons hd]
        refine .same (hinside.run_eq (by simp [hd])) ?_
        rw [rest_skip, rest_skip, hclosing.cons hd, hd]
        rfl
    · exact .faulty

theorem readAttribute_part (h : Parts more c w) :
    CutShort (fun a' a => a'.spelling = a.spelling) more c.readAttribute w.readAttribute := by
  have hsign := (h.skipRun isNameChar).skipSpace
  unfold readAttribute
  simp only
  cases hd : (c.skipRun isNameChar).skipSpace.rest with
  | nil => exact hsign.truncated hd fun hnil => by rw [hnil]
  | cons next tail =>
    have hne : (c.skipRun isNameChar).skipSpace.rest ≠ [] := by simp [hd]
    have hname : c.run isNameChar = w.run isNameChar := h.run_eq (rest_ne_nil_of_skipRun hne)
    have hquoted := readQuoted_part (hsign.skip_one hne).skipSpace
    by_cases hnext : next = '='
    · subst hnext
      simp only [hsign.cons hd]
      generalize ((c.skipRun isNameChar).skipSpace.skip 1).skipSpace.readQuoted = part,
        ((w.skipRun isNameChar).skipSpace.skip 1).skipSpace.readQuoted = whole at hquoted
      apply hquoted.next
      · exact fun _ => ⟨rfl, rfl⟩
      exact fun _ _ _ _ hsame hrest => .same (Prod.ext hname hsame) hrest
    · simp only [hsign.cons hd]
      refine .of_faulty ?_
      split <;> exact ⟨_, _, rfl⟩

/-- Start tags that are spelled the same from their name on. -/
def SameTag (r' r : List RawAttribute × Bool) : Prop :=
  r'.1.map (·.spelling) = r.1.map (·.spelling) ∧ r'.2 = r.2

theorem readAttributes_part (fresh : Bool) (h : Parts more c w) :
    CutShort SameTag more (c.readAttributes fresh) (w.readAttributes fresh) := by
  generalize hlength : c.rest.length = length
  induction length using Nat.strongRecOn generalizing c w fresh with
  | ind length ih =>
    have hnext := h.skipSpace
    rw [readAttributes_eq, readAttributes_eq]
    cases hd : c.skipSpace.rest with
    | nil => exact hnext.truncated hd fun hnil => by rw [hnil]
    | cons first tail =>
      have hne : c.skipSpace.rest ≠ [] := by simp [hd]
      have hspace : c.run isSpace = w.run isSpace := h.run_eq hne
      have hclosing := hnext.skip_one hne
      have hattribute := readAttribute_part hnext
      by_cases hclose : first = '>'
      · subst hclose
        simp only [hnext.cons hd]
        exact .same ⟨rfl, rfl⟩ (by simp [hd, hnext.cons hd])
      by_cases hslash : first = '/'
      · subst hslash
        simp only [hnext.cons hd]
        exact bracket_part hclosing ⟨rfl, rfl⟩ _
      simp only [hnext.cons hd]
      by_cases hfirst : isNameStart first = true
      · rw [if_pos hfirst, if_pos hfirst, hspace]
        by_cases hunspaced : w.run isSpace = [] ∧ fresh = false
        · rw [if_pos hunspaced, if_pos hunspaced]
          exact .faulty
        · rw [if_neg hunspaced, if_neg hunspaced]
          generalize hread : c.skipSpace.readAttribute = part,
            w.skipSpace.readAttribute = whole at hattribute
          cases hattribute with
          | short hmore => exact .short hmore
          | ended => exact .ended
          | faulty => exact .faulty
          | @same a' a d' d hsame hrest =>
            have hshorter : d'.rest.length < length := by
              have hread := (readAttribute_reaches hread).2
              have hspace := (Reaches.skipSpace c).length_le
              omega
            have hmore := ih _ hshorter false (.inl hrest) rfl
            simp only
            generalize d'.readAttributes false = part, d.readAttributes false = whole at hmore
            apply hmore.next
            · exact fun _ => ⟨rfl, rfl⟩
            intro others' others e' e hothers hbehind
            refine .same ⟨?_, hothers.2⟩ hbehind
            rw [List.map_cons, List.map_cons, hsame, hothers.1]
      · rw [if_neg hfirst, if_neg hfirst]
        exact .faulty

theorem readStartTag_part (h : Parts more c w) :
    CutShort Token.Alike more c.readStartTag w.readStartTag := by
  have hnamed := h.skipRun isNameChar
  have hattributes := readAttributes_part true hnamed
  unfold readStartTag
  simp only
  cases hd : (c.skipRun isNameChar).rest with
  | nil => exact hnamed.truncated hd fun hnil => by rw [hnil]
  | cons next tail =>
    have hname : c.run isNameChar = w.run isNameChar := h.run_eq (by simp [hd])
    simp only [hnamed.cons hd]
    split
    · generalize (c.skipRun isNameChar).readAttributes true = part,
        (w.skipRun isNameChar).readAttributes true = whole at hattributes
      apply hattributes.next
      · exact fun _ => ⟨rfl, rfl⟩
      rintro ⟨written', selfClosing'⟩ ⟨written, selfClosing⟩ d' d ⟨hwritten, rfl⟩ hrest
      refine .same ?_ hrest
      rw [hname]
      exact .startTag _ _ hwritten
    · exact .faulty

theorem readEndTag_part (h : Parts more c w) :
    CutShort Token.Alike more c.readEndTag w.readEndTag := by
  unfold readEndTag
  cases hc : c.rest with
  | nil => exact h.truncated hc fun hnil => by rw [hnil]
  | cons first tail =>
    have hclosing := (h.skipRun isNameChar).skipSpace
    simp only [h.cons hc]
    split
    · cases hd : (c.skipRun isNameChar).skipSpace.rest with
      | nil => exact hclosing.truncated hd fun hnil => by rw [hnil]
      | cons next tail =>
        have hname : c.run isNameChar = w.run isNameChar :=
          h.run_eq (rest_ne_nil_of_skipRun (p := isSpace) (by rw [← skipSpace, hd]; simp))
        rw [← hd, hname]
        exact bracket_part hclosing (.refl _) _
    · exact .faulty

/-! ## Markup -/

theorem readMarkup_nil (hc : c.rest = []) : c.readMarkup = c.truncated := by
  simp [readMarkup, looksAt, looksAtDoctype, hc]

/-- The keyword of a doctype is known in any case. -/
theorem readMarkup_of_doctype {mark tail : List Char}
    (hmark : mark.map Char.toUpper = "!DOCTYPE".toList) (hc : c.rest = mark ++ tail) :
    c.readMarkup = (c.skip 8).readDoctype := by
  have hlength : mark.length = 8 := by simpa using congrArg List.length hmark
  have hlooks (word : String) {others : List Char} {second : Char}
      (hword : word.toList = '!' :: second :: others) (hsecond : second.toUpper ≠ 'D') :
      c.looksAt word = false := by
    obtain ⟨first, rest, rfl⟩ := List.exists_cons_of_ne_nil (l := mark) (by rintro rfl; cases hlength)
    obtain ⟨next, rest, rfl⟩ := List.exists_cons_of_ne_nil (l := rest) (by rintro rfl; cases hlength)
    have hnext : next.toUpper = 'D' := (List.cons.inj (List.cons.inj hmark).2).1
    have hne : (second == next) = false := beq_false_of_ne fun heq => hsecond (heq ▸ hnext)
    simp [looksAt, hc, hword, List.isPrefixOf, hne]
  have hdoctype : c.looksAtDoctype = true := by
    rw [looksAtDoctype, hc, List.take_left' hlength, hmark]
    decide
  rw [readMarkup, hlooks "!--" rfl (by decide), hlooks "![CDATA[" rfl (by decide), hdoctype]
  simp

theorem readMarkup_unknown {tail : List Char} (hc : c.rest = '!' :: tail)
    (hno : ∀ mark, IsOpener mark → ¬ mark <+: c.rest) :
    c.readMarkup = c.refuse .unknownDeclaration := by
  have hlooks (word : String) (hword : IsOpener word.toList) : ¬ c.looksAt word = true := by
    rw [looksAt, List.isPrefixOf_iff_prefix]
    exact hno _ hword
  have hdoctype : ¬ c.looksAtDoctype = true := fun hlooks =>
    hno (c.rest.take 8) (.inr (.inr (beq_iff_eq.mp hlooks))) (List.take_prefix 8 c.rest)
  rw [readMarkup, if_neg (hlooks _ (.inl rfl)), if_neg (hlooks _ (.inr (.inl rfl))),
    if_neg hdoctype]
  simp only [hc]

theorem cutsOpener_of_prefix {mark text : List Char} (hmark : IsOpener mark) (htext : text ≠ [])
    (hno : ¬ mark <+: text) (h : mark <+: text ++ more) : CutsOpener text ∧ more ≠ [] := by
  have hshort : text <+: mark := by
    rcases List.prefix_or_prefix_of_prefix h (List.prefix_append text more) with h | h
    · exact absurd h hno
    · exact h
  obtain ⟨missing, rfl⟩ := hshort
  refine ⟨⟨htext, missing, ?_, hmark⟩, ?_⟩
  · rintro rfl
    rw [List.append_nil] at hno
    exact hno List.prefix_rfl
  · rintro rfl
    rw [List.append_nil] at h
    exact hno h

theorem readMarkup_opener_part {mark tail : List Char} (h : Parts more c w) (hmark : IsOpener mark)
    (hc : c.rest = mark ++ tail) : CutShort Token.Alike more c.readMarkup w.readMarkup := by
  have hne : mark ≠ [] := by
    rintro rfl
    rcases hmark with hmark | hmark | hmark <;> cases hmark
  have hw : w.rest = mark ++ (tail ++ more) := by
    rw [h.append_eq (by simp [hc, hne]), hc, List.append_assoc]
  have hbehind {n : Nat} (hlength : mark.length = n) : Parts more (c.skip n) (w.skip n) :=
    h.skip (by rw [hc, List.length_append]; omega)
  rcases hmark with rfl | rfl | hmark
  · rw [(readMarkup_of_bang hc).1 rfl, (readMarkup_of_bang hw).1 rfl]
    exact readComment_part (hbehind rfl)
  · rw [(readMarkup_of_bang hc).2.1 rfl, (readMarkup_of_bang hw).2.1 rfl]
    exact readCdata_part (hbehind rfl)
  · rw [readMarkup_of_doctype hmark hc, readMarkup_of_doctype hmark hw]
    exact readDoctype_part (hbehind (by simpa using congrArg List.length hmark))

theorem readMarkup_part (h : Parts more c w) :
    CutShort Token.Alike more c.readMarkup w.readMarkup ∨
      more ≠ [] ∧ CutsOpener c.rest ∧ c.readMarkup = c.refuse .unknownDeclaration := by
  cases hc : c.rest with
  | nil =>
    left
    rw [readMarkup_nil hc]
    exact h.truncated hc readMarkup_nil
  | cons first tail =>
    by_cases hbang : first = '!'
    · subst hbang
      by_cases hopener : ∃ mark, IsOpener mark ∧ mark <+: c.rest
      · obtain ⟨mark, hmark, tail, htail⟩ := hopener
        exact .inl (readMarkup_opener_part h hmark htail.symm)
      · have hno : ∀ mark, IsOpener mark → ¬ mark <+: c.rest := by simpa using hopener
        by_cases hwhole : ∃ mark, IsOpener mark ∧ mark <+: w.rest
        · obtain ⟨mark, hmark, hprefix⟩ := hwhole
          have hne : c.rest ≠ [] := by simp [hc]
          rw [h.append_eq hne] at hprefix
          obtain ⟨hcut, hmore⟩ := cutsOpener_of_prefix hmark hne (hno mark hmark) hprefix
          exact .inr ⟨hmore, hc ▸ hcut, readMarkup_unknown hc hno⟩
        · left
          rw [readMarkup_unknown (h.cons hc) (by simpa using hwhole)]
          exact .faulty
    · left
      have hbehind := h.skip_one (by simp [hc])
      rw [readMarkup_of_first hc hbang, readMarkup_of_first (h.cons hc) hbang]
      split
      · exact readInstruction_part hbehind
      · split
        · exact readEndTag_part hbehind
        · split
          · exact readStartTag_part h
          · exact .faulty

theorem readToken_of_text {first : Char} {tail : List Char} (hc : c.rest = first :: tail)
    (hfirst : first ≠ '<') :
    c.readToken = .ok (.text (c.run (· != '<')), c.skipRun (· != '<')) := by
  simp [readToken, hc, hfirst]

/-- Text that goes up to the end of the part may go on in the whole. -/
theorem readText_part (h : w.rest = c.rest ++ more)
    (hend : (c.skipRun (· != '<')).rest = []) :
    '<' ∉ c.rest ∧ c.run (· != '<') = c.rest ∧ ∃ extra, w.run (· != '<') = c.rest ++ extra := by
  have hall : ∀ x ∈ c.rest, (x != '<') = true := by
    rw [rest_skipRun] at hend
    exact List.dropWhile_eq_nil_iff.mp hend
  refine ⟨fun hmem => by simpa using hall _ hmem, List.takeWhile_eq_self_iff.mpr hall,
    more.takeWhile (· != '<'), ?_⟩
  rw [run, h, List.takeWhile_append_of_pos hall]

/-- **A token of a part is the token of the whole, unless the part breaks off in it.** Then the
reader says so, except inside an opening mark and in text. -/
theorem readToken_part (h : w.rest = c.rest ++ more) (hc : c.rest ≠ []) :
    CutShort Token.Alike more c.readToken w.readToken ∨
      more ≠ [] ∧
        ((∃ cut pos, c.rest = '<' :: cut ∧ CutsOpener cut ∧
            c.readToken = .error (.faulty .unknownDeclaration pos)) ∨
          ∃ d extra d', '<' ∉ c.rest ∧ d.rest = [] ∧ c.readToken = .ok (.text c.rest, d) ∧
            w.readToken = .ok (.text (c.rest ++ extra), d')) := by
  obtain ⟨first, tail, hfirst⟩ := List.exists_cons_of_ne_nil hc
  have hparts : Parts more c w := .inl h
  by_cases hbracket : first = '<'
  · subst hbracket
    rw [(readToken_bracket tail hfirst).1, (readToken_bracket _ (hparts.cons hfirst)).1]
    have hinside := (readToken_bracket tail hfirst).2
    rcases readMarkup_part (hparts.skip_one hc) with hpart | ⟨hmore, hcut, hpart⟩
    · exact .inl hpart
    · exact .inr ⟨hmore, .inl ⟨tail, _, hfirst, hinside ▸ hcut, hpart⟩⟩
  · rw [readToken_of_text hfirst hbracket, readToken_of_text (hparts.cons hfirst) hbracket]
    by_cases hmore : more = []
    · subst hmore
      rw [List.append_nil] at h
      refine .inl (.same ?_ ?_)
      · rw [run, run, h]
        exact .refl _
      · rw [rest_skipRun, rest_skipRun, h, List.append_nil]
    · by_cases hend : (c.skipRun (· != '<')).rest = []
      · obtain ⟨hno, hrun, extra, hlonger⟩ := readText_part h hend
        rw [hrun, hlonger]
        exact .inr ⟨hmore, .inr ⟨_, _, _, hno, hend, rfl, rfl⟩⟩
      · obtain ⟨hrun, hrest⟩ := hparts.run_eq_and_skipRun hend
        rw [hrun]
        exact .inl (.same (.refl _) hrest)

end Cursor

/-! ## Taking in a token -/

namespace Assembly

variable {s : Assembly}

theorem decodeAt_moved {raw text : List Char} {pos : Position}
    (h : s.decodeAt raw pos = .ok text) (pos' : Position) : s.decodeAt raw pos' = .ok text := by
  unfold decodeAt at h ⊢
  split at h
  · exact h
  · cases h

theorem takeAttribute_spelled {a b : RawAttribute} (hspelling : a.spelling = b.spelling)
    {known result : Attributes} (h : s.takeAttribute known b = .ok result) :
    s.takeAttribute known a = .ok result := by
  rw [RawAttribute.spelling, RawAttribute.spelling, Prod.mk.injEq] at hspelling
  obtain ⟨hname, hvalue⟩ := hspelling
  unfold takeAttribute at h ⊢
  rw [hname, hvalue]
  split
  · rename_i hknown
    rwa [if_pos hknown] at h
  · rename_i hnew
    rw [if_neg hnew] at h
    split at h
    · rename_i hdecode
      rwa [decodeAt_moved hdecode a.pos]
    · cases h

theorem attributesOf_spelled {written other : List RawAttribute} {attributes : Attributes}
    (hwritten : written.map (·.spelling) = other.map (·.spelling))
    (h : s.attributesOf other = .ok attributes) : s.attributesOf written = .ok attributes := by
  rw [attributesOf_eq] at h ⊢
  generalize Attributes.empty = known at h ⊢
  induction written generalizing other known with
  | nil =>
    rw [List.map_nil, eq_comm, List.map_eq_nil_iff] at hwritten
    rwa [hwritten] at h
  | cons a written ih =>
    cases other with
    | nil => cases hwritten
    | cons b other =>
      rw [List.map_cons, List.map_cons, List.cons.injEq] at hwritten
      rw [List.foldlM_cons] at h ⊢
      cases hb : s.takeAttribute known b with
      | error flaw =>
        rw [hb] at h
        cases h
      | ok result =>
        rw [hb] at h
        rw [takeAttribute_spelled hwritten.1 hb]
        exact ih hwritten.2 result h

theorem text_moved {raw : List Char} {pos : Position} {next : Assembly}
    (h : s.text raw pos = .ok next) (pos' : Position) : s.text raw pos' = .ok next := by
  unfold Assembly.text at h ⊢
  split at h
  · split at h
    · rename_i hblank
      rwa [if_pos hblank]
    · cases h
  · split at h
    · cases h
    · rename_i hdecode
      rwa [decodeAt_moved hdecode pos']

theorem endTag_moved {name : List Char} {pos : Position} {next : Assembly}
    (h : s.endTag name pos = .ok next) (pos' : Position) : s.endTag name pos' = .ok next := by
  unfold Assembly.endTag at h ⊢
  split at h
  · cases h
  · split at h
    · rename_i hname
      rwa [if_pos hname]
    · split at h <;> cases h

theorem doctype_moved {body : List Char} {pos : Position} {next : Assembly}
    (h : s.doctype body pos = .ok next) (pos' : Position) : s.doctype body pos' = .ok next := by
  unfold Assembly.doctype at h ⊢
  split at h
  · rename_i hstage
    rwa [if_pos hstage]
  · cases h

/-- **What a token adds to the document does not depend on where it stands.** -/
theorem step_alike {t' t : Token} (ht : t'.Alike t) {start stop : Position} {next : Assembly}
    (h : s.step ⟨t, start, stop⟩ = .ok next) (start' stop' : Position) :
    s.step ⟨t', start', stop'⟩ = .ok next := by
  cases ht with
  | startTag name selfClosing hwritten =>
    unfold Assembly.step Assembly.startTag at h ⊢
    simp only at h ⊢
    split at h
    · cases h
    · rename_i hattributes
      rwa [attributesOf_spelled hwritten hattributes]
  | refl =>
    cases t' with
    | text raw => exact text_moved h start'
    | endTag name => exact endTag_moved h stop'
    | doctype body => exact doctype_moved h start'
    | startTag | comment | cdata | instruction => exact h

end Assembly

end SvgTidy.Markup
