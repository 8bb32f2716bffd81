import SvgTidy.Proofs.ReadingSteps
import SvgTidy.Proofs.TokenSources

/-!
# Where reading stops

A piece of markup that is faulty is given up at a character: the first one that was not read. `Breaks`
lists the ways, with what was read up to there, the fault, and what is left, which begins with that
character. Faults behind the name of a start tag have a list of their own, `TagBreaks`. A piece
inside of which the text ends is given up at the end of the text.

Principal results: `Failure.Stops.of_spans` — what stops a reader stops the one that called it;
`Cursor.stops_of_readToken` — why and where no token was read.
-/

namespace SvgTidy.Markup

/-- What was read of a start tag behind its name, the fault, and what is left. The tag may break after
some attributes; `fresh` says that there was none yet. -/
inductive TagBreaks : Bool → List Char → Fault → List Char → Prop where
  | afterAttribute (fresh : Bool) (a : AttributeText) {read rest : List Char} {fault : Fault}
      (hname : IsName a.name) (hmore : TagBreaks false read fault rest) :
      TagBreaks fresh (a.chars ++ read) fault rest
  | straySlash (fresh : Bool) (gap : Space) {next : Char} {tail : List Char} (hnext : next ≠ '>') :
      TagBreaks fresh (gap.chars ++ ['/']) .straySlash (next :: tail)
  | unspacedAttributes {next : Char} {tail : List Char} (hnext : isNameStart next = true) :
      TagBreaks false [] .unspacedAttributes (next :: tail)
  | noName (fresh : Bool) (gap : Space) {next : Char} {tail : List Char}
      (hspace : isSpace next = false) (hname : isNameStart next = false)
      (hends : next ≠ '>' ∧ next ≠ '/') :
      TagBreaks fresh gap.chars .badAttributeName (next :: tail)
  | foreignCharacter (fresh : Bool) (gap : Separator) {name : List Char} {next : Char}
      {tail : List Char} (hname : IsName name) (hends : isNameChar next = false)
      (hspace : isSpace next = false) (hnext : next ≠ '=' ∧ next ≠ '>') :
      TagBreaks fresh (gap.chars ++ name) .badAttributeName (next :: tail)
  | attributeWithoutValue (fresh : Bool) (gap : Separator) {name : List Char} (after : Space)
      {next : Char} {tail : List Char} (hname : IsName name) (hspace : isSpace next = false)
      (hnext : next ≠ '=' ∧ (after.chars ≠ [] ∨ next = '>')) :
      TagBreaks fresh (gap.chars ++ (name ++ after.chars)) .attributeWithoutValue (next :: tail)
  | unquotedValue (fresh : Bool) (gap : Separator) {name : List Char} (afterName beforeValue : Space)
      {next : Char} {tail : List Char} (hname : IsName name) (hspace : isSpace next = false)
      (hnext : next ≠ '"' ∧ next ≠ '\'') :
      TagBreaks fresh (gap.chars ++ (name ++ (afterName.chars ++ '=' :: beforeValue.chars)))
        .unquotedValue (next :: tail)

theorem TagBreaks.ne_nil {fresh : Bool} {read rest : List Char} {fault : Fault}
    (h : TagBreaks fresh read fault rest) : rest ≠ [] := by
  induction h with
  | afterAttribute fresh a hname hmore ih => exact ih
  | _ => exact List.cons_ne_nil _ _

/-- What was read of a piece of markup, the fault, and what is left. -/
inductive Breaks : List Char → Fault → List Char → Prop where
  | unknownDeclaration {rest : List Char} (hcomment : ¬ "!--".toList <+: '!' :: rest)
      (hcdata : ¬ "![CDATA[".toList <+: '!' :: rest)
      (hdoctype : (('!' :: rest).take 8).map Char.toUpper ≠ "!DOCTYPE".toList) :
      Breaks ['<'] .unknownDeclaration ('!' :: rest)
  | strayBracket {next : Char} {tail : List Char} (hname : isNameStart next = false)
      (hnext : next ∉ ['!', '?', '/']) : Breaks ['<'] .strayBracket (next :: tail)
  | malformedComment {body : List Char} {next : Char} {tail : List Char}
      (hbody : Closed "--".toList body) (hnext : next ≠ '>') :
      Breaks ("<!--".toList ++ (body ++ "--".toList)) .malformedComment (next :: tail)
  | namelessInstruction {next : Char} {tail : List Char}
      (hnext : Cursor.isInstructionNameChar next = false) :
      Breaks "<?".toList .namelessInstruction (next :: tail)
  | badEndTagName {next : Char} {tail : List Char} (hnext : isNameStart next = false) :
      Breaks "</".toList .badEndTagName (next :: tail)
  | junkInEndTag {name : List Char} (gap : Space) {next : Char} {tail : List Char}
      (hname : IsName name) (hends : gap.chars = [] → isNameChar next = false)
      (hspace : isSpace next = false) (hnext : next ≠ '>') :
      Breaks ("</".toList ++ (name ++ gap.chars)) .junkInEndTag (next :: tail)
  | badTagName {name : List Char} {next : Char} {tail : List Char} (hname : IsName name)
      (hends : isNameChar next = false) (hspace : isSpace next = false)
      (hnext : next ≠ '>' ∧ next ≠ '/') : Breaks ('<' :: name) .badTagName (next :: tail)
  | inTag {name read rest : List Char} {fault : Fault} (hname : IsName name)
      (hends : ∀ x, (read ++ rest).head? = some x → isSpace x = true ∨ x = '>' ∨ x = '/')
      (h : TagBreaks true read fault rest) : Breaks ('<' :: (name ++ read)) fault rest

/-- A fault is found at a character. -/
theorem Breaks.ne_nil {read rest : List Char} {fault : Fault} (h : Breaks read fault rest) :
    rest ≠ [] := by
  cases h with
  | inTag hname hends h => exact h.ne_nil
  | _ => exact List.cons_ne_nil _ _

/-- Why and where nothing was read from a cursor on: a fault of a kind, or the end of the text. -/
def Failure.Stops (breaks : List Char → Fault → List Char → Prop) (c : Cursor) : Failure → Prop
  | .faulty fault pos => ∃ read d, c.Spans read d ∧ breaks read fault d.rest ∧ pos = d.pos
  | .endOfText pos => pos = c.endPos

namespace Failure

variable {c d : Cursor} {failure : Failure} {breaks breaks' : List Char → Fault → List Char → Prop}

/-- **What stops a reader stops the one that called it**, whatever that had read before. -/
theorem Stops.of_spans {text : List Char} (h : failure.Stops breaks d) (hspans : c.Spans text d)
    (hbreaks : ∀ read fault rest, d.rest = read ++ rest → breaks read fault rest →
      breaks' (text ++ read) fault rest) : failure.Stops breaks' c := by
  cases failure with
  | faulty fault pos =>
    obtain ⟨read, e, hread, hat, hpos⟩ := h
    exact ⟨text ++ read, e, hspans.trans hread, hbreaks _ _ _ hread.rest hat, hpos⟩
  | endOfText pos =>
    show pos = c.endPos
    rw [← hspans.reaches.endPos_eq]
    exact h

theorem stops_of_refuse {α : Type} {fault : Fault} {read : List Char}
    (h : (d.refuse fault : Reading α) = .error failure) (hspans : c.Spans read d)
    (hbreaks : breaks read fault d.rest) : failure.Stops breaks c := by
  cases h
  exact ⟨read, d, hspans, hbreaks, rfl⟩

theorem stops_of_truncated {α : Type} (h : (d.truncated : Reading α) = .error failure)
    (hreads : c.Reaches d) : failure.Stops breaks c := by
  cases h
  exact hreads.endPos_eq

end Failure

namespace Cursor

open Failure

variable {b c d : Cursor} {failure : Failure} {breaks : List Char → Fault → List Char → Prop}

/-! ## Sections -/

theorem stops_of_upTo {word : String} (h : c.upTo word = .error failure) :
    failure.Stops breaks c := by
  unfold upTo at h
  split at h
  · cases h
  · exact stops_of_truncated h (.refl c)

theorem stops_of_readComment (hopening : b.Spans "<!--".toList c)
    (h : c.readComment = .error failure) : failure.Stops Breaks b := by
  unfold readComment at h
  split at h
  · rename_i hbody
    cases h
    exact (stops_of_upTo hbody).of_spans hopening fun _ _ _ _ hbreaks => hbreaks
  · rename_i body closing hbody
    obtain ⟨hclosed, hspans⟩ := spans_of_upTo (by decide) hbody
    split at h
    · exact stops_of_truncated h (hopening.trans hspans).reaches
    · cases h
    · rename_i next tail hnext hrest
      refine stops_of_refuse h (hopening.trans hspans) ?_
      rw [hrest]
      exact .malformedComment hclosed hnext

theorem stops_of_readCdata (h : c.readCdata = .error failure) : failure.Stops breaks c := by
  unfold readCdata at h
  split at h
  · rename_i hbody
    cases h
    exact stops_of_upTo hbody
  · cases h

theorem stops_of_readDoctype (h : c.readDoctype = .error failure) : failure.Stops breaks c := by
  unfold readDoctype at h
  split at h
  · exact stops_of_truncated h (.refl c)
  · cases h

theorem stops_of_readInstruction (hopening : b.Spans "<?".toList c)
    (h : c.readInstruction = .error failure) : failure.Stops Breaks b := by
  have hspans := Spans.skipRun c isInstructionNameChar
  have hnamed := hopening.trans hspans
  unfold readInstruction at h
  simp only at h
  split at h
  · exact stops_of_truncated h hnamed.reaches
  · rename_i hne
    split at h
    · rename_i hname
      obtain ⟨next, tail, hrest⟩ := List.exists_cons_of_ne_nil hne
      rw [hname] at hnamed
      refine stops_of_refuse h hnamed ?_
      rw [hrest]
      exact .namelessInstruction (eq_false_of_skipRun hrest)
    · split at h
      · rename_i hbody
        cases h
        exact (stops_of_upTo hbody).of_spans (hnamed.trans (spans_space _))
          fun _ _ _ _ hbreaks => hbreaks
      · cases h

/-! ## Tags -/

theorem stops_of_readEndTag (hopening : b.Spans "</".toList c)
    (h : c.readEndTag = .error failure) : failure.Stops Breaks b := by
  unfold readEndTag at h
  split at h
  · exact stops_of_truncated h hopening.reaches
  · rename_i first tail hrest
    split at h
    · rename_i hfirst
      have hname := hopening.trans (.skipRun c isNameChar)
      have hgap := (c.skipRun isNameChar).spans_space
      simp only at h
      split at h
      · exact stops_of_truncated h (hname.trans hgap).reaches
      · cases h
      · rename_i next tail hnext hclosing
        refine stops_of_refuse h (hname.trans hgap) ?_
        rw [hclosing, List.append_assoc]
        refine .junkInEndTag _ (isName_run hrest hfirst) (fun hnone => ?_)
          (eq_false_of_skipRun hclosing) hnext
        -- without space the name goes on to the character
        rw [hnone] at hgap
        exact eq_false_of_skipRun (hgap.rest.trans hclosing)
    · rename_i hfirst
      refine stops_of_refuse h hopening ?_
      rw [hrest]
      exact .badEndTagName (by simpa using hfirst)

theorem stops_of_readQuoted (h : c.readQuoted = .error failure) :
    failure.Stops (fun read fault rest => read = [] ∧ fault = .unquotedValue ∧ rest = c.rest ∧
      ∃ next tail, c.rest = next :: tail ∧ next ≠ '"' ∧ next ≠ '\'') c := by
  unfold readQuoted at h
  split at h
  · exact stops_of_truncated h (.refl c)
  · rename_i next tail hrest
    split at h
    · simp only at h
      split at h
      · exact stops_of_truncated h ((Reaches.skip c 1).trans (.skipRun _ _))
      · cases h
    · rename_i hquote
      exact stops_of_refuse h (.refl c) ⟨rfl, rfl, rfl, next, tail, hrest, not_or.mp hquote⟩

/-- An attribute that breaks, with the space before it. -/
theorem stops_of_readAttribute {fresh : Bool} (gap : Separator) (hgap : b.Spans gap.chars c)
    {first : Char} {tail : List Char} (hrest : c.rest = first :: tail)
    (hfirst : isNameStart first = true) (h : c.readAttribute = .error failure) :
    failure.Stops (TagBreaks fresh) b := by
  have hname := isName_run hrest hfirst
  have hspans := Spans.skipRun c isNameChar
  have hafter := (c.skipRun isNameChar).spans_space
  have hsign := hgap.trans (hspans.trans hafter)
  unfold readAttribute at h
  simp only at h
  split at h
  · exact stops_of_truncated h hsign.reaches
  · rename_i hequals
    split at h
    · rename_i hquoted
      cases h
      have hequals : Spans _ ['='] ((c.skipRun isNameChar).skipSpace.skip 1) := .of_rest hequals
      have hvalue := hgap.trans (hspans.trans (hafter.trans (hequals.trans (spans_space _))))
      refine (stops_of_readQuoted hquoted).of_spans hvalue ?_
      rintro _ _ _ - ⟨rfl, rfl, rfl, next, tail, hnext, hquote⟩
      rw [hnext, List.append_nil]
      exact .unquotedValue fresh gap _ _ hname (eq_false_of_skipRun hnext) hquote
    · cases h
  · rename_i next tail hequals hnext
    have hspace : isSpace next = false := eq_false_of_skipRun hnext
    split at h
    · rename_i hends
      refine stops_of_refuse h hsign ?_
      rw [hnext]
      exact .attributeWithoutValue fresh gap _ hname hspace ⟨hequals, hends⟩
    · rename_i hends
      rw [not_or, not_not] at hends
      obtain ⟨hnone, hbracket⟩ := hends
      have hempty : (c.skipRun isNameChar).space.chars = [] := hnone
      -- without space the name goes on to the character
      rw [hempty] at hafter hsign
      rw [List.append_nil] at hsign
      refine stops_of_refuse h hsign ?_
      rw [hnext]
      exact .foreignCharacter fresh gap hname (eq_false_of_skipRun (hafter.rest.trans hnext)) hspace
        ⟨hequals, hbracket⟩

theorem stops_of_readAttributes {fresh : Bool} (h : c.readAttributes fresh = .error failure)
    (hspaced : fresh = true → ∀ x, c.rest.head? = some x → isNameStart x = false) :
    failure.Stops (TagBreaks fresh) c := by
  fun_induction readAttributes fresh c with
  | case1 => exact stops_of_truncated h (.skipSpace _)
  | case2 => cases h
  | case3 => exact stops_of_truncated h ((Reaches.skipSpace _).trans (.skip _ 1))
  | case4 => cases h
  | case5 fresh c =>
    rename_i hrest _ next _ hnext hclosing
    have hslash : c.skipSpace.Spans ['/'] (c.skipSpace.skip 1) := .of_rest hrest
    replace hclosing : (c.skipSpace.skip 1).rest = next :: _ := hclosing
    refine stops_of_refuse h ((spans_space c).trans hslash) ?_
    rw [hclosing]
    exact .straySlash fresh _ hnext
  | case6 fresh c =>
    rename_i hrest hfirst hunspaced
    obtain ⟨hnone, rfl⟩ := hunspaced
    have hhere : c.Spans (c.run isSpace) c.skipSpace := .skipRun c isSpace
    rw [hnone] at hhere
    refine stops_of_refuse h hhere ?_
    rw [hrest]
    exact .unspacedAttributes hfirst
  | case7 fresh c =>
    rename_i hrest hfirst hunspaced _ hattribute
    cases h
    have hspace := space_ne_nil hspaced hrest hfirst hunspaced
    exact stops_of_readAttribute ⟨c.space, hspace⟩ (spans_space c) hrest hfirst hattribute
  | case8 fresh c =>
    rename_i hrest hfirst hunspaced _ _ hattribute _ _ hmore ih
    cases h
    have hspace := space_ne_nil hspaced hrest hfirst hunspaced
    have hname := isName_of_readAttribute hrest hfirst hattribute
    obtain ⟨t, hspans, rfl⟩ :=
      written_of_readAttribute ⟨c.space, hspace⟩ (spans_space c) hattribute
    exact (ih hmore (absurd · Bool.false_ne_true)).of_spans hspans
      fun _ _ _ _ hbreaks => .afterAttribute fresh t hname hbreaks
  | case9 => cases h
  | case10 fresh c =>
    rename_i hbracket hslash hrest hfirst
    refine stops_of_refuse h (spans_space c) ?_
    rw [hrest]
    exact .noName fresh c.space (eq_false_of_skipRun hrest) (by simpa using hfirst)
      ⟨hbracket, hslash⟩

theorem stops_of_readStartTag (hopening : b.Spans ['<'] c) {first : Char} {tail : List Char}
    (hrest : c.rest = first :: tail) (hfirst : isNameStart first = true)
    (h : c.readStartTag = .error failure) : failure.Stops Breaks b := by
  have hname := isName_run hrest hfirst
  have hspans := hopening.trans (.skipRun c isNameChar)
  unfold readStartTag at h
  simp only at h
  split at h
  · exact stops_of_truncated h hspans.reaches
  · rename_i next _ hnext
    split at h
    · rename_i hends
      split at h
      · rename_i hattributes
        cases h
        have hstops := stops_of_readAttributes hattributes fun _ => isNameStart_of_ends hnext hends
        refine hstops.of_spans hspans fun read fault rest hrest hbreaks => .inTag hname ?_ hbreaks
        intro x hx
        rw [← hrest, hnext] at hx
        cases hx
        exact hends
      · cases h
    · rename_i hends
      rw [not_or, not_or] at hends
      refine stops_of_refuse h hspans ?_
      rw [hnext]
      exact .badTagName hname (eq_false_of_skipRun hnext) (by simpa using hends.1) hends.2

/-! ## Tokens -/

theorem stops_of_readMarkup (hopening : b.Spans ['<'] c) (h : c.readMarkup = .error failure) :
    failure.Stops Breaks b := by
  unfold readMarkup at h
  split at h
  · rename_i hlooks
    obtain ⟨tail, hrest⟩ := exists_rest_of_looksAt hlooks
    have hword : c.Spans "!--".toList (c.skip 3) := .of_rest hrest
    exact stops_of_readComment (hopening.trans hword) h
  · rename_i hcomment
    split at h
    · rename_i hlooks
      obtain ⟨tail, hrest⟩ := exists_rest_of_looksAt hlooks
      have hword : c.Spans "![CDATA[".toList (c.skip 8) := .of_rest hrest
      exact (stops_of_readCdata h).of_spans (hopening.trans hword) fun _ _ _ _ hbreaks => hbreaks
    · rename_i hcdata
      split at h
      · rename_i hlooks
        have hword := (spans_of_looksAtDoctype hlooks).2
        exact (stops_of_readDoctype h).of_spans (hopening.trans hword) fun _ _ _ _ hbreaks => hbreaks
      · rename_i hdoctype
        split at h
        · exact stops_of_truncated h hopening.reaches
        · rename_i tail hrest
          refine stops_of_refuse h hopening ?_
          rw [looksAt, List.isPrefixOf_iff_prefix] at hcomment hcdata
          rw [looksAtDoctype, beq_iff_eq] at hdoctype
          rw [hrest] at hcomment hcdata hdoctype ⊢
          exact .unknownDeclaration hcomment hcdata hdoctype
        · rename_i hrest
          have hmark : c.Spans ['?'] (c.skip 1) := .of_rest hrest
          exact stops_of_readInstruction (hopening.trans hmark) h
        · rename_i hrest
          have hslash : c.Spans ['/'] (c.skip 1) := .of_rest hrest
          exact stops_of_readEndTag (hopening.trans hslash) h
        · rename_i first tail hbang hquestion hslash hrest
          split at h
          · rename_i hfirst
            exact stops_of_readStartTag hopening hrest hfirst h
          · rename_i hfirst
            refine stops_of_refuse h hopening ?_
            rw [hrest]
            refine .strayBracket (by simpa using hfirst) ?_
            simpa using ⟨hbang, hquestion, hslash⟩

/-- **Why and where no token was read.** -/
theorem stops_of_readToken (h : c.readToken = .error failure) : failure.Stops Breaks c := by
  unfold readToken at h
  split at h
  · rename_i hrest
    have hbracket : c.Spans ['<'] (c.skip 1) := .of_rest hrest
    exact stops_of_readMarkup hbracket h
  · cases h

end Cursor

end SvgTidy.Markup
