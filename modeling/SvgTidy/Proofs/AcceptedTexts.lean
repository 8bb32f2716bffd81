import SvgTidy.Proofs.NodeOrigins

/-!
# What is read and what is refused

Reading comes down to three questions about the tokens of a text: whether the markup is sound up to
its end, whether the tokens conform, and, if not, which of them is the first to blame.

Principal results: `read_judges` — a text is read exactly if its tokens conform, the document is
arranged by them, and a diagnostic is about the first thing that is wrong.
-/

namespace SvgTidy

namespace Markup

/-- The tokens of a text, wherever they stand. -/
def tokensOf (text : List Char) : List Token :=
  (tokenize text).1.map PlacedToken.token

/-- No faulty markup ends the tokens of a text early. The text may break off inside a piece. -/
def Unbroken (text : List Char) : Prop :=
  ∀ fault pos, (tokenize text).2 ≠ some (.faulty fault pos)

/-- What a text is refused for: the first token that violates something, else the faulty markup that
ends the tokens, else an element left open. -/
inductive Blames (text : List Char) : Flaw → Prop where
  | token {front behind : List PlacedToken} {placed : PlacedToken} {fault : Fault} {pos : Position}
      (htokens : (tokenize text).1 = front ++ placed :: behind)
      (hfront : Faultless (front.map PlacedToken.token))
      (hviolates : Violates (front.map PlacedToken.token) placed.token fault)
      (hpos : placed.Holds pos) : Blames text ⟨fault, pos⟩
  | markup {fault : Fault} {pos : Position} (htokens : Faultless (tokensOf text))
      (hfailure : (tokenize text).2 = some (.faulty fault pos)) : Blames text ⟨fault, pos⟩
  | unclosed {tag : OpenTag} {outer : List OpenTag} (htokens : Faultless (tokensOf text))
      (hfailure : Unbroken text) (hopened : Opened (tokensOf text) (tag :: outer)) :
      Blames text ⟨.unclosedElement, (Cursor.ofText text).endPos⟩

variable {text : List Char} {flaw : Flaw}

namespace Blames

theorem not_conforms (h : Blames text flaw) : ¬ (Unbroken text ∧ Conforms (tokensOf text)) := by
  rintro ⟨hunbroken, hconforms⟩
  cases h with
  | @token front behind placed fault pos htokens hfront hviolates hpos =>
    have hsplit : tokensOf text = front.map PlacedToken.token ++
        placed.token :: behind.map PlacedToken.token := by
      rw [tokensOf, htokens, List.map_append, List.map_cons]
    exact hconforms.faultless _ _ _ hsplit _ hviolates
  | markup htokens hfailure => exact hunbroken _ _ hfailure
  | unclosed htokens hfailure hopened => cases hopened.eq_nil_of_nested hconforms.nested

/-- An element left open is blamed only where nothing else is wrong. -/
theorem of_unclosed (h : Blames text flaw) (hfault : flaw.fault = .unclosedElement) :
    Faultless (tokensOf text) ∧ Unbroken text ∧
      (∃ tag outer, Opened (tokensOf text) (tag :: outer)) ∧
      flaw.pos = (Cursor.ofText text).endPos := by
  cases h with
  | token htokens hfront hviolates hpos => exact absurd hfault hviolates.ne_unclosed
  | markup htokens hfailure =>
    have hlexical := Cursor.lexical_of_tokens _ hfailure
    subst hfault
    exact hlexical.elim
  | @unclosed tag outer htokens hfailure hopened =>
    exact ⟨htokens, hfailure, ⟨tag, outer, hopened⟩, rfl⟩

end Blames

/-- **A text whose tokens conform is put together, any other is refused for what is wrong first.** -/
theorem assemble_judges (text : List Char) :
    match assemble text with
    | .ok doc => (Unbroken text ∧ Conforms (tokensOf text)) ∧
        ∃ places, doc.Arranged (tokensOf text) places
    | .error flaw => Blames text flaw := by
  have hstands := stands_of_mem_tokens (.ofText text)
  have hrun := Tracks.run hstands .start .nil
  unfold assemble
  simp only
  cases hfold : (tokenize text).1.foldlM Assembly.step .start with
  | error flaw =>
    rw [tokenize] at hfold
    rw [hfold] at hrun
    obtain ⟨front, placed, behind, htokens, hfront, hviolates, hpos⟩ := hrun
    exact .token htokens hfront hviolates hpos
  | ok last =>
    obtain ⟨places, hplaces⟩ := Arranges.run hfold
    rw [tokenize] at hfold
    rw [hfold] at hrun
    obtain ⟨hfaultless, htracks⟩ := hrun
    have hend (hunbroken : Unbroken text) :
        match (if last.opened = [] then .ok last.doc
          else .error ⟨.unclosedElement, (Cursor.ofText text).endPos⟩ : Except Flaw Document) with
        | .ok doc => (Unbroken text ∧ Conforms (tokensOf text)) ∧
            ∃ places, doc.Arranged (tokensOf text) places
        | .error flaw => Blames text flaw := by
      by_cases hopened : last.opened = []
      · rw [if_pos hopened]
        have hnested := htracks.nested_iff.mpr hopened
        exact ⟨⟨hunbroken, hfaultless.conforms hnested⟩, places, hplaces.doc⟩
      · rw [if_neg hopened]
        obtain ⟨tags, htags, hnames⟩ := htracks.opened
        cases tags with
        | nil =>
          rw [List.map_nil, eq_comm, List.map_eq_nil_iff] at hnames
          exact absurd hnames hopened
        | cons tag outer => exact .unclosed hfaultless hunbroken htags
    cases hfailure : (tokenize text).2 with
    | none => exact hend fun fault pos h => by simp [hfailure] at h
    | some failure =>
      cases failure with
      | endOfText pos => exact hend fun fault pos h => by simp [hfailure] at h
      | faulty fault pos => exact .markup hfaultless hfailure

end Markup

open Markup

theorem Fault.reason_unmatchedEndTag_ne (name : String) :
    (Fault.unmatchedEndTag name).reason ≠ Fault.unclosedElement.reason := by
  intro h
  have hthird : (Fault.unmatchedEndTag name).reason.toList[2]? = some 'm' := by
    show (("Unmatched closing tag: " : String) ++ name).toList[2]? = some 'm'
    rw [String.toList_append, List.getElem?_append_left (by decide +kernel)]
    decide +kernel
  have hother : Fault.unclosedElement.reason.toList[2]? = some 'c' := by decide +kernel
  rw [h, hother] at hthird
  cases hthird

/-- No other fault has the wording of an element left open. -/
theorem Fault.eq_unclosed_of_reason {fault : Fault}
    (h : fault.reason = Fault.unclosedElement.reason) : fault = .unclosedElement := by
  cases fault with
  | unmatchedEndTag name => exact absurd h (reason_unmatchedEndTag_ne name)
  | unclosedElement => rfl
  | _ => exact absurd h (by decide)

/-- The diagnostic for a flaw of a text. -/
def Markup.Flaw.diagnostic (flaw : Flaw) (source : String) (path : Option String) : Diagnostic :=
  { reason := flaw.fault.reason
    line := flaw.pos.line
    column := flaw.pos.column
    source
    path }

namespace Document

/-- **Reading accepts the texts whose tokens conform, and reports the first thing that is wrong with
any other.** The document has a node for every token that makes one, in order and below the
innermost open start tag. -/
theorem read_judges (source : String) (path : Option String) :
    ((∃ doc, read source path = .ok doc) ↔
      Unbroken source.toList ∧ Conforms (tokensOf source.toList)) ∧
    match read source path with
    | .ok doc => ∃ places, doc.Arranged (tokensOf source.toList) places
    | .error diagnostic => ∃ flaw, Blames source.toList flaw ∧
        diagnostic = flaw.diagnostic source path ∧
        (diagnostic.reason = Fault.unclosedElement.reason →
          Faultless (tokensOf source.toList) ∧ Unbroken source.toList ∧
            (∃ tag outer, Opened (tokensOf source.toList) (tag :: outer)) ∧
            flaw.pos = (Cursor.ofText source.toList).endPos) := by
  have hjudges := assemble_judges source.toList
  unfold read
  cases hassemble : assemble source.toList with
  | ok doc =>
    rw [hassemble] at hjudges
    exact ⟨⟨fun _ => hjudges.1, fun _ => ⟨doc, rfl⟩⟩, hjudges.2⟩
  | error flaw =>
    rw [hassemble] at hjudges
    refine ⟨⟨?_, fun h => absurd h hjudges.not_conforms⟩, flaw, hjudges, rfl, fun hreason => ?_⟩
    · rintro ⟨doc, hdoc⟩
      cases hdoc
    · exact hjudges.of_unclosed (Fault.eq_unclosed_of_reason hreason)

/-- Of two things that are wrong here, the reference that stands for nothing is reported, for it
comes first. -/
theorem read_judges_drawing :
    ∃ flaw, Blames "<svg a='&lt;'>&no;</g>".toList flaw ∧
      flaw.fault.reason = "Invalid character entity" := by
  have hread : read "<svg a='&lt;'>&no;</g>" none =
      .error ⟨"Invalid character entity", 1, 15, "<svg a='&lt;'>&no;</g>", none⟩ := by
    decide +kernel
  have hjudges := (read_judges "<svg a='&lt;'>&no;</g>" none).2
  rw [hread] at hjudges
  obtain ⟨flaw, hblames, hdiagnostic, -⟩ := hjudges
  exact ⟨flaw, hblames, (congrArg Diagnostic.reason hdiagnostic).symm⟩

end Document

end SvgTidy
