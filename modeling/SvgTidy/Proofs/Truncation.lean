import SvgTidy.Proofs.AcceptedTexts
import SvgTidy.Proofs.PartialTokens

/-!
# Truncated texts

Of a text that is read, any part from its beginning is read as well, or an element is still open at
its end, with two exceptions: the part may break off inside an opening mark such as `<!--`, and in
the text of an element it may break off inside a reference. What is there is then taken for an
unknown declaration, or for a reference that stands for nothing.

Principal results: `resume_pass` — tokens that end before the part does are taken in as in the whole;
`read_part` — what becomes of a part.
-/

namespace SvgTidy

namespace Markup

/-- The tokens between two cursors. -/
inductive Passes : Cursor → List Token → Cursor → Prop where
  | nil (c : Cursor) : Passes c [] c
  | cons {c d e : Cursor} {token : Token} {tokens : List Token} (hc : c.rest ≠ [])
      (hread : c.readToken = .ok (token, d)) (hmore : Passes d tokens e) :
      Passes c (token :: tokens) e

/-- The text breaks off inside a reference. -/
def CutsReference (text : List Char) : Prop :=
  ∃ before name, text = before ++ '&' :: name ∧ ∀ c ∈ name, endsName c = false

/-- Behind some tokens the text breaks off inside an opening mark. -/
def BreaksOpener (c : Cursor) : Prop :=
  ∃ front d cut, Passes c front d ∧ d.rest = '<' :: cut ∧ CutsOpener cut

/-- Behind some tokens the text breaks off in the text of an element, inside a reference. -/
def BreaksReference (before : List Token) (c : Cursor) : Prop :=
  ∃ front d, Passes c front d ∧ ¬ Nested (before ++ front) ∧ '<' ∉ d.rest ∧ CutsReference d.rest

theorem Passes.rest_ne_nil {c d : Cursor} {tokens : List Token} (h : Passes c tokens d)
    (hd : d.rest ≠ []) : c.rest ≠ [] := by
  cases h with
  | nil => exact hd
  | cons hc => exact hc

/-- Openings of sections are told apart by their second character, and by it their length is known. -/
theorem IsOpener.cases {mark : List Char} (h : IsOpener mark) :
    mark = "!--".toList ∨
      mark.length = 8 ∧ ∃ second others, mark = '!' :: second :: others ∧ second ≠ '-' := by
  rcases h with rfl | rfl | h
  · exact .inl rfl
  · exact .inr ⟨rfl, '[', "CDATA[".toList, rfl, by decide⟩
  · right
    have hlength : mark.length = 8 := by simpa using congrArg List.length h
    refine ⟨hlength, ?_⟩
    obtain ⟨first, tail, rfl⟩ := List.exists_cons_of_ne_nil (l := mark) (by rintro rfl; cases hlength)
    obtain ⟨second, others, rfl⟩ :=
      List.exists_cons_of_ne_nil (l := tail) (by rintro rfl; cases hlength)
    have hfirst : first.toUpper = '!' := (List.cons.inj h).1
    have hsecond : second.toUpper = 'D' := (List.cons.inj (List.cons.inj h).2).1
    refine ⟨second, others, by rw [toUpper_eq_bang hfirst], ?_⟩
    rintro rfl
    revert hsecond
    decide

/-- A part of an opening mark is not taken for another one. -/
theorem readMarkup_of_cut {c : Cursor} (h : CutsOpener c.rest) :
    c.readMarkup = c.refuse .unknownDeclaration := by
  obtain ⟨hne, missing, hmissing, hopener⟩ := h
  obtain ⟨first, tail, hc⟩ := List.exists_cons_of_ne_nil hne
  have hfirst : first = '!' := by
    rw [hc, List.cons_append] at hopener
    rcases hopener.cases with heq | ⟨-, second, others, heq, -⟩
    · exact (List.cons.inj heq).1
    · exact (List.cons.inj heq).1
  subst hfirst
  refine Cursor.readMarkup_unknown hc fun mark hmark hprefix => ?_
  obtain ⟨behind, hbehind⟩ := hprefix
  have hshorter : mark.length < (c.rest ++ missing).length := by
    have := List.length_pos_iff.mpr hmissing
    rw [← hbehind, List.length_append, List.length_append]
    omega
  rw [← hbehind, List.append_assoc] at hopener hshorter
  -- only the short mark is shorter than another, and it differs from the others
  rcases hmark.cases with rfl | ⟨hlong, -⟩
  · rcases hopener.cases with heq | ⟨-, second, others, heq, hsecond⟩
    · rw [heq] at hshorter
      exact absurd hshorter (Nat.lt_irrefl _)
    · exact hsecond (List.cons.inj (List.cons.inj heq).2).1.symm
  · rcases hopener.cases with heq | ⟨hlength, -⟩
    · rw [heq, hlong] at hshorter
      exact absurd hshorter (by decide)
    · rw [hlength, hlong] at hshorter
      exact absurd hshorter (by decide)

theorem CutsReference.not_resolves {table : EntityTable} {text : List Char} (h : CutsReference text) :
    ¬ Resolves table text := by
  obtain ⟨before, name, rfl, hname⟩ := h
  intro hresolves
  obtain ⟨other, rest, rfl, -⟩ := hresolves before name rfl
  have hsemicolon := hname ';' (by simp)
  cases hsemicolon

/-- A reference that resolves with what follows the text is the one that the text cuts. -/
theorem cutsReference_of_append {table : EntityTable} {text extra : List Char}
    (hfails : ¬ Resolves table text) (h : Resolves table (text ++ extra)) : CutsReference text := by
  by_contra hno
  refine hfails fun before after htext => ?_
  obtain ⟨name, rest, hname, hchars, hsome⟩ :=
    h before (after ++ extra) (by rw [htext, List.append_assoc, List.cons_append])
  rcases List.append_eq_append_iff.mp hname with ⟨between, rfl, -⟩ | ⟨between, hafter, hbetween⟩
  · exact absurd ⟨before, after, htext, fun c hc => hchars c (List.mem_append_left _ hc)⟩ hno
  · cases between with
    | nil =>
      rw [List.append_nil] at hafter
      exact absurd ⟨before, after, htext, hafter ▸ hchars⟩ hno
    | cons first between =>
      rw [List.cons_append, List.cons.injEq] at hbetween
      exact ⟨name, between, by rw [hafter, hbetween.1], hchars, hsome⟩

section Part

variable {s : Assembly} {c w : Cursor} {more : List Char} {doc : Document}

/-- The next token of a part of a text that is read. -/
theorem resume_part_cases (hc : c.rest ≠ []) (hrest : w.rest = c.rest ++ more)
    (h : resume s w = .ok doc) :
    (∃ token d next w', c.readToken = .ok (token, d) ∧
        s.step ⟨token, c.pos, d.last⟩ = .ok next ∧ w'.rest = d.rest ++ more ∧
        resume next w' = .ok doc) ∨
      (∃ pos, c.readToken = .error (.endOfText pos)) ∨
      (∃ cut pos, c.rest = '<' :: cut ∧ CutsOpener cut ∧
        c.readToken = .error (.faulty .unknownDeclaration pos)) ∨
      ∃ d extra start stop next, '<' ∉ c.rest ∧ d.rest = [] ∧ c.readToken = .ok (.text c.rest, d) ∧
        s.step ⟨.text (c.rest ++ extra), start, stop⟩ = .ok next := by
  have hw : w.rest ≠ [] := by simp [hrest, hc]
  have hstep {token : Token} {w' : Cursor} (hread : w.readToken = .ok (token, w')) :
      ∃ next, s.step ⟨token, w.pos, w'.last⟩ = .ok next ∧ resume next w' = .ok doc := by
    rw [resume_token hw hread] at h
    split at h
    · cases h
    · rename_i next hnext
      exact ⟨next, hnext, h⟩
  rcases Cursor.readToken_part hrest hc with
    hpart | ⟨-, ⟨cut, pos, hcut⟩ | ⟨d, extra, w', hno, hd, hread, hwhole⟩⟩
  · generalize hread : c.readToken = part, hwhole : w.readToken = whole at hpart
    cases hpart with
    | same halike hrest =>
      obtain ⟨next, hnext, hmore⟩ := hstep hwhole
      exact .inl ⟨_, _, next, _, rfl, Assembly.step_alike halike hnext _ _, hrest, hmore⟩
    | short => exact .inr (.inl ⟨_, rfl⟩)
    | ended => exact .inr (.inl ⟨_, rfl⟩)
    | faulty =>
      rw [resume_fault hw hwhole] at h
      cases h
  · exact .inr (.inr (.inl ⟨cut, pos, hcut⟩))
  · obtain ⟨next, hnext, -⟩ := hstep hwhole
    exact .inr (.inr (.inr ⟨d, extra, _, _, next, hno, hd, hread, hnext⟩))

/-- A token that ends before the part does is taken in as in the whole. -/
theorem resume_pass {d : Cursor} {token : Token} (hrest : w.rest = c.rest ++ more)
    (h : resume s w = .ok doc) (hc : c.rest ≠ []) (hread : c.readToken = .ok (token, d))
    (hd : d.rest ≠ []) :
    ∃ next w', s.step ⟨token, c.pos, d.last⟩ = .ok next ∧ w'.rest = d.rest ++ more ∧
      resume next w' = .ok doc := by
  rcases resume_part_cases hc hrest h with ⟨token', d', next, w', hread', hnext, hrest', hmore⟩ |
    ⟨pos, hread'⟩ | ⟨cut, pos, -, -, hread'⟩ | ⟨d', extra, start, stop, next, -, hd', hread', -⟩
  · cases hread.symm.trans hread'
    exact ⟨next, w', hnext, hrest', hmore⟩
  · cases hread.symm.trans hread'
  · cases hread.symm.trans hread'
  · cases hread.symm.trans hread'
    exact absurd hd' hd

/-- What stands behind the last token that ends before the part does is read after it. -/
theorem resume_passes {before front : List Token} {d : Cursor} (hpasses : Passes c front d)
    (hd : d.rest ≠ []) (hrest : w.rest = c.rest ++ more) (h : resume s w = .ok doc)
    (htracks : Tracks before s) :
    ∃ last w', resume s c = resume last d ∧ Tracks (before ++ front) last ∧
      w'.rest = d.rest ++ more ∧ resume last w' = .ok doc := by
  induction hpasses generalizing s w before with
  | nil => exact ⟨s, w, rfl, by rwa [List.append_nil], hrest, h⟩
  | @cons c d e token tokens hc hread hmore ih =>
    obtain ⟨next, w', hnext, hrest', hresume⟩ :=
      resume_pass hrest h hc hread (hmore.rest_ne_nil hd)
    obtain ⟨last, w'', heq, hlast, hrest'', hresume'⟩ :=
      ih hd hrest' hresume (htracks.step_ok hnext).1
    refine ⟨last, w'', ?_, by simpa using hlast, hrest'', hresume'⟩
    rw [resume_token hc hread, hnext]
    exact heq

theorem resume_of_breaksOpener (hrest : w.rest = c.rest ++ more) (h : resume s w = .ok doc)
    {before : List Token} (htracks : Tracks before s) (hbreaks : BreaksOpener c) :
    ∃ pos, resume s c = .error ⟨.unknownDeclaration, pos⟩ := by
  obtain ⟨front, d, cut, hpasses, hd, hcut⟩ := hbreaks
  have hne : d.rest ≠ [] := by simp [hd]
  obtain ⟨last, -, heq, -⟩ := resume_passes hpasses hne hrest h htracks
  obtain ⟨hmarkup, hinside⟩ := readToken_bracket cut hd
  rw [readMarkup_of_cut (hinside ▸ hcut)] at hmarkup
  exact ⟨_, heq.trans (resume_fault hne hmarkup)⟩

theorem resume_of_breaksReference (hrest : w.rest = c.rest ++ more) (h : resume s w = .ok doc)
    {before : List Token} (htracks : Tracks before s) (hbreaks : BreaksReference before c) :
    ∃ pos, resume s c = .error ⟨.badReference, pos⟩ := by
  obtain ⟨front, d, hpasses, hinside, hno, hcut⟩ := hbreaks
  have hne : d.rest ≠ [] := by
    obtain ⟨plain, name, hd, -⟩ := hcut
    simp [hd]
  obtain ⟨last, -, heq, hlast, -⟩ := resume_passes hpasses hne hrest h htracks
  have hreads : Reads (d.rest ++ []) (· = .text d.rest) [] := reads_text hne hno nofun
  obtain ⟨t, d', hread, rfl, -⟩ := hreads d (List.append_nil _).symm
  obtain ⟨tags, htags, -⟩ := hlast.opened
  cases tags with
  | nil => exact absurd (Opened.nested_iff.mpr htags) hinside
  | cons tag outer =>
    have hviolates : Violates (before ++ front) (.text d.rest) .badReference :=
      .textReference htags hcut.not_resolves
    rw [heq, resume_token hne hread]
    cases hstep : last.step ⟨.text d.rest, d.pos, d'.last⟩ with
    | ok next => exact absurd hviolates ((hlast.step_ok hstep).2 _)
    | error flaw =>
      obtain ⟨hother, -⟩ := hlast.text_error hstep
      obtain ⟨fault, pos⟩ := flaw
      cases hother with
      | textReference => exact ⟨pos, rfl⟩
      | textBeforeRoot houtside => exact absurd houtside hinside
      | textOutsideRoot houtside => exact absurd houtside hinside

/-- With nothing left to read a text is a drawing, or an element is open. -/
theorem resume_ends {next : Assembly} {pos : Position}
    (h : resume s c = if next.opened = [] then .ok next.doc else .error ⟨.unclosedElement, pos⟩) :
    (∃ doc', resume s c = .ok doc') ∨ resume s c = .error ⟨.unclosedElement, pos⟩ := by
  rw [h]
  split
  · exact .inl ⟨_, rfl⟩
  · exact .inr rfl

/-- The beginning of a text that is taken in is refused only for a reference that it cuts. -/
theorem cutsReference_of_step {before : List Token} {text extra : List Char}
    {start stop first last : Position} {next : Assembly} {flaw : Flaw} (htracks : Tracks before s)
    (hwhole : s.step ⟨.text (text ++ extra), start, stop⟩ = .ok next)
    (hpart : s.step ⟨.text text, first, last⟩ = .error flaw) :
    ¬ Nested before ∧ CutsReference text := by
  have hfine := (htracks.step_ok hwhole).2
  have hblank (h : ¬ Text.Blank text) : ¬ Text.Blank (text ++ extra) := fun hall =>
    h fun x hx => hall x (List.mem_append_left _ hx)
  obtain ⟨hviolates, -⟩ := htracks.text_error hpart
  obtain ⟨fault, pos⟩ := flaw
  cases hviolates with
  | textBeforeRoot houtside hraw hroot =>
    exact absurd (.textBeforeRoot houtside (hblank hraw) hroot) (hfine _)
  | textOutsideRoot houtside hraw htoken hroot =>
    exact absurd (.textOutsideRoot houtside (hblank hraw) htoken hroot) (hfine _)
  | textReference hinside hraw =>
    have hresolves : Resolves (declaredBy before) (text ++ extra) := by
      by_contra hfails
      exact hfine _ (.textReference hinside hfails)
    have hdeep : ¬ Nested before := by
      intro hnested
      cases hinside.eq_nil_of_nested hnested
    exact ⟨hdeep, cutsReference_of_append hraw hresolves⟩

/-- **A part of a text that is read is read, or leaves an element open, or breaks off where it must
not.** -/
theorem resume_part {before : List Token} (htracks : Tracks before s)
    (hrest : w.rest = c.rest ++ more) (h : resume s w = .ok doc) :
    ((∃ doc', resume s c = .ok doc') ∨ resume s c = .error ⟨.unclosedElement, c.endPos⟩) ∨
      BreaksOpener c ∨ BreaksReference before c := by
  generalize hlength : c.rest.length = length
  induction length using Nat.strongRecOn generalizing s c w before with
  | ind length ih =>
    by_cases hc : c.rest = []
    · exact .inl (resume_ends (resume_nil hc))
    rcases resume_part_cases hc hrest h with ⟨token, d, next, w', hread, hnext, hrest', hmore⟩ |
      ⟨pos, hread⟩ | ⟨cut, pos, hcut, hopener, -⟩ |
      ⟨d, extra, start, stop, next, hno, hd, hread, hstep⟩
    · have hshorter := hlength ▸ Cursor.length_readToken_lt hc hread
      have hsame : resume s c = resume next d := by rw [resume_token hc hread, hnext]
      have hendPos : d.endPos = c.endPos := (Cursor.readToken_reaches hread).endPos_eq
      rw [hsame, ← hendPos]
      rcases ih _ hshorter (htracks.step_ok hnext).1 hrest' hmore rfl with hends |
        ⟨front, e, cut, hpasses, hcut⟩ | ⟨front, e, hpasses, hinside, hcut⟩
      · exact .inl hends
      · exact .inr (.inl ⟨token :: front, e, cut, .cons hc hread hpasses, hcut⟩)
      · rw [List.append_assoc, List.singleton_append] at hinside
        exact .inr (.inr ⟨token :: front, e, .cons hc hread hpasses, hinside, hcut⟩)
    · exact .inl (resume_ends (resume_truncated hc hread))
    · exact .inr (.inl ⟨[], c, cut, .nil c, hcut, hopener⟩)
    · cases hshort : s.step ⟨.text c.rest, c.pos, d.last⟩ with
      | ok next' =>
        have hendPos : d.endPos = c.endPos := (Cursor.readToken_reaches hread).endPos_eq
        have hresume : resume s c =
            if next'.opened = [] then .ok next'.doc else .error ⟨.unclosedElement, c.endPos⟩ := by
          rw [resume_token hc hread, hshort, ← hendPos]
          exact resume_nil hd
        exact .inl (resume_ends hresume)
      | error flaw =>
        obtain ⟨hdeep, hcuts⟩ := cutsReference_of_step htracks hstep hshort
        rw [← before.append_nil] at hdeep
        exact .inr (.inr ⟨[], c, .nil c, hdeep, hno, hcuts⟩)

end Part

theorem ofText_part {part whole : List Char} (h : part <+: whole) :
    ∃ more, (Cursor.ofText whole).rest = (Cursor.ofText part).rest ++ more := by
  obtain ⟨more, rfl⟩ := h
  cases part with
  | nil => exact ⟨_, rfl⟩
  | cons first tail =>
    refine ⟨more, ?_⟩
    unfold Cursor.ofText
    by_cases hmark : first = '\uFEFF'
    · subst hmark
      rfl
    · simp [hmark]

end Markup

open Markup

namespace Document

/-- A text is read, or an element is open at its end. -/
def Tolerates (source : String) (path : Option String) : Prop :=
  (∃ doc, read source path = .ok doc) ∨
    read source path = .error
      { reason := "Unclosed root tag"
        line := (Cursor.ofText source.toList).endPos.line
        column := (Cursor.ofText source.toList).endPos.column
        source
        path }

theorem read_of_flaw {source : String} {flaw : Flaw} (h : assemble source.toList = .error flaw)
    (path : Option String) : read source path = .error (flaw.diagnostic source path) := by
  simp [read, h, Flaw.diagnostic]

/-- A text that is refused for something else is not tolerated. -/
theorem Tolerates.reason_eq {source : String} {path : Option String} {diagnostic : Diagnostic}
    (h : Tolerates source path) (hread : read source path = .error diagnostic) :
    diagnostic.reason = "Unclosed root tag" := by
  rcases h with ⟨doc, hdoc⟩ | hunclosed
  · cases hdoc.symm.trans hread
  · cases hunclosed.symm.trans hread
    rfl

/-- **Of a text that is read, a part from its beginning is read or leaves an element open, unless it
breaks off inside an opening mark or, in the text of an element, inside a reference.** Where it does,
it is refused for what it breaks off in. -/
theorem read_part {source part : String} {path : Option String} {doc : Document}
    (h : read source path = .ok doc) (hpart : part.toList <+: source.toList)
    (partPath : Option String) :
    (Tolerates part partPath ↔
      ¬ BreaksOpener (.ofText part.toList) ∧ ¬ BreaksReference [] (.ofText part.toList)) ∧
    (BreaksOpener (.ofText part.toList) →
      ∃ diagnostic, read part partPath = .error diagnostic ∧
        diagnostic.reason = "Invalid markup declaration") ∧
    (BreaksReference [] (.ofText part.toList) →
      ∃ diagnostic, read part partPath = .error diagnostic ∧
        diagnostic.reason = "Invalid character entity") := by
  obtain ⟨more, hrest⟩ := ofText_part hpart
  have hwhole : resume .start (.ofText source.toList) = .ok doc := assemble_of_read h
  have hopener : BreaksOpener (.ofText part.toList) →
      ∃ diagnostic, read part partPath = .error diagnostic ∧
        diagnostic.reason = "Invalid markup declaration" := by
    intro hbreaks
    obtain ⟨pos, hpos⟩ := resume_of_breaksOpener hrest hwhole .start hbreaks
    exact ⟨_, read_of_flaw hpos partPath, rfl⟩
  have hreference : BreaksReference [] (.ofText part.toList) →
      ∃ diagnostic, read part partPath = .error diagnostic ∧
        diagnostic.reason = "Invalid character entity" := by
    intro hbreaks
    obtain ⟨pos, hpos⟩ := resume_of_breaksReference hrest hwhole .start hbreaks
    exact ⟨_, read_of_flaw hpos partPath, rfl⟩
  refine ⟨⟨fun htolerates => ⟨fun hbreaks => ?_, fun hbreaks => ?_⟩, fun ⟨hno, hno'⟩ => ?_⟩,
    hopener, hreference⟩
  · obtain ⟨diagnostic, hread, hreason⟩ := hopener hbreaks
    exact absurd (hreason.symm.trans (htolerates.reason_eq hread)) (by decide)
  · obtain ⟨diagnostic, hread, hreason⟩ := hreference hbreaks
    exact absurd (hreason.symm.trans (htolerates.reason_eq hread)) (by decide)
  · rcases resume_part .start hrest hwhole with (⟨doc', hdoc'⟩ | hunclosed) | hbreaks | hbreaks
    · exact .inl ⟨doc', read_of_assemble hdoc' partPath⟩
    · exact .inr (read_of_flaw hunclosed partPath)
    · exact absurd hbreaks hno
    · exact absurd hbreaks hno'

/-- The text of a drawing with a comment, cut inside the opening mark of the comment. -/
theorem read_part_comment :
    "<svg/><!-".toList <+: "<svg/><!-- -->".toList ∧
      (∃ doc, read "<svg/><!-- -->" none = .ok doc) ∧
      ∃ diagnostic, read "<svg/><!-" none = .error diagnostic ∧
        diagnostic.reason = "Invalid markup declaration" := by
  have hread : ∃ doc, read "<svg/><!-- -->" none = .ok doc := by
    have hsome : (read "<svg/><!-- -->" none).toOption.isSome = true := by decide +kernel
    cases hresult : read "<svg/><!-- -->" none with
    | ok doc => exact ⟨doc, rfl⟩
    | error diagnostic =>
      rw [hresult] at hsome
      cases hsome
  have hpart : "<svg/><!-".toList <+: "<svg/><!-- -->".toList := by decide
  have hbreaks : BreaksOpener (.ofText "<svg/><!-".toList) :=
    ⟨[.startTag "svg".toList [] true], ⟨"<!-".toList, ⟨1, 7⟩, ⟨1, 6⟩⟩, "!-".toList,
      .cons (by decide) (by decide +kernel) (.nil _), rfl, by decide, "-".toList, by decide, .inl rfl⟩
  obtain ⟨doc, hdoc⟩ := hread
  exact ⟨hpart, ⟨doc, hdoc⟩, (read_part hdoc hpart none).2.1 hbreaks⟩

end Document

end SvgTidy
