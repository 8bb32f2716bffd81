import Mathlib.Data.List.Induction
import SvgTidy.Proofs.ReferenceResolution
import SvgTidy.Proofs.TagNesting
import SvgTidy.Proofs.TrimmedTexts

/-!
# Which runs of tokens make a document

`Conforms` says of a whole run that it writes a document: its tags nest, nothing but blanks stands
outside of elements, a doctype stands alone and before the elements, and references resolve.
`Violates` says of one token that it cannot follow the tokens before it, and for what cause. Both
are about tokens only; how a document is put together plays no part in them.

Principal results: `Faultless.exists_opened` — before a violation, tags are open in one way;
`conforms_iff` — a run conforms when no token of it violates anything and no element is left open.
-/

namespace SvgTidy.Markup

namespace Token

/-- The token begins an element. -/
def IsStartTag : Token → Prop
  | .startTag .. => True
  | _ => False

/-- What a doctype says. -/
def doctype? : Token → Option (List Char)
  | .doctype body => some body
  | _ => none

end Token

/-- The entities that a run of tokens declares, by its first doctype if it has one. -/
def declaredBy (tokens : List Token) : EntityTable :=
  match tokens.findSome? Token.doctype? with
  | some body => .ofDoctype body
  | none => []

/-- No attribute of the same name stands before this one. -/
def RawAttribute.First (a : RawAttribute) (written : List RawAttribute) : Prop :=
  ∃ before after, written = before ++ a :: after ∧ ∀ b ∈ before, b.name ≠ a.name

/-- The token cannot stand after the ones before it, and the cause of that. -/
inductive Violates (before : List Token) : Token → Fault → Prop where
  | textBeforeRoot {raw : List Char} (houtside : Nested before) (hraw : ¬ Text.Blank raw)
      (hroot : ∀ token ∈ before, ¬ token.IsStartTag) : Violates before (.text raw) .textBeforeRoot
  | textOutsideRoot {raw : List Char} {token : Token} (houtside : Nested before)
      (hraw : ¬ Text.Blank raw) (htoken : token ∈ before) (hroot : token.IsStartTag) :
      Violates before (.text raw) .textOutsideRoot
  | textReference {raw : List Char} {tag : OpenTag} {outer : List OpenTag}
      (hinside : Opened before (tag :: outer)) (hraw : ¬ Resolves (declaredBy before) raw) :
      Violates before (.text raw) .badReference
  | valueReference {name : List Char} {written : List RawAttribute} {selfClosing : Bool}
      {a : RawAttribute} (hfirst : a.First written)
      (hvalue : ¬ Resolves (declaredBy before) a.value) :
      Violates before (.startTag name written selfClosing) .badReference
  | unmatchedEndTag {name : List Char} {tags : List OpenTag} (hopened : Opened before tags)
      (hname : ∀ tag ∈ tags, tag.name ≠ name) :
      Violates before (.endTag name) (.unmatchedEndTag (String.ofList name))
  | misplacedEndTag {name : List Char} {tag other : OpenTag} {outer : List OpenTag}
      (hopened : Opened before (tag :: outer)) (hname : tag.name ≠ name) (hother : other ∈ outer)
      (hmatch : other.name = name) : Violates before (.endTag name) .misplacedEndTag
  | misplacedDoctype {body : List Char} {token : Token} (htoken : token ∈ before)
      (hlate : token.IsStartTag ∨ token.doctype?.isSome) :
      Violates before (.doctype body) .misplacedDoctype

theorem Violates.ne_unclosed {before : List Token} {token : Token} {fault : Fault}
    (h : Violates before token fault) : fault ≠ .unclosedElement := by
  cases h <;> nofun

/-- No token violates anything. -/
def Faultless (tokens : List Token) : Prop :=
  ∀ before token after, tokens = before ++ token :: after → ∀ fault, ¬ Violates before token fault

/-- A run of tokens that writes a document. -/
structure Conforms (tokens : List Token) : Prop where
  /-- Start tags and end tags come in pairs. -/
  nested : Nested tokens
  /-- Only blanks stand outside of elements. -/
  blank : ∀ before raw after, tokens = before ++ .text raw :: after → Nested before →
    Text.Blank raw
  /-- A doctype follows no other and no start tag. -/
  doctype : ∀ before body after, tokens = before ++ .doctype body :: after →
    ∀ token ∈ before, ¬ token.IsStartTag ∧ token.doctype? = none
  /-- References in the text of elements resolve. -/
  text : ∀ before raw after, tokens = before ++ .text raw :: after → ¬ Nested before →
    Resolves (declaredBy tokens) raw
  /-- References in attribute values resolve, where an attribute is the first of its name. -/
  value : ∀ name written selfClosing, .startTag name written selfClosing ∈ tokens →
    ∀ a : RawAttribute, a.First written → Resolves (declaredBy tokens) a.value

variable {before after tokens : List Token} {token : Token}

/-! ## Declared entities -/

theorem declaredBy_append (h : ∀ token ∈ after, token.doctype? = none) :
    declaredBy (before ++ after) = declaredBy before := by
  have hnone : after.findSome? Token.doctype? = none := List.findSome?_eq_none_iff.mpr h
  unfold declaredBy
  rw [List.findSome?_append, hnone, Option.or_none]

/-- Where a doctype precedes every start tag, the entities are settled once an element has begun. -/
theorem declaredBy_settled
    (h : ∀ before body after, tokens = before ++ .doctype body :: after →
      ∀ token ∈ before, ¬ token.IsStartTag ∧ token.doctype? = none)
    (htokens : tokens = before ++ after) (htoken : token ∈ before) (hroot : token.IsStartTag) :
    declaredBy tokens = declaredBy before := by
  rw [htokens]
  apply declaredBy_append
  intro late hlate
  cases late with
  | doctype body =>
    obtain ⟨between, rest, rfl⟩ := List.append_of_mem hlate
    have hsplit : tokens = (before ++ between) ++ .doctype body :: rest := by
      rw [htokens, List.append_assoc]
    exact absurd hroot (h _ body rest hsplit token (List.mem_append_left _ htoken)).1
  | _ => rfl

theorem isStartTag_of_opened {tag : OpenTag} {outer : List OpenTag}
    (h : Opened before (tag :: outer)) : ∃ token ∈ before, token.IsStartTag := by
  obtain ⟨attributes, hget⟩ := h.getElem? List.mem_cons_self
  exact ⟨_, List.mem_of_getElem? hget, trivial⟩

theorem declaredBy_inside
    (h : ∀ before body after, tokens = before ++ .doctype body :: after →
      ∀ token ∈ before, ¬ token.IsStartTag ∧ token.doctype? = none)
    (htokens : tokens = before ++ after) {tag : OpenTag} {outer : List OpenTag}
    (hinside : Opened before (tag :: outer)) : declaredBy tokens = declaredBy before := by
  obtain ⟨root, hmem, hroot⟩ := isStartTag_of_opened hinside
  exact declaredBy_settled h htokens hmem hroot

theorem declaredBy_startTag
    (h : ∀ before body after, tokens = before ++ .doctype body :: after →
      ∀ token ∈ before, ¬ token.IsStartTag ∧ token.doctype? = none)
    {name : List Char} {written : List RawAttribute} {selfClosing : Bool}
    (htokens : tokens = before ++ .startTag name written selfClosing :: after) :
    declaredBy tokens = declaredBy before := by
  have hsplit : tokens = (before ++ [.startTag name written selfClosing]) ++ after := by
    rw [htokens, List.append_assoc, List.singleton_append]
  have hself : Token.startTag name written selfClosing ∈
      before ++ [.startTag name written selfClosing] :=
    List.mem_append_right _ (List.mem_singleton_self _)
  rw [declaredBy_settled h hsplit hself trivial, declaredBy_append (by simp [Token.doctype?])]

/-! ## Runs without a violation -/

namespace Faultless

theorem nil : Faultless [] := by
  intro before token after h
  simp at h

theorem of_append (h : Faultless (before ++ after)) : Faultless before := by
  intro earlier token between hbefore
  exact h earlier token (between ++ after) (by rw [hbefore, List.append_assoc, List.cons_append])

theorem last (h : Faultless (before ++ [token])) (fault : Fault) : ¬ Violates before token fault :=
  h before token [] rfl fault

theorem snoc (h : Faultless before) (hlast : ∀ fault, ¬ Violates before token fault) :
    Faultless (before ++ [token]) := by
  intro earlier other rest hsplit
  cases rest using List.reverseRecOn with
  | nil =>
    obtain ⟨rfl, heq⟩ := List.append_inj' hsplit rfl
    cases heq
    exact hlast
  | append_singleton rest end' =>
    rw [← List.cons_append, ← List.append_assoc] at hsplit
    obtain ⟨hbefore, -⟩ := List.append_inj' hsplit rfl
    exact h earlier other rest hbefore

/-- **Before a violation there is a way in which tags are open.** -/
theorem exists_opened (h : Faultless tokens) : ∃ tags, Opened tokens tags := by
  induction tokens using List.reverseRecOn with
  | nil => exact ⟨[], .nested .nil⟩
  | append_singleton before token ih =>
    obtain ⟨tags, htags⟩ := ih h.of_append
    cases hopens : token.opens? with
    | some name =>
      cases token with
      | startTag name attributes selfClosing =>
        cases selfClosing with
        | false => exact ⟨_, htags.enter name attributes⟩
        | true => simp [Token.opens?] at hopens
      | _ => simp [Token.opens?] at hopens
    | none =>
      cases hcloses : token.closes? with
      | none => exact ⟨tags, htags.flat hopens hcloses⟩
      | some name =>
        cases token with
        | endTag name =>
          have hlast := h.last
          by_cases hany : ∃ tag ∈ tags, tag.name = name
          · cases tags with
            | nil => simp at hany
            | cons tag outer =>
              by_cases hname : tag.name = name
              · subst hname
                exact ⟨outer, htags.leave⟩
              · obtain ⟨other, hother, hmatch⟩ := hany
                rcases List.mem_cons.mp hother with rfl | hother
                · exact absurd hmatch hname
                · exact absurd (.misplacedEndTag htags hname hother hmatch) (hlast _)
          · have hname : ∀ tag ∈ tags, tag.name ≠ name := fun tag ht heq => hany ⟨tag, ht, heq⟩
            exact absurd (.unmatchedEndTag htags hname) (hlast _)
        | _ => simp [Token.closes?] at hcloses

end Faultless

/-! ## The two sides agree -/

theorem Conforms.faultless (h : Conforms tokens) : Faultless tokens := by
  intro before token after htokens fault hviolates
  cases hviolates with
  | textBeforeRoot houtside hraw _ => exact hraw (h.blank before _ after htokens houtside)
  | textOutsideRoot houtside hraw _ _ => exact hraw (h.blank before _ after htokens houtside)
  | textReference hinside hraw =>
    have hdepth : ¬ Nested before := fun hnested => by
      cases hinside.eq_nil_of_nested hnested
    have hresolves := h.text before _ after htokens hdepth
    rw [declaredBy_inside h.doctype htokens hinside] at hresolves
    exact hraw hresolves
  | @valueReference name written selfClosing a hfirst hvalue =>
    have hmem : .startTag name written selfClosing ∈ tokens := by
      rw [htokens]
      simp
    have hresolves := h.value name written selfClosing hmem a hfirst
    rw [declaredBy_startTag h.doctype htokens] at hresolves
    exact hvalue hresolves
  | unmatchedEndTag hopened hname =>
    have hnested := h.nested
    rw [htokens] at hnested
    obtain ⟨tag, outer, rfl, heq⟩ := hopened.innermost hnested
    exact hname tag List.mem_cons_self heq
  | misplacedEndTag hopened hname _ _ =>
    have hnested := h.nested
    rw [htokens] at hnested
    obtain ⟨tag, outer, heq, hmatch⟩ := hopened.innermost hnested
    cases heq
    exact hname hmatch
  | misplacedDoctype hmem hlate =>
    obtain ⟨hroot, hnone⟩ := h.doctype before _ after htokens _ hmem
    rcases hlate with hlate | hlate
    · exact hroot hlate
    · simp [hnone] at hlate

theorem Faultless.conforms (h : Faultless tokens) (hnested : Nested tokens) : Conforms tokens := by
  have hdoctype : ∀ before body after, tokens = before ++ .doctype body :: after →
      ∀ token ∈ before, ¬ token.IsStartTag ∧ token.doctype? = none := by
    intro before body after htokens token htoken
    have hok := h before _ after htokens .misplacedDoctype
    refine ⟨fun hroot => hok (.misplacedDoctype htoken (.inl hroot)), ?_⟩
    cases hbody : token.doctype? with
    | none => rfl
    | some body => exact absurd (.misplacedDoctype htoken (.inr (by simp [hbody]))) hok
  refine ⟨hnested, ?_, hdoctype, ?_, ?_⟩
  · intro before raw after htokens houtside
    have hok := h before _ after htokens
    by_contra hraw
    by_cases hroot : ∃ token ∈ before, token.IsStartTag
    · obtain ⟨token, htoken, hroot⟩ := hroot
      exact hok _ (.textOutsideRoot houtside hraw htoken hroot)
    · exact hok _ (.textBeforeRoot houtside hraw fun token htoken hroot' =>
        hroot ⟨token, htoken, hroot'⟩)
  · intro before raw after htokens hdepth
    have hok := h before _ after htokens .badReference
    have hbefore : Faultless before := Faultless.of_append (htokens ▸ h)
    obtain ⟨tags, htags⟩ := hbefore.exists_opened
    cases tags with
    | nil => exact absurd (Opened.nested_iff.mpr htags) hdepth
    | cons tag outer =>
      rw [declaredBy_inside hdoctype htokens htags]
      by_contra hraw
      exact hok (.textReference htags hraw)
  · intro name written selfClosing hmem a hfirst
    obtain ⟨before, after, htokens⟩ := List.append_of_mem hmem
    have hok := h before _ after htokens .badReference
    rw [declaredBy_startTag hdoctype htokens]
    by_contra hvalue
    exact hok (.valueReference hfirst hvalue)

/-- **A run conforms when no token violates anything and no element is left open.** -/
theorem conforms_iff : Conforms tokens ↔ Faultless tokens ∧ Nested tokens :=
  ⟨fun h => ⟨h.faultless, h.nested⟩, fun h => h.1.conforms h.2⟩

end SvgTidy.Markup
