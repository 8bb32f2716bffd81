import SvgTidy.Markup.Token

/-!
# Tags that nest

Two descriptions of the same thing, neither of which mentions a stack. `Nested` is the grammar: a
run of tokens in which every start tag that does not close itself has its end tag, of the same name
and after the tokens between. `Opened` splits any run before which nothing went wrong into nested
stretches, and keeps the start tags between them: the ones that are open at its end.

Principal results: `Opened.unique` — the open tags depend on the tokens alone; `Opened.innermost` —
an end tag that nests closes the innermost of them.
-/

namespace SvgTidy.Markup

namespace Token

/-- The name of the element that a token leaves open. -/
def opens? : Token → Option (List Char)
  | .startTag name _ false => some name
  | _ => none

/-- The name of the element that a token closes. -/
def closes? : Token → Option (List Char)
  | .endTag name => some name
  | _ => none

end Token

/-- Start tags and end tags in pairs, one inside the other or one after the other. -/
inductive Nested : List Token → Prop where
  | nil : Nested []
  | flat {token : Token} {rest : List Token} (hopens : token.opens? = none)
      (hcloses : token.closes? = none) : Nested rest → Nested (token :: rest)
  | element (name : List Char) (attributes : List RawAttribute) {inner rest : List Token} :
      Nested inner → Nested rest →
        Nested (.startTag name attributes false :: (inner ++ .endTag name :: rest))

/-- A start tag whose end tag is still to come: its place among the tokens and its name. -/
structure OpenTag where
  index : Nat
  name : List Char
  deriving DecidableEq, Repr

/-- The start tags of a run that are open at its end, innermost first. -/
inductive Opened : List Token → List OpenTag → Prop where
  | nested {before : List Token} : Nested before → Opened before []
  | under {before inner : List Token} {tags : List OpenTag} (name : List Char)
      (attributes : List RawAttribute) : Opened before tags → Nested inner →
        Opened (before ++ .startTag name attributes false :: inner) (⟨before.length, name⟩ :: tags)

variable {before after inner : List Token} {tags : List OpenTag}

namespace Nested

theorem append (hbefore : Nested before) (hafter : Nested after) : Nested (before ++ after) := by
  induction hbefore with
  | nil => exact hafter
  | flat hopens hcloses _ ih => exact flat hopens hcloses ih
  | @element name attributes inner rest hinner _ _ ih =>
    have h : Nested (.startTag name attributes false :: (inner ++ .endTag name :: (rest ++ after))) :=
      element name attributes hinner ih
    simpa using h

theorem single {token : Token} (hopens : token.opens? = none) (hcloses : token.closes? = none) :
    Nested [token] :=
  flat hopens hcloses nil

end Nested

/-! ## Extending a run -/

namespace Opened

theorem append (h : Opened before tags) (hafter : Nested after) : Opened (before ++ after) tags := by
  cases h with
  | nested hbefore => exact nested (hbefore.append hafter)
  | @under before inner tags name attributes houter hinner =>
    have h := under name attributes houter (hinner.append hafter)
    simpa using h

theorem flat (h : Opened before tags) {token : Token} (hopens : token.opens? = none)
    (hcloses : token.closes? = none) : Opened (before ++ [token]) tags :=
  h.append (.single hopens hcloses)

theorem enter (h : Opened before tags) (name : List Char) (attributes : List RawAttribute) :
    Opened (before ++ [.startTag name attributes false]) (⟨before.length, name⟩ :: tags) :=
  under name attributes h .nil

theorem leave {tag : OpenTag} (h : Opened before (tag :: tags)) :
    Opened (before ++ [.endTag tag.name]) tags := by
  cases h with
  | @under before inner tags name attributes houter hinner =>
    have helement : Nested (.startTag name attributes false :: (inner ++ [.endTag name])) :=
      .element name attributes hinner .nil
    have h := houter.append helement
    simpa using h

theorem nested_iff : Nested before ↔ Opened before [] :=
  ⟨nested, fun h => by cases h; assumption⟩

/-- An open tag is the one at its place. -/
theorem getElem? (h : Opened before tags) {tag : OpenTag} (htag : tag ∈ tags) :
    ∃ attributes, before[tag.index]? = some (.startTag tag.name attributes false) := by
  induction h with
  | nested => simp at htag
  | @under before inner tags name attributes houter hinner ih =>
    rw [List.mem_cons] at htag
    rcases htag with rfl | htag
    · exact ⟨attributes, by simp⟩
    · obtain ⟨written, hwritten⟩ := ih htag
      have hlt : tag.index < before.length := by
        obtain ⟨hlt, -⟩ := List.getElem?_eq_some_iff.mp hwritten
        exact hlt
      refine ⟨written, ?_⟩
      rw [List.getElem?_append_left hlt, hwritten]

end Opened

/-! ## The open tags as a function -/

/-- The tags open after some more tokens, the first of which has the given place; nothing where an
end tag does not fit. -/
def openAfter (index : Nat) (tags : List OpenTag) : List Token → Option (List OpenTag)
  | [] => some tags
  | .startTag name _ false :: rest => openAfter (index + 1) (⟨index, name⟩ :: tags) rest
  | .endTag name :: rest =>
    match tags with
    | [] => none
    | tag :: outer => if tag.name = name then openAfter (index + 1) outer rest else none
  | _ :: rest => openAfter (index + 1) tags rest

theorem openAfter_flat {token : Token} (hopens : token.opens? = none)
    (hcloses : token.closes? = none) (index : Nat) (tags : List OpenTag) (rest : List Token) :
    openAfter index tags (token :: rest) = openAfter (index + 1) tags rest := by
  cases token with
  | startTag name attributes selfClosing =>
    cases selfClosing with
    | false => simp [Token.opens?] at hopens
    | true => rfl
  | endTag name => simp [Token.closes?] at hcloses
  | text | comment | cdata | instruction | doctype => rfl

/-- A nested run leaves the open tags as they are. -/
theorem openAfter_nested (h : Nested before) (index : Nat) (tags : List OpenTag)
    (rest : List Token) :
    openAfter index tags (before ++ rest) = openAfter (index + before.length) tags rest := by
  induction h generalizing index tags rest with
  | nil => rfl
  | @flat token more hopens hcloses _ ih =>
    have hlength : index + 1 + more.length = index + (token :: more).length := by
      simp only [List.length_cons]
      omega
    rw [List.cons_append, openAfter_flat hopens hcloses, ih, hlength]
  | @element name attributes inner more _ _ ihinner ihmore =>
    have hlength : index + 1 + inner.length + 1 + more.length
        = index +
          (Token.startTag name attributes false :: (inner ++ .endTag name :: more)).length := by
      simp only [List.length_cons, List.length_append]
      omega
    rw [List.cons_append, List.append_assoc, openAfter, ihinner, List.cons_append, openAfter]
    simp only [if_true]
    rw [ihmore, hlength]

theorem Opened.openAfter_eq (h : Opened before tags) (rest : List Token) :
    openAfter 0 [] (before ++ rest) = openAfter before.length tags rest := by
  induction h generalizing rest with
  | nested hbefore =>
    rw [openAfter_nested hbefore, Nat.zero_add]
  | @under before inner tags name attributes _ hinner ih =>
    have hlength : before.length + 1 + inner.length
        = (before ++ Token.startTag name attributes false :: inner).length := by
      simp only [List.length_append, List.length_cons]
      omega
    rw [List.append_assoc, ih, List.cons_append, openAfter, openAfter_nested hinner, hlength]

/-- **The open tags depend on the tokens alone.** -/
theorem Opened.unique {tags' : List OpenTag} (h : Opened before tags) (h' : Opened before tags') :
    tags = tags' := by
  have heq : openAfter before.length tags [] = openAfter before.length tags' [] :=
    (h.openAfter_eq []).symm.trans (h'.openAfter_eq [])
  simpa [openAfter] using heq

theorem Opened.eq_nil_of_nested (h : Opened before tags) (hnested : Nested before) : tags = [] :=
  h.unique (.nested hnested)

/-- **An end tag that nests closes the innermost open tag.** -/
theorem Opened.innermost {name : List Char} (h : Opened before tags)
    (hnested : Nested (before ++ .endTag name :: after)) :
    ∃ tag outer, tags = tag :: outer ∧ tag.name = name := by
  have hafter : openAfter before.length tags (.endTag name :: after) ≠ none := by
    have hall := openAfter_nested hnested 0 [] []
    rw [List.append_nil, h.openAfter_eq] at hall
    rw [hall]
    simp [openAfter]
  cases tags with
  | nil => exact absurd rfl hafter
  | cons tag outer =>
    by_cases hname : tag.name = name
    · exact ⟨tag, outer, rfl, hname⟩
    · refine absurd ?_ hafter
      rw [openAfter]
      simp [hname]

end SvgTidy.Markup
