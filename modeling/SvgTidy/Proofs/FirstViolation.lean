import SvgTidy.Proofs.TokenConformance
import SvgTidy.Proofs.TokenPlaces

/-!
# Assembly finds the first violation

The state of assembly knows of the tokens before it what `Violates` asks for: which tags are open,
which entities hold, and how far the document has come. A step therefore refuses a token just when
that token violates something, names the cause, and points into the token.

Principal results: `Tracks.step_ok`, `Tracks.step_error` — one token; `Tracks.run` — all of them: a
run without a violation is taken in, any other is refused for its first.
-/

namespace SvgTidy.Markup

/-- The state of assembly after some tokens. -/
structure Tracks (before : List Token) (s : Assembly) : Prop where
  opened : ∃ tags, Opened before tags ∧ tags.map OpenTag.name = s.opened.map OpenElement.name
  entities : s.entities = declaredBy before
  content : s.stage = .content ↔ ∃ token ∈ before, token.IsStartTag
  fresh : s.stage = .start ↔ ∀ token ∈ before, ¬ token.IsStartTag ∧ token.doctype? = none

/-! ## References -/

namespace Assembly

variable {s : Assembly}

theorem expand_of_decodeAt {raw text : List Char} {pos : Position}
    (h : s.decodeAt raw pos = .ok text) : expand s.entities raw = some text := by
  unfold decodeAt at h
  split at h
  · rename_i hdecode
    cases h
    exact decode_eq_ok_iff.mp hdecode
  · cases h

theorem resolves_of_decodeAt {raw text : List Char} {pos : Position}
    (h : s.decodeAt raw pos = .ok text) : Resolves s.entities raw := by
  rw [resolves_iff, expand_of_decodeAt h]
  rfl

theorem fails_of_decodeAt {raw : List Char} {pos : Position} {flaw : Flaw}
    (h : s.decodeAt raw pos = .error flaw) :
    ¬ Resolves s.entities raw ∧ flaw.fault = .badReference ∧
      ∃ before c after, raw = before ++ c :: after ∧ flaw.pos = pos.advance before := by
  unfold decodeAt at h
  split at h
  · cases h
  · rename_i blameless hdecode
    cases h
    obtain ⟨hfails, c, after, hraw⟩ := blameless_of_decode hdecode
    exact ⟨hfails, rfl, blameless, c, after, hraw, rfl⟩

/-- The attributes taken in so far are those of these names. -/
def Knows (done : List RawAttribute) (known : Attributes) : Prop :=
  ∀ name : List Char, known.contains (String.ofList name) = true ↔ ∃ b ∈ done, b.name = name

theorem Knows.nil : Knows [] .empty := by
  intro name
  rw [Attributes.contains_iff]
  simp [Attributes.empty]

theorem Knows.takeAttribute {done : List RawAttribute} {known next : Attributes} {a : RawAttribute}
    (h : Knows done known) (hnext : s.takeAttribute known a = .ok next) :
    Knows (done ++ [a]) next := by
  unfold Assembly.takeAttribute at hnext
  split at hnext
  · rename_i hcontains
    cases hnext
    intro name
    rw [h name]
    constructor
    · rintro ⟨b, hb, hname⟩
      exact ⟨b, List.mem_append_left _ hb, hname⟩
    · rintro ⟨b, hb, hname⟩
      rcases List.mem_append.mp hb with hb | hb
      · exact ⟨b, hb, hname⟩
      · obtain rfl := List.mem_singleton.mp hb
        exact hname ▸ (h b.name).mp hcontains
  · rename_i hnew
    split at hnext
    · cases hnext
      intro name
      rw [Attributes.contains_iff, Attributes.toList_set_of_not_contains (by simpa using hnew),
        List.map_append, List.mem_append, ← Attributes.contains_iff, h name]
      constructor
      · rintro (⟨b, hb, hname⟩ | hname)
        · exact ⟨b, List.mem_append_left _ hb, hname⟩
        · have heq : name = a.name := by simpa [String.ofList_inj] using hname
          exact ⟨a, List.mem_append_right _ (List.mem_singleton_self a), heq.symm⟩
      · rintro ⟨b, hb, hname⟩
        rcases List.mem_append.mp hb with hb | hb
        · exact .inl ⟨b, hb, hname⟩
        · obtain rfl := List.mem_singleton.mp hb
          exact .inr (by simp [hname])
    · cases hnext

theorem Knows.resolves {done : List RawAttribute} {known next : Attributes} {a : RawAttribute}
    (h : Knows done known) (hnext : s.takeAttribute known a = .ok next)
    (hfirst : ∀ b ∈ done, b.name ≠ a.name) : Resolves s.entities a.value := by
  unfold Assembly.takeAttribute at hnext
  split at hnext
  · rename_i hcontains
    obtain ⟨b, hb, heq⟩ := (h a.name).mp hcontains
    exact absurd heq (hfirst b hb)
  · split at hnext
    · rename_i hdecode
      exact resolves_of_decodeAt hdecode
    · cases hnext

theorem Knows.fails {done : List RawAttribute} {known : Attributes} {a : RawAttribute}
    {flaw : Flaw} (h : Knows done known) (hflaw : s.takeAttribute known a = .error flaw) :
    (∀ b ∈ done, b.name ≠ a.name) ∧ s.decodeAt a.value a.pos = .error flaw := by
  unfold Assembly.takeAttribute at hflaw
  split at hflaw
  · cases hflaw
  · rename_i hnew
    split at hflaw
    · cases hflaw
    · rename_i hdecode
      cases hflaw
      exact ⟨fun b hb heq => hnew ((h a.name).mpr ⟨b, hb, heq⟩), hdecode⟩

/-- Attributes are taken in up to the first that counts and has a reference to nothing. -/
theorem takeAttributes_run (s : Assembly) (rest : List RawAttribute) {done : List RawAttribute}
    {known : Attributes} (h : Knows done known) :
    match rest.foldlM s.takeAttribute known with
    | .ok _ => ∀ front a behind, rest = front ++ a :: behind →
        (∀ b ∈ done ++ front, b.name ≠ a.name) → Resolves s.entities a.value
    | .error flaw => ∃ front a behind, rest = front ++ a :: behind ∧
        (∀ b ∈ done ++ front, b.name ≠ a.name) ∧ s.decodeAt a.value a.pos = .error flaw := by
  induction rest generalizing done known with
  | nil =>
    show ∀ front a behind, [] = front ++ a :: behind → _
    intro front a behind hsplit
    simp at hsplit
  | cons first rest ih =>
    rw [List.foldlM_cons]
    cases hfirst : s.takeAttribute known first with
    | error flaw =>
      obtain ⟨hnew, hdecode⟩ := h.fails hfirst
      exact ⟨[], first, rest, rfl, by rwa [List.append_nil], hdecode⟩
    | ok next =>
      have ih := ih (h.takeAttribute hfirst)
      show match rest.foldlM s.takeAttribute next with | .ok _ => _ | .error flaw => _
      split at ih
      · intro front a behind hsplit hdone
        cases front with
        | nil =>
          rw [List.nil_append, List.cons.injEq] at hsplit
          obtain ⟨rfl, -⟩ := hsplit
          rw [List.append_nil] at hdone
          exact h.resolves hfirst hdone
        | cons other front =>
          rw [List.cons_append, List.cons.injEq] at hsplit
          obtain ⟨rfl, hsplit⟩ := hsplit
          rw [← List.singleton_append, ← List.append_assoc] at hdone
          exact ih front a behind hsplit hdone
      · obtain ⟨front, a, behind, hsplit, hdone, hflaw⟩ := ih
        rw [List.append_assoc, List.singleton_append] at hdone
        exact ⟨first :: front, a, behind, by rw [hsplit, List.cons_append], hdone, hflaw⟩

theorem resolves_of_attributesOf {written : List RawAttribute} {attributes : Attributes}
    (h : s.attributesOf written = .ok attributes) {a : RawAttribute} (ha : a.First written) :
    Resolves s.entities a.value := by
  rw [attributesOf_eq] at h
  have hrun := takeAttributes_run s written Knows.nil
  rw [h] at hrun
  obtain ⟨front, behind, hsplit, hfirst⟩ := ha
  exact hrun front a behind hsplit hfirst

theorem fails_of_attributesOf {written : List RawAttribute} {flaw : Flaw}
    (h : s.attributesOf written = .error flaw) :
    ∃ a : RawAttribute, a.First written ∧ a ∈ written ∧ s.decodeAt a.value a.pos = .error flaw := by
  rw [attributesOf_eq] at h
  have hrun := takeAttributes_run s written Knows.nil
  rw [h] at hrun
  obtain ⟨front, a, behind, hsplit, hfirst, hflaw⟩ := hrun
  exact ⟨a, ⟨front, behind, hsplit, hfirst⟩, by simp [hsplit], hflaw⟩

end Assembly

/-! ## One token -/

namespace Tracks

variable {before : List Token} {s next : Assembly}

theorem start : Tracks [] .start :=
  ⟨⟨[], .nested .nil, rfl⟩, rfl, by simp [Assembly.start], by simp [Assembly.start]⟩

/-- A token that is neither a start tag nor a doctype. -/
theorem extend (h : Tracks before s) {token : Token} {tags : List OpenTag}
    (htags : Opened (before ++ [token]) tags)
    (hnames : tags.map OpenTag.name = next.opened.map OpenElement.name)
    (hroot : ¬ token.IsStartTag) (hdoctype : token.doctype? = none)
    (hentities : next.entities = s.entities) (hstage : next.stage = s.stage) :
    Tracks (before ++ [token]) next := by
  have hdeclared : declaredBy (before ++ [token]) = declaredBy before :=
    declaredBy_append fun t ht => by rw [List.mem_singleton.mp ht, hdoctype]
  refine ⟨⟨tags, htags, hnames⟩, ?_, ?_, ?_⟩
  · rw [hentities, hdeclared, h.entities]
  · rw [hstage, h.content]
    simp [hroot]
  · rw [hstage, h.fresh, List.forall_mem_append]
    simp [hroot, hdoctype]

/-- A token that leaves the open elements as they are, too. -/
theorem flat (h : Tracks before s) {token : Token} (hopens : token.opens? = none)
    (hcloses : token.closes? = none) (hroot : ¬ token.IsStartTag) (hdoctype : token.doctype? = none)
    (hopened : next.opened = s.opened) (hentities : next.entities = s.entities)
    (hstage : next.stage = s.stage) : Tracks (before ++ [token]) next := by
  obtain ⟨tags, htags, hnames⟩ := h.opened
  rw [← hopened] at hnames
  exact h.extend (htags.flat hopens hcloses) hnames hroot hdoctype hentities hstage

theorem nested_iff (h : Tracks before s) : Nested before ↔ s.opened = [] := by
  obtain ⟨tags, htags, hnames⟩ := h.opened
  constructor
  · intro hnested
    rw [htags.eq_nil_of_nested hnested] at hnames
    simpa using hnames.symm
  · intro hopened
    rw [hopened, List.map_nil, List.map_eq_nil_iff] at hnames
    exact Opened.nested_iff.mpr (hnames ▸ htags)

/-! ### Text -/

theorem text_ok (h : Tracks before s) {raw : List Char} {pos : Position}
    (hnext : s.text raw pos = .ok next) :
    Tracks (before ++ [.text raw]) next ∧ ∀ fault, ¬ Violates before (.text raw) fault := by
  have htracks (hopened : next.opened = s.opened) (hentities : next.entities = s.entities)
      (hstage : next.stage = s.stage) : Tracks (before ++ [.text raw]) next :=
    h.flat rfl rfl id rfl hopened hentities hstage
  unfold Assembly.text at hnext
  split at hnext
  · rename_i hopened
    have hnested : Nested before := h.nested_iff.mpr hopened
    split at hnext
    · rename_i hblank
      cases hnext
      have hraw : Text.Blank raw := List.all_eq_true.mp hblank
      refine ⟨htracks rfl rfl rfl, fun fault hviolates => ?_⟩
      cases hviolates with
      | textBeforeRoot _ hnot _ => exact hnot hraw
      | textOutsideRoot _ hnot _ _ => exact hnot hraw
      | textReference hinside _ => cases hinside.eq_nil_of_nested hnested
    · cases hnext
  · rename_i element outer hopened
    have hnested : ¬ Nested before := fun hnested => by
      have hnil := h.nested_iff.mp hnested
      rw [hopened] at hnil
      cases hnil
    split at hnext
    · cases hnext
    · rename_i text hdecode
      have hraw := Assembly.resolves_of_decodeAt hdecode
      rw [h.entities] at hraw
      refine ⟨?_, fun fault hviolates => ?_⟩
      · split at hnext
        · cases hnext
          exact htracks rfl rfl rfl
        · split at hnext <;> cases hnext
          · exact htracks rfl rfl rfl
          · exact htracks rfl rfl rfl
      · cases hviolates with
        | textBeforeRoot houtside _ _ => exact hnested houtside
        | textOutsideRoot houtside _ _ _ => exact hnested houtside
        | textReference _ hnot => exact hnot hraw

theorem text_error (h : Tracks before s) {raw : List Char} {pos : Position} {flaw : Flaw}
    (hflaw : s.text raw pos = .error flaw) :
    Violates before (.text raw) flaw.fault ∧
      ∃ front c behind, raw = front ++ c :: behind ∧ flaw.pos = pos.advance front := by
  unfold Assembly.text at hflaw
  split at hflaw
  · rename_i hopened
    have hnested : Nested before := h.nested_iff.mpr hopened
    split at hflaw
    · cases hflaw
    · rename_i hblank
      cases hflaw
      have hraw : ¬ Text.Blank raw := fun hraw => hblank (List.all_eq_true.mpr hraw)
      refine ⟨?_, ?_⟩
      · show Violates before (.text raw) (if s.stage = .content then _ else _)
        split
        · rename_i hstage
          obtain ⟨token, htoken, hroot⟩ := h.content.mp hstage
          exact .textOutsideRoot hnested hraw htoken hroot
        · rename_i hstage
          refine .textBeforeRoot hnested hraw fun token htoken hroot => ?_
          exact hstage (h.content.mpr ⟨token, htoken, hroot⟩)
      · have hrest : raw.dropWhile Text.isBlank ≠ [] := fun hnil =>
          hraw (List.dropWhile_eq_nil_iff.mp hnil)
        obtain ⟨c, behind, hbehind⟩ := List.exists_cons_of_ne_nil hrest
        refine ⟨raw.takeWhile Text.isBlank, c, behind, ?_, rfl⟩
        rw [← hbehind, List.takeWhile_append_dropWhile]
  · rename_i element outer hopened
    split at hflaw
    · rename_i hdecode
      cases hflaw
      obtain ⟨hfails, hfault, hpos⟩ := Assembly.fails_of_decodeAt hdecode
      refine ⟨?_, hpos⟩
      obtain ⟨tags, htags, hnames⟩ := h.opened
      cases tags with
      | nil => simp [hopened] at hnames
      | cons tag tags =>
        rw [hfault]
        exact .textReference htags (h.entities ▸ hfails)
    · split at hflaw
      · cases hflaw
      · split at hflaw <;> cases hflaw

/-! ### Start tags -/

variable {name : List Char} {written : List RawAttribute} {selfClosing : Bool}

theorem startTag_ok (h : Tracks before s)
    (hnext : s.startTag name written selfClosing = .ok next) :
    Tracks (before ++ [.startTag name written selfClosing]) next ∧
      ∀ fault, ¬ Violates before (.startTag name written selfClosing) fault := by
  unfold Assembly.startTag at hnext
  split at hnext
  · cases hnext
  · rename_i attributes hattributes
    cases hnext
    refine ⟨⟨?_, ?_, by simp [Token.IsStartTag], by simp [Token.IsStartTag]⟩,
      fun fault hviolates => ?_⟩
    · obtain ⟨tags, htags, hnames⟩ := h.opened
      cases selfClosing with
      | true => exact ⟨tags, htags.flat rfl rfl, hnames⟩
      | false =>
        refine ⟨_, htags.enter name written, ?_⟩
        rw [List.map_cons, hnames]
        rfl
    · have hdeclared : declaredBy (before ++ [.startTag name written selfClosing])
          = declaredBy before :=
        declaredBy_append fun t ht => by rw [List.mem_singleton.mp ht]; rfl
      rw [hdeclared]
      exact h.entities
    · cases hviolates with
      | valueReference hfirst hnot =>
        have hvalue := Assembly.resolves_of_attributesOf hattributes hfirst
        rw [h.entities] at hvalue
        exact hnot hvalue

theorem startTag_error (h : Tracks before s) {flaw : Flaw}
    (hflaw : s.startTag name written selfClosing = .error flaw) :
    Violates before (.startTag name written selfClosing) flaw.fault ∧
      ∃ a ∈ written, ∃ front c behind, a.value = front ++ c :: behind ∧
        flaw.pos = a.pos.advance front := by
  unfold Assembly.startTag at hflaw
  split at hflaw
  · rename_i hattributes
    cases hflaw
    obtain ⟨a, hfirst, ha, hdecode⟩ := Assembly.fails_of_attributesOf hattributes
    obtain ⟨hfails, hfault, hpos⟩ := Assembly.fails_of_decodeAt hdecode
    refine ⟨?_, a, ha, hpos⟩
    rw [hfault]
    exact .valueReference hfirst (h.entities ▸ hfails)
  · cases hflaw

/-! ### End tags -/

theorem endTag_ok (h : Tracks before s) {pos : Position} (hnext : s.endTag name pos = .ok next) :
    Tracks (before ++ [.endTag name]) next ∧ ∀ fault, ¬ Violates before (.endTag name) fault := by
  obtain ⟨tags, htags, hnames⟩ := h.opened
  unfold Assembly.endTag at hnext
  split at hnext
  · cases hnext
  · rename_i element outer hopened
    split at hnext
    · rename_i hname
      cases hnext
      cases tags with
      | nil => simp [hopened] at hnames
      | cons tag tags =>
        rw [hopened, List.map_cons, List.map_cons, List.cons.injEq, hname] at hnames
        obtain ⟨rfl, hnames⟩ := hnames
        refine ⟨h.extend htags.leave hnames id rfl rfl rfl, fun fault hviolates => ?_⟩
        cases hviolates with
        | unmatchedEndTag hother hno =>
          cases hother.unique htags
          exact hno tag List.mem_cons_self rfl
        | misplacedEndTag hother hno _ _ =>
          cases hother.unique htags
          exact hno rfl
    · split at hnext <;> cases hnext

theorem endTag_error (h : Tracks before s) {pos : Position} {flaw : Flaw}
    (hflaw : s.endTag name pos = .error flaw) :
    Violates before (.endTag name) flaw.fault ∧ flaw.pos = pos := by
  obtain ⟨tags, htags, hnames⟩ := h.opened
  unfold Assembly.endTag at hflaw
  split at hflaw
  · rename_i hopened
    cases hflaw
    rw [hopened, List.map_nil, List.map_eq_nil_iff] at hnames
    subst hnames
    exact ⟨.unmatchedEndTag htags (by simp), rfl⟩
  · rename_i element outer hopened
    split at hflaw
    · cases hflaw
    · rename_i hname
      cases tags with
      | nil => simp [hopened] at hnames
      | cons tag tags =>
        rw [hopened, List.map_cons, List.map_cons, List.cons.injEq] at hnames
        obtain ⟨hhead, hnames⟩ := hnames
        have houter : (∃ other ∈ tags, other.name = name) ↔ outer.any (·.name = name) = true := by
          rw [← List.mem_map (f := OpenTag.name), hnames, List.mem_map, List.any_eq_true]
          simp
        split at hflaw
        · rename_i hany
          cases hflaw
          obtain ⟨other, hother, hmatch⟩ := houter.mpr hany
          exact ⟨.misplacedEndTag htags (hhead ▸ hname) hother hmatch, rfl⟩
        · rename_i hany
          cases hflaw
          refine ⟨.unmatchedEndTag htags fun other hother hmatch => ?_, rfl⟩
          rcases List.mem_cons.mp hother with rfl | hother
          · exact hname (hhead ▸ hmatch)
          · exact hany (houter.mp ⟨other, hother, hmatch⟩)

/-! ### Doctypes -/

theorem doctype_ok (h : Tracks before s) {body : List Char} {pos : Position}
    (hnext : s.doctype body pos = .ok next) :
    Tracks (before ++ [.doctype body]) next ∧
      ∀ fault, ¬ Violates before (.doctype body) fault := by
  unfold Assembly.doctype at hnext
  split at hnext
  · rename_i hstage
    cases hnext
    have hfresh := h.fresh.mp hstage
    obtain ⟨tags, htags, hnames⟩ := h.opened
    refine ⟨⟨⟨tags, htags.flat rfl rfl, hnames⟩, ?_, ?_, ?_⟩, fun fault hviolates => ?_⟩
    · have hnone : before.findSome? Token.doctype? = none :=
        List.findSome?_eq_none_iff.mpr fun token htoken => (hfresh token htoken).2
      show EntityTable.ofDoctype body = declaredBy (before ++ [.doctype body])
      unfold declaredBy
      rw [List.findSome?_append, hnone]
      rfl
    · refine ⟨nofun, ?_⟩
      rintro ⟨token, htoken, hroot⟩
      rcases List.mem_append.mp htoken with htoken | htoken
      · exact absurd hroot (hfresh token htoken).1
      · rw [List.mem_singleton.mp htoken] at hroot
        exact hroot.elim
    · refine ⟨nofun, fun hall => ?_⟩
      have hself := (hall (.doctype body) (by simp)).2
      cases hself
    · cases hviolates with
      | misplacedDoctype htoken hlate =>
        obtain ⟨hroot, hnone⟩ := hfresh _ htoken
        rcases hlate with hlate | hlate
        · exact hroot hlate
        · simp [hnone] at hlate
  · cases hnext

theorem doctype_error (h : Tracks before s) {body : List Char} {pos : Position} {flaw : Flaw}
    (hflaw : s.doctype body pos = .error flaw) :
    Violates before (.doctype body) flaw.fault ∧ flaw.pos = pos := by
  unfold Assembly.doctype at hflaw
  split at hflaw
  · cases hflaw
  · rename_i hstage
    cases hflaw
    refine ⟨?_, rfl⟩
    by_contra hok
    refine hstage (h.fresh.mpr fun token htoken => ⟨fun hroot => ?_, ?_⟩)
    · exact hok (.misplacedDoctype htoken (.inl hroot))
    · cases hbody : token.doctype? with
      | none => rfl
      | some body => exact absurd (.misplacedDoctype htoken (.inr (by simp [hbody]))) hok

/-! ### Any token -/

variable {placed : PlacedToken}

/-- **A token that is taken in violates nothing.** -/
theorem step_ok (h : Tracks before s) (hnext : s.step placed = .ok next) :
    Tracks (before ++ [placed.token]) next ∧ ∀ fault, ¬ Violates before placed.token fault := by
  obtain ⟨token, start, stop⟩ := placed
  cases token with
  | text raw => exact h.text_ok hnext
  | startTag name written selfClosing => exact h.startTag_ok hnext
  | endTag name => exact h.endTag_ok hnext
  | doctype body => exact h.doctype_ok hnext
  | comment | cdata | instruction =>
    cases hnext
    exact ⟨h.flat rfl rfl id rfl rfl rfl rfl, nofun⟩

/-- **A token that is refused violates something, and is refused for it and inside of it.** -/
theorem step_error (h : Tracks before s) (hplaced : placed.Stands) {flaw : Flaw}
    (hflaw : s.step placed = .error flaw) :
    Violates before placed.token flaw.fault ∧ placed.Holds flaw.pos := by
  unfold Assembly.step at hflaw
  split at hflaw
  · rename_i raw htoken
    obtain ⟨hviolates, front, c, behind, hraw, hpos⟩ := h.text_error hflaw
    rw [htoken, hpos]
    exact ⟨hviolates, hplaced.text (hraw ▸ htoken)⟩
  · rename_i name written selfClosing htoken
    obtain ⟨hviolates, a, ha, front, c, behind, hvalue, hpos⟩ := h.startTag_error hflaw
    rw [htoken, hpos]
    exact ⟨hviolates, hplaced.value htoken ha hvalue⟩
  · rename_i name htoken
    obtain ⟨hviolates, hpos⟩ := h.endTag_error hflaw
    rw [htoken, hpos]
    exact ⟨hviolates, hplaced.stop⟩
  · cases hflaw
  · cases hflaw
  · cases hflaw
  · rename_i body htoken
    obtain ⟨hviolates, hpos⟩ := h.doctype_error hflaw
    rw [htoken, hpos]
    exact ⟨hviolates, hplaced.start⟩

/-- **A run is taken in up to its first violation.** -/
theorem run {tokens : List PlacedToken} (hstands : ∀ placed ∈ tokens, placed.Stands)
    (h : Tracks before s) (hbefore : Faultless before) :
    match tokens.foldlM Assembly.step s with
    | .ok last => Faultless (before ++ tokens.map PlacedToken.token) ∧
        Tracks (before ++ tokens.map PlacedToken.token) last
    | .error flaw => ∃ front placed behind, tokens = front ++ placed :: behind ∧
        Faultless (before ++ front.map PlacedToken.token) ∧
        Violates (before ++ front.map PlacedToken.token) placed.token flaw.fault ∧
        placed.Holds flaw.pos := by
  induction tokens generalizing before s with
  | nil =>
    show Faultless (before ++ []) ∧ Tracks (before ++ []) s
    rw [List.append_nil]
    exact ⟨hbefore, h⟩
  | cons placed tokens ih =>
    rw [List.foldlM_cons]
    cases hstep : s.step placed with
    | error flaw =>
      obtain ⟨hviolates, hholds⟩ := h.step_error (hstands placed List.mem_cons_self) hstep
      refine ⟨[], placed, tokens, rfl, ?_, ?_, hholds⟩
      · rwa [List.map_nil, List.append_nil]
      · rwa [List.map_nil, List.append_nil]
    | ok next =>
      obtain ⟨hnext, hno⟩ := h.step_ok hstep
      have ih := ih (fun p hp => hstands p (List.mem_cons_of_mem _ hp)) hnext (hbefore.snoc hno)
      have hshift : ∀ front : List PlacedToken,
          before ++ [placed.token] ++ front.map PlacedToken.token
            = before ++ (placed :: front).map PlacedToken.token := by
        intro front
        rw [List.append_assoc, List.singleton_append, List.map_cons]
      show match tokens.foldlM Assembly.step next with | .ok last => _ | .error flaw => _
      split at ih
      · rwa [hshift] at ih
      · obtain ⟨front, other, behind, hsplit, hfront, hviolates, hholds⟩ := ih
        rw [hshift] at hfront hviolates
        exact ⟨placed :: front, other, behind, by rw [hsplit, List.cons_append], hfront, hviolates,
          hholds⟩

end Tracks

end SvgTidy.Markup
