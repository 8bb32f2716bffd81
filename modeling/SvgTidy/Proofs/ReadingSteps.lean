import SvgTidy.Markup.Assembly
import SvgTidy.Proofs.AttributeMap
import SvgTidy.Proofs.WellFormed

/-!
# Reading token by token

A text is cut into tokens first and put together afterwards. `resume` does both at once: what reading
makes of the rest of a text, given the state of assembly before it. Its equations follow the cursor
one token at a time, so a statement about reading is an induction along the text.

Principal results: `resume_ofText` — reading is resuming from the start; `resume_token` and its
companions — one step of it; `Assembly.Sound.step`, `wellFormed_of_read` — whatever is read is
well-formed.
-/

namespace SvgTidy

/-! ## Attributes that repeat a name -/

namespace Attributes

/-- One attribute more, unless its name is taken. -/
def take (known : Attributes) (a : Attribute) : Attributes :=
  if known.contains a.name then known else known.set a.name a.value

/-- Of several attributes with one name the first counts. -/
def ofList (written : List Attribute) : Attributes :=
  written.foldl take .empty

theorem toList_foldl_take (written : List Attribute) : ∀ known : Attributes,
    ((known.toList ++ written).map (·.name)).Nodup →
      (written.foldl take known).toList = known.toList ++ written := by
  induction written with
  | nil => simp
  | cons a written ih =>
    intro known hnodup
    have hnew : known.contains a.name = false := by
      rw [← Bool.not_eq_true, contains_iff]
      intro hm
      rw [List.map_append, List.nodup_append] at hnodup
      exact hnodup.2.2 _ hm _ (List.mem_map_of_mem List.mem_cons_self) rfl
    have htake : (known.take a).toList = known.toList ++ [a] := by
      rw [take, hnew, if_neg Bool.false_ne_true, toList_set_of_not_contains hnew]
    rw [List.foldl_cons, ih _ (by rw [htake]; simpa using hnodup), htake]
    simp

/-- Nothing is left out where no name comes twice. -/
theorem ofList_toList (attributes : Attributes) : ofList attributes.toList = attributes := by
  have hlist := toList_foldl_take attributes.toList .empty attributes.nodup
  rw [← ofList] at hlist
  cases hfound : ofList attributes.toList
  cases attributes
  simp_all [empty]

end Attributes

namespace Markup

/-! ## The equations of reading -/

namespace Cursor

variable {c d : Cursor}

theorem Reaches.endPos_eq (h : c.Reaches d) : d.endPos = c.endPos := by
  obtain ⟨n, rfl⟩ := h
  rw [endPos, endPos, pos_skip, rest_skip, ← Position.advance_append, List.take_append_drop]

theorem tokens_of_nil (hc : c.rest = []) : c.tokens = ([], none) := by
  rw [tokens, dif_pos hc]

theorem tokens_of_error {failure : Failure} (hc : c.rest ≠ []) (h : c.readToken = .error failure) :
    c.tokens = ([], some failure) := by
  rw [tokens, dif_neg hc]
  split
  · rename_i found
    rw [h] at found
    cases found
    rfl
  · rename_i found
    rw [h] at found
    cases found

theorem tokens_of_ok {token : Token} (hc : c.rest ≠ []) (h : c.readToken = .ok (token, d)) :
    c.tokens = (⟨token, c.pos, d.last⟩ :: d.tokens.1, d.tokens.2) := by
  rw [tokens, dif_neg hc]
  split
  · rename_i found
    rw [h] at found
    cases found
  · rename_i found
    rw [h] at found
    cases found
    rfl

/-- **Induction along the tokens of a text**, which end with the text or with a failure. -/
theorem token_induction {motive : Cursor → Prop} (ended : ∀ c, c.rest = [] → motive c)
    (failed : ∀ c failure, c.rest ≠ [] → c.readToken = .error failure → motive c)
    (token : ∀ c t d, c.rest ≠ [] → c.readToken = .ok (t, d) → motive d → motive c)
    (c : Cursor) : motive c := by
  generalize hlength : c.rest.length = length
  induction length using Nat.strongRecOn generalizing c with
  | ind length ih =>
    by_cases hc : c.rest = []
    · exact ended c hc
    · cases hread : c.readToken with
      | error failure => exact failed c failure hc hread
      | ok r =>
        obtain ⟨t, d⟩ := r
        exact token c t d hc hread (ih _ (hlength ▸ length_readToken_lt hc hread) d rfl)

end Cursor

/-- What reading makes of the text from a cursor on, given the state of assembly there. -/
def resume (s : Assembly) (c : Cursor) : Except Flaw Document :=
  match c.tokens.1.foldlM Assembly.step s with
  | .error flaw => .error flaw
  | .ok s =>
    match c.tokens.2 with
    | some (.faulty fault pos) => .error ⟨fault, pos⟩
    | _ => if s.opened = [] then .ok s.doc else .error ⟨.unclosedElement, c.endPos⟩

theorem resume_ofText (text : List Char) : assemble text = resume .start (.ofText text) := rfl

section Step

variable {s : Assembly} {c d : Cursor}

theorem resume_nil (hc : c.rest = []) :
    resume s c = if s.opened = [] then .ok s.doc else .error ⟨.unclosedElement, c.endPos⟩ := by
  simp only [resume, Cursor.tokens_of_nil hc]
  rfl

theorem resume_fault {fault : Fault} {pos : Position} (hc : c.rest ≠ [])
    (h : c.readToken = .error (.faulty fault pos)) : resume s c = .error ⟨fault, pos⟩ := by
  simp only [resume, Cursor.tokens_of_error hc h]
  rfl

theorem resume_truncated {pos : Position} (hc : c.rest ≠ [])
    (h : c.readToken = .error (.endOfText pos)) :
    resume s c = if s.opened = [] then .ok s.doc else .error ⟨.unclosedElement, c.endPos⟩ := by
  simp only [resume, Cursor.tokens_of_error hc h]
  rfl

theorem resume_token {token : Token} (hc : c.rest ≠ []) (h : c.readToken = .ok (token, d)) :
    resume s c =
      match s.step ⟨token, c.pos, d.last⟩ with
      | .error flaw => .error flaw
      | .ok next => resume next d := by
  have hend : d.endPos = c.endPos := (Cursor.readToken_reaches h).endPos_eq
  simp only [resume, Cursor.tokens_of_ok hc h, List.foldlM_cons, hend]
  cases s.step ⟨token, c.pos, d.last⟩ <;> rfl

end Step

/-- **What every token keeps holds when a text has been read**, whatever it says about the state of
assembly and the place in the text. -/
theorem resume_induct {I : Assembly → Cursor → Prop} {doc : Document}
    (hstep : ∀ s c token d next, c.rest ≠ [] → c.readToken = .ok (token, d) → I s c →
      s.step ⟨token, c.pos, d.last⟩ = .ok next → I next d) :
    ∀ (s : Assembly) (c : Cursor), I s c → resume s c = .ok doc →
      ∃ last d, I last d ∧ last.opened = [] ∧ last.doc = doc := by
  intro s c
  have hend {s : Assembly} {c : Cursor} (hI : I s c)
      (h : (if s.opened = [] then .ok s.doc else .error ⟨.unclosedElement, c.endPos⟩) =
        Except.ok (ε := Flaw) doc) : ∃ last d, I last d ∧ last.opened = [] ∧ last.doc = doc := by
    split at h
    · rename_i hopened
      cases h
      exact ⟨s, c, hI, hopened, rfl⟩
    · cases h
  induction c using Cursor.token_induction generalizing s with
  | ended c hc =>
    intro hI h
    rw [resume_nil hc] at h
    exact hend hI h
  | failed c failure hc hread =>
    intro hI h
    cases failure with
    | faulty fault pos =>
      rw [resume_fault hc hread] at h
      cases h
    | endOfText pos =>
      rw [resume_truncated hc hread] at h
      exact hend hI h
  | token c token d hc hread ih =>
    intro hI h
    rw [resume_token hc hread] at h
    split at h
    · cases h
    · rename_i next hnext
      exact ih next (hstep s c token d next hc hread hI hnext) h

/-! ## Folds that may fail -/

/-- **What every step of a fold keeps holds of the whole fold.** It may speak of the elements taken in
so far and of the state after them. -/
theorem foldlM_induct {α β ε : Type} {step : β → α → Except ε β} {I : List α → β → Prop}
    (hstep : ∀ done s a next, I done s → step s a = .ok next → I (done ++ [a]) next)
    {list : List α} {s last : β} (hs : I [] s) (h : list.foldlM step s = .ok last) :
    I list last := by
  suffices hall : ∀ done s, I done s → list.foldlM step s = .ok last → I (done ++ list) last from
    hall [] s hs h
  clear hs h
  induction list with
  | nil =>
    intro done s hs h
    cases h
    rwa [List.append_nil]
  | cons a list ih =>
    intro done s hs h
    rw [List.foldlM_cons] at h
    cases hnext : step s a with
    | error flaw =>
      rw [hnext] at h
      cases h
    | ok next =>
      rw [hnext] at h
      have hrest := ih (done ++ [a]) next (hstep done s a next hs hnext) h
      rwa [List.append_assoc, List.singleton_append] at hrest

/-! ## Attributes one by one -/

namespace Assembly

/-- Take in one attribute of a start tag. -/
def takeAttribute (s : Assembly) (known : Attributes) (a : RawAttribute) :
    Except Flaw Attributes :=
  if known.contains (String.ofList a.name) then .ok known
  else
    match s.decodeAt a.value a.pos with
    | .ok value => .ok (known.set (String.ofList a.name) (String.ofList value))
    | .error flaw => .error flaw

theorem attributesOf_eq (s : Assembly) (written : List RawAttribute) :
    s.attributesOf written = written.foldlM s.takeAttribute .empty := rfl

end Assembly

/-! ## Reading makes well-formed documents -/

namespace Assembly

/-- The document is well-formed and whatever is open is an element of it. -/
structure Sound (s : Assembly) : Prop where
  wellFormed : s.doc.WellFormed
  opened : ∀ element ∈ s.opened, s.doc.kind? element.id = some .element

namespace Sound

theorem start : Assembly.start.Sound :=
  ⟨.empty, fun _ h => by simp [Assembly.start] at h⟩

variable {s next : Assembly}

theorem current (h : s.Sound) :
    s.doc.kind? s.current = some .root ∨ s.doc.kind? s.current = some .element := by
  unfold Assembly.current
  split
  · exact .inl ((h.wellFormed.root_iff _).mpr rfl)
  · rename_i element outer hopened
    exact .inr (h.opened element (by simp [hopened]))

theorem knows_current (h : s.Sound) : s.doc.knows s.current = true :=
  Document.knows_iff_kind?.mpr
    (h.current.elim (fun hroot => ⟨_, hroot⟩) fun helement => ⟨_, helement⟩)

theorem grow (h : s.Sound) {data : NodeData} (hdata : data.kind ≠ .root) : (s.grow data).Sound := by
  refine ⟨h.wellFormed.grow h.current hdata, fun element hm => ?_⟩
  have hkind : s.doc.kind? element.id = some .element := h.opened element hm
  have hne : element.id ≠ s.doc.fresh :=
    Document.ne_fresh_of_knows (Document.knows_iff_kind?.mpr ⟨_, hkind⟩)
  show (s.doc.grow s.current data).kind? element.id = some .element
  rw [Document.kind?, Document.data?_grow, if_neg hne]
  exact hkind

theorem startTag (h : s.Sound) {name : List Char} {written : List RawAttribute}
    {selfClosing : Bool} (hnext : s.startTag name written selfClosing = .ok next) : next.Sound := by
  unfold Assembly.startTag at hnext
  split at hnext
  · cases hnext
  · rename_i attributes _
    have hgrown : (s.grow (.element { name := String.ofList name, attributes })).Sound :=
      h.grow nofun
    cases hnext
    refine ⟨hgrown.wellFormed, fun element hm => ?_⟩
    simp only at hm ⊢
    split at hm
    · exact hgrown.opened element hm
    · rcases List.mem_cons.mp hm with rfl | hm
      · show (s.doc.grow s.current _).kind? s.doc.fresh = _
        rw [Document.kind?, Document.data?_grow, if_pos rfl]
        rfl
      · exact hgrown.opened element hm

theorem step (h : s.Sound) {placed : PlacedToken} (hnext : s.step placed = .ok next) :
    next.Sound := by
  unfold Assembly.step at hnext
  split at hnext
  · unfold Assembly.text at hnext
    split at hnext
    · split at hnext <;> cases hnext
      exact h
    · split at hnext
      · cases hnext
      · split at hnext
        · cases hnext
          exact h.grow nofun
        · split at hnext <;> cases hnext
          · exact h
          · exact h.grow nofun
  · exact h.startTag hnext
  · unfold Assembly.endTag at hnext
    split at hnext
    · cases hnext
    · rename_i element outer hopened
      split at hnext
      · cases hnext
        exact ⟨h.wellFormed, fun e hm => h.opened e (by simp [hopened, hm])⟩
      · split at hnext <;> cases hnext
  · cases hnext
    exact h.grow nofun
  · cases hnext
    exact h.grow nofun
  · cases hnext
    exact h.grow nofun
  · rename_i body _
    unfold Assembly.doctype at hnext
    split at hnext <;> cases hnext
    have hgrown : (s.grow (.doctype (String.ofList body))).Sound := h.grow nofun
    exact ⟨hgrown.wellFormed, hgrown.opened⟩

end Sound

end Assembly

theorem wellFormed_of_assemble {text : List Char} {doc : Document} (h : assemble text = .ok doc) :
    doc.WellFormed := by
  rw [resume_ofText] at h
  obtain ⟨last, -, hlast, -, rfl⟩ := resume_induct (I := fun s _ => s.Sound)
    (fun _ _ _ _ _ _ _ hs hnext => hs.step hnext) _ _ Assembly.Sound.start h
  exact hlast.wellFormed

end Markup

namespace Document

theorem assemble_of_read {source : String} {path : Option String} {doc : Document}
    (h : read source path = .ok doc) : Markup.assemble source.toList = .ok doc := by
  unfold read at h
  split at h
  · rename_i found hfound
    cases h
    exact hfound
  · cases h

theorem read_of_assemble {source : String} {doc : Document}
    (h : Markup.assemble source.toList = .ok doc) (path : Option String) :
    read source path = .ok doc := by
  simp [read, h]

/-- **Whatever is read is well-formed.** -/
theorem wellFormed_of_read {source : String} {path : Option String} {doc : Document}
    (h : read source path = .ok doc) : doc.WellFormed :=
  Markup.wellFormed_of_assemble (assemble_of_read h)

end Document

end SvgTidy
