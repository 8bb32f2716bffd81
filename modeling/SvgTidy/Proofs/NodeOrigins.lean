import SvgTidy.Proofs.FirstViolation
import SvgTidy.Proofs.WellFormed

/-!
# Which token makes which node

A document that was read has a node for every token that makes one, in the order of the tokens, and
the start tag open around a token makes the parent of its node. `Document.Arranged` says so with the
places of these tokens in the text: the node after the root comes from the first place, and so on.

Principal results: `Arranged.grow`, `Arranged.skip` — a token that makes a node and one that does
not; `Arranges.step` — assembly keeps to the arrangement.
-/

namespace SvgTidy

namespace Markup

/-- A token makes a node, given the tokens before it. Text is trimmed unless the innermost element
keeps its text as it stands, and makes nothing if nothing is left of it. -/
inductive Makes (before : List Token) : Token → NodeData → Prop where
  | kept {raw text : List Char} {tag : OpenTag} {outer : List OpenTag}
      (hinside : Opened before (tag :: outer)) (htext : expand (declaredBy before) raw = some text)
      (hkeeps : isTextElement (String.ofList tag.name) = true) :
      Makes before (.text raw) (.text (String.ofList text))
  | trimmed {raw text : List Char} {tag : OpenTag} {outer : List OpenTag}
      (hinside : Opened before (tag :: outer)) (htext : expand (declaredBy before) raw = some text)
      (hkeeps : isTextElement (String.ofList tag.name) = false) (hleft : Text.trim text ≠ []) :
      Makes before (.text raw) (.text (String.ofList (Text.trim text)))
  | element (name : List Char) (written : List RawAttribute) (selfClosing : Bool)
      (attributes : Attributes) :
      Makes before (.startTag name written selfClosing)
        (.element { name := String.ofList name, attributes })
  | comment (body : List Char) : Makes before (.comment body) (.comment (String.ofList body))
  | cdata (body : List Char) : Makes before (.cdata body) (.cdata (String.ofList body))
  | instruction (name body : List Char) :
      Makes before (.instruction name body)
        (.instruction ⟨String.ofList name, String.ofList body⟩)
  | doctype (body : List Char) : Makes before (.doctype body) (.doctype (String.ofList body))

/-- The node made at a place, the places of all nodes but the root being given. -/
def nodeAt (places : List Nat) (place : Nat) : NodeId :=
  ⟨places.idxOf place + 1⟩

/-- The node that holds what comes while some tags are open. -/
def holder (places : List Nat) : List OpenTag → NodeId
  | [] => Document.root
  | tag :: _ => nodeAt places tag.index

end Markup

open Markup

/-- The nodes of the document come from the tokens at the given places, in order. -/
structure Document.Arranged (doc : Document) (tokens : List Token) (places : List Nat) : Prop where
  /-- Every place but no other makes a node. -/
  made : ∀ i token, tokens[i]? = some token →
    (i ∈ places ↔ ∃ data, Makes (tokens.take i) token data)
  within : ∀ i ∈ places, i < tokens.length
  increasing : places.Pairwise (· < ·)
  /-- A node for each of them, besides the root. -/
  size : doc.nodes.size = places.length + 1
  /-- What a node holds and where it hangs is told by its token and by the innermost open tag. -/
  node : ∀ k i, places[k]? = some i → ∃ token tags data, tokens[i]? = some token ∧
    Opened (tokens.take i) tags ∧ Makes (tokens.take i) token data ∧
    doc.data? ⟨k + 1⟩ = some data ∧ doc.parent? ⟨k + 1⟩ = some (holder places tags)
  /-- Siblings stand in the order of their tokens. -/
  siblings : ∀ id, (doc.children id).Pairwise fun a b => a.index < b.index

namespace Document.Arranged

variable {doc : Document} {before : List Token} {places : List Nat} {token : Token}

theorem empty : Document.empty.Arranged [] [] := by
  refine ⟨by simp, by simp, .nil, rfl, by simp, fun id => ?_⟩
  rw [Document.children_empty]
  exact .nil

/-- An open tag makes a node. -/
theorem mem_places (h : doc.Arranged before places) {tags : List OpenTag}
    (htags : Opened before tags) {tag : OpenTag} (htag : tag ∈ tags) : tag.index ∈ places := by
  obtain ⟨written, htoken⟩ := htags.getElem? htag
  exact (h.made _ _ htoken).mpr ⟨_, .element tag.name written false .empty⟩

/-- So does one that was open earlier. -/
theorem mem_places_take (h : doc.Arranged before places) {i : Nat} {tags : List OpenTag}
    (htags : Opened (before.take i) tags) {tag : OpenTag} (htag : tag ∈ tags) :
    tag.index ∈ places := by
  obtain ⟨written, htoken⟩ := htags.getElem? htag
  rw [List.getElem?_take] at htoken
  split at htoken
  · rename_i hi
    refine (h.made _ _ htoken).mpr ⟨_, .element tag.name written false .empty⟩
  · cases htoken

/-- A further place changes no node that was there. -/
theorem nodeAt_append {i : Nat} (h : i ∈ places) (place : Nat) :
    nodeAt (places ++ [place]) i = nodeAt places i := by
  rw [nodeAt, List.idxOf_append_of_mem h, nodeAt]

theorem holder_append {tags : List OpenTag} (h : ∀ tag ∈ tags, tag.index ∈ places) (place : Nat) :
    holder (places ++ [place]) tags = holder places tags := by
  cases tags with
  | nil => rfl
  | cons tag outer => exact nodeAt_append (h tag List.mem_cons_self) place

section Extend

variable (before token)

theorem take_append_of_lt {i : Nat} (hi : i < before.length) :
    (before ++ [token])[i]? = before[i]? ∧ (before ++ [token]).take i = before.take i :=
  ⟨List.getElem?_append_left hi, List.take_append_of_le_length (Nat.le_of_lt hi)⟩

theorem take_append_length :
    (before ++ [token])[before.length]? = some token ∧
      (before ++ [token]).take before.length = before :=
  ⟨by simp, by simp⟩

/-- A place after another token is one before it or its own. -/
theorem place_cases {i : Nat} {other : Token} (h : (before ++ [token])[i]? = some other) :
    i < before.length ∨ i = before.length := by
  obtain ⟨hi, -⟩ := List.getElem?_eq_some_iff.mp h
  rw [List.length_append, List.length_singleton] at hi
  omega

end Extend

/-- **A token that makes nothing leaves the document as it is.** -/
theorem skip (h : doc.Arranged before places) (hmakes : ∀ data, ¬ Makes before token data) :
    doc.Arranged (before ++ [token]) places := by
  refine ⟨fun i other hother => ?_, fun i hi => ?_, h.increasing, h.size, fun k i hk => ?_,
    h.siblings⟩
  · rcases place_cases before token hother with hi | rfl
    · obtain ⟨hget, htake⟩ := take_append_of_lt before token hi
      rw [hget] at hother
      rw [htake]
      exact h.made i other hother
    · obtain ⟨hget, htake⟩ := take_append_length before token
      cases hget.symm.trans hother
      rw [htake]
      refine ⟨fun hmem => absurd (h.within _ hmem) (Nat.lt_irrefl _), ?_⟩
      rintro ⟨data, hdata⟩
      exact absurd hdata (hmakes data)
  · rw [List.length_append]
    exact Nat.lt_add_right _ (h.within i hi)
  · obtain ⟨hget, htake⟩ := take_append_of_lt before token (h.within i (List.mem_of_getElem? hk))
    rw [hget, htake]
    exact h.node k i hk

/-- **A token that makes a node adds it to the innermost open element, after all others.** -/
theorem grow (h : doc.Arranged before places) (hdoc : doc.WellFormed) {tags : List OpenTag}
    (htags : Opened before tags) (hknows : doc.knows (holder places tags) = true) {data : NodeData}
    (hmakes : Makes before token data) :
    (doc.grow (holder places tags) data).Arranged (before ++ [token])
      (places ++ [before.length]) := by
  have hfresh : doc.fresh = ⟨places.length + 1⟩ := by rw [Document.fresh, h.size]
  refine ⟨fun i other hother => ?_, fun i hi => ?_, ?_, ?_, fun k i hk => ?_, fun id => ?_⟩
  · rcases place_cases before token hother with hi | rfl
    · obtain ⟨hget, htake⟩ := take_append_of_lt before token hi
      rw [hget] at hother
      rw [htake, ← h.made i other hother, List.mem_append, List.mem_singleton]
      exact or_iff_left (Nat.ne_of_lt hi)
    · obtain ⟨hget, htake⟩ := take_append_length before token
      cases hget.symm.trans hother
      rw [htake]
      exact ⟨fun _ => ⟨data, hmakes⟩, fun _ => by simp⟩
  · rw [List.length_append, List.length_singleton]
    rcases List.mem_append.mp hi with hi | hi
    · exact Nat.lt_add_right _ (h.within i hi)
    · rw [List.mem_singleton.mp hi]
      exact Nat.lt_succ_self _
  · refine List.pairwise_append.mpr ⟨h.increasing, List.pairwise_singleton _ _, fun i hi j hj => ?_⟩
    rw [List.mem_singleton.mp hj]
    exact h.within i hi
  · rw [Document.size_grow, h.size, List.length_append, List.length_singleton]
  · by_cases hlt : k < places.length
    · rw [List.getElem?_append_left hlt] at hk
      obtain ⟨hget, htake⟩ := take_append_of_lt before token (h.within i (List.mem_of_getElem? hk))
      obtain ⟨other, outer, made, hother, houter, hmade, hdata, hparent⟩ := h.node k i hk
      have hne : (⟨k + 1⟩ : NodeId) ≠ doc.fresh := by
        rw [hfresh, Ne, NodeId.mk.injEq]
        omega
      have hholder := holder_append (fun tag => h.mem_places_take houter) before.length
      refine ⟨other, outer, made, by rw [hget, hother], by rwa [htake], by rwa [htake], ?_, ?_⟩
      · rw [Document.data?_grow, if_neg hne, hdata]
      · rw [Document.parent?_grow, if_neg hne, hparent, hholder]
    · have hk' : k = places.length := by
        obtain ⟨hle, -⟩ := List.getElem?_eq_some_iff.mp hk
        rw [List.length_append, List.length_singleton] at hle
        omega
      subst hk'
      have hi : before.length = i := by simpa using hk
      subst hi
      obtain ⟨hget, htake⟩ := take_append_length before token
      have hholder := holder_append (fun tag => h.mem_places htags) before.length
      refine ⟨token, tags, data, hget, by rwa [htake], by rwa [htake], ?_, ?_⟩
      · rw [Document.data?_grow, if_pos hfresh.symm]
      · rw [Document.parent?_grow, if_pos hfresh.symm, hholder]
  · rw [Document.children_grow hknows]
    split
    · refine List.pairwise_append.mpr
        ⟨h.siblings id, List.pairwise_singleton _ _, fun a ha b hb => ?_⟩
      have hknown := Document.knows_iff.mp (hdoc.child_known id a ha).1
      rw [List.mem_singleton.mp hb]
      exact hknown
    · exact h.siblings id

end Document.Arranged

namespace Markup

/-- The document of a state is arranged, and the elements that are open are those of the open tags.
-/
structure Arranges (before : List Token) (places : List Nat) (s : Assembly) : Prop where
  doc : s.doc.Arranged before places
  opened : ∃ tags, Opened before tags ∧
    s.opened = tags.map fun tag => ⟨nodeAt places tag.index, tag.name⟩

namespace Arranges

variable {before : List Token} {places : List Nat} {s next : Assembly}

theorem start : Arranges [] [] .start :=
  ⟨.empty, [], .nested .nil, rfl⟩

theorem current_eq {tags : List OpenTag}
    (h : s.opened = tags.map fun tag => ⟨nodeAt places tag.index, tag.name⟩) :
    s.current = holder places tags := by
  unfold Assembly.current
  rw [h]
  cases tags <;> rfl

theorem knows_holder (hsound : s.Sound) {tags : List OpenTag}
    (h : s.opened = tags.map fun tag => ⟨nodeAt places tag.index, tag.name⟩) :
    s.doc.knows (holder places tags) = true := by
  rw [← current_eq h]
  exact hsound.knows_current

/-- The elements that are open stay so when a further node has been made. -/
theorem opened_append (h : Arranges before places s) {tags : List OpenTag}
    (htags : Opened before tags)
    (hs : s.opened = tags.map fun tag => ⟨nodeAt places tag.index, tag.name⟩) (place : Nat) :
    s.opened = tags.map fun tag => ⟨nodeAt (places ++ [place]) tag.index, tag.name⟩ := by
  rw [hs]
  refine List.map_congr_left fun tag htag => ?_
  rw [Document.Arranged.nodeAt_append (h.doc.mem_places htags htag)]

/-- A token that makes a node and opens nothing. -/
theorem grow (h : Arranges before places s) (hsound : s.Sound) {token : Token} {data : NodeData}
    (hmakes : Makes before token data) (hopens : token.opens? = none)
    (hcloses : token.closes? = none) (hdoc : next.doc = s.doc.grow s.current data)
    (hopened : next.opened = s.opened) :
    Arranges (before ++ [token]) (places ++ [before.length]) next := by
  obtain ⟨tags, htags, hs⟩ := h.opened
  refine ⟨?_, tags, htags.flat hopens hcloses, ?_⟩
  · rw [hdoc, current_eq hs]
    exact h.doc.grow hsound.wellFormed htags (knows_holder hsound hs) hmakes
  · rw [hopened]
    exact h.opened_append htags hs _

/-- A token that makes nothing, opens nothing and closes nothing. -/
theorem skip (h : Arranges before places s) {token : Token}
    (hmakes : ∀ data, ¬ Makes before token data) (hopens : token.opens? = none)
    (hcloses : token.closes? = none) : Arranges (before ++ [token]) places s := by
  obtain ⟨tags, htags, hs⟩ := h.opened
  exact ⟨h.doc.skip hmakes, tags, htags.flat hopens hcloses, hs⟩

theorem text (h : Arranges before places s) (hsound : s.Sound) (htracks : Tracks before s)
    {raw : List Char} {pos : Position} (hnext : s.text raw pos = .ok next) :
    ∃ places', Arranges (before ++ [.text raw]) places' next := by
  obtain ⟨tags, htags, hs⟩ := h.opened
  unfold Assembly.text at hnext
  split at hnext
  · rename_i hopened
    have hnested : Nested before := htracks.nested_iff.mpr hopened
    split at hnext <;> cases hnext
    refine ⟨places, h.skip (fun data hmakes => ?_) rfl rfl⟩
    cases hmakes with
    | kept hinside _ _ => cases hinside.eq_nil_of_nested hnested
    | trimmed hinside _ _ _ => cases hinside.eq_nil_of_nested hnested
  · rename_i element outer hopened
    rw [hopened] at hs
    cases tags with
    | nil => cases hs
    | cons tag tags =>
      have hname : element.name = tag.name := by
        rw [List.map_cons, List.cons.injEq] at hs
        rw [hs.1]
      split at hnext
      · cases hnext
      · rename_i text hdecode
        have htext : expand (declaredBy before) raw = some text := by
          rw [← htracks.entities]
          exact Assembly.expand_of_decodeAt hdecode
        split at hnext
        · rename_i hkeeps
          cases hnext
          rw [hname] at hkeeps
          exact ⟨_, h.grow hsound (.kept htags htext hkeeps) rfl rfl rfl rfl⟩
        · rename_i hkeeps
          rw [hname, Bool.not_eq_true] at hkeeps
          split at hnext
          · rename_i htrim
            cases hnext
            refine ⟨places, h.skip (fun data hmakes => ?_) rfl rfl⟩
            cases hmakes with
            | kept hinside _ hkept =>
              cases hinside.unique htags
              rw [hkeeps] at hkept
              cases hkept
            | trimmed hinside htext' _ hleft =>
              cases htext.symm.trans htext'
              exact hleft htrim
          · rename_i hleft
            cases hnext
            exact ⟨_, h.grow hsound (.trimmed htags htext hkeeps hleft) rfl rfl rfl rfl⟩

theorem startTag (h : Arranges before places s) (hsound : s.Sound) {name : List Char}
    {written : List RawAttribute} {selfClosing : Bool}
    (hnext : s.startTag name written selfClosing = .ok next) :
    ∃ places', Arranges (before ++ [.startTag name written selfClosing]) places' next := by
  unfold Assembly.startTag at hnext
  split at hnext
  · cases hnext
  · rename_i attributes _
    cases hnext
    have hmakes : Makes before (.startTag name written selfClosing)
        (.element { name := String.ofList name, attributes }) := .element ..
    refine ⟨places ++ [before.length], ?_⟩
    cases selfClosing with
    | true => exact h.grow hsound hmakes rfl rfl rfl rfl
    | false =>
      obtain ⟨tags, htags, hs⟩ := h.opened
      refine ⟨?_, _, htags.enter name written, ?_⟩
      · show (s.doc.grow s.current _).Arranged _ _
        rw [current_eq hs]
        exact h.doc.grow hsound.wellFormed htags (knows_holder hsound hs) hmakes
      · have hnew : before.length ∉ places := fun hmem =>
          absurd (h.doc.within _ hmem) (Nat.lt_irrefl _)
        have hself : nodeAt (places ++ [before.length]) before.length = ⟨s.doc.nodes.size⟩ := by
          rw [nodeAt, List.idxOf_append_of_notMem hnew, h.doc.size]
          simp
        show ⟨⟨s.doc.nodes.size⟩, name⟩ :: s.opened = _
        rw [List.map_cons, hself, ← h.opened_append htags hs]

theorem endTag (h : Arranges before places s) {name : List Char} {pos : Position}
    (hnext : s.endTag name pos = .ok next) : Arranges (before ++ [.endTag name]) places next := by
  obtain ⟨tags, htags, hs⟩ := h.opened
  unfold Assembly.endTag at hnext
  split at hnext
  · cases hnext
  · rename_i element outer hopened
    split at hnext
    · rename_i hname
      cases hnext
      rw [hopened] at hs
      cases tags with
      | nil => cases hs
      | cons tag tags =>
        rw [List.map_cons, List.cons.injEq] at hs
        obtain ⟨rfl, hs⟩ := hs
        have hname : tag.name = name := hname
        subst hname
        exact ⟨h.doc.skip nofun, tags, htags.leave, hs⟩
    · split at hnext <;> cases hnext

/-- **Assembly keeps to the arrangement.** -/
theorem step (h : Arranges before places s) (hsound : s.Sound) (htracks : Tracks before s)
    {placed : PlacedToken} (hnext : s.step placed = .ok next) :
    ∃ places', Arranges (before ++ [placed.token]) places' next := by
  obtain ⟨token, start, stop⟩ := placed
  cases token with
  | text raw => exact h.text hsound htracks hnext
  | startTag name written selfClosing => exact h.startTag hsound hnext
  | endTag name => exact ⟨places, h.endTag hnext⟩
  | comment body =>
    cases hnext
    exact ⟨_, h.grow hsound (.comment body) rfl rfl rfl rfl⟩
  | cdata body =>
    cases hnext
    exact ⟨_, h.grow hsound (.cdata body) rfl rfl rfl rfl⟩
  | instruction name body =>
    cases hnext
    exact ⟨_, h.grow hsound (.instruction name body) rfl rfl rfl rfl⟩
  | doctype body =>
    have hnext : s.doctype body start = .ok next := hnext
    unfold Assembly.doctype at hnext
    split at hnext <;> cases hnext
    exact ⟨_, h.grow hsound (.doctype body) rfl rfl rfl rfl⟩

/-- What all tokens of a run leave is arranged by their places. -/
theorem run {tokens : List PlacedToken} {last : Assembly}
    (h : tokens.foldlM Assembly.step .start = .ok last) :
    ∃ places, Arranges (tokens.map PlacedToken.token) places last := by
  refine (foldlM_induct (I := fun done s => (∃ places,
    Arranges (done.map PlacedToken.token) places s) ∧ s.Sound ∧
      Tracks (done.map PlacedToken.token) s) ?_ ⟨⟨[], .start⟩, .start, .start⟩ h).1
  rintro done s placed next ⟨⟨places, hplaces⟩, hsound, htracks⟩ hnext
  rw [List.map_append]
  exact ⟨hplaces.step hsound htracks hnext, hsound.step hnext, (htracks.step_ok hnext).1⟩

end Arranges

end Markup

end SvgTidy
