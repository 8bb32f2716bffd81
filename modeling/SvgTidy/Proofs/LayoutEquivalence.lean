import SvgTidy.Proofs.Idempotence

/-!
# What the layout has to do with the content

Whatever the layout, what tidying gives is read again, and what is read is what the passes have
left, with texts joined that stand side by side. A pretty layout puts a line break and an
indentation between two such texts, and outside of the elements that keep their white space reading
takes these for a part of the joined text. `Tree.meetingsAll` lists the depths at which this
happens; elsewhere a layout leaves no trace in what is read.

Principal results: `Layout.joinAll_congr`, `Layout.gap_eq_of_numberAll` — two layouts join texts to
the same trees exactly if they put the same between texts that meet; `tidy_alike_iff` — when two
layouts give texts of the same content.
-/

namespace SvgTidy

open Markup

namespace Tree

/-- Whether a tree is a text. -/
def isText (t : Tree) : Bool :=
  t.data.kind = .text

/-- Whether a tree and the first of those after it are texts. -/
def meets (t : Tree) (others : List Tree) : Bool :=
  t.isText && others.head?.any isText

mutual

/-- The depths at which two texts stand side by side below a tree, outside of elements that keep
their white space. -/
def meetings (verbatim : Bool) (depth : Nat) : Tree → List Nat
  | .node _ (.element e) children =>
    meetingsAll (verbatim || isTextElement e.name) (depth + 1) children
  | _ => []

/-- The depths at which two texts stand side by side in some trees. -/
def meetingsAll (verbatim : Bool) (depth : Nat) : List Tree → List Nat
  | [] => []
  | t :: others =>
    (if !verbatim && meets t others then [depth] else []) ++ meetings verbatim depth t
      ++ meetingsAll verbatim depth others

end

theorem exists_text {t : Tree} (h : t.isText = true) :
    ∃ id value below, t = .node id (.text value) below := by
  obtain ⟨id, data, below⟩ := t
  cases data with
  | text value => exact ⟨id, value, below, rfl⟩
  | _ => cases h

end Tree

namespace Layout

variable {l l' : Layout} {verbatim : Bool} {depth : Nat}

/-- What a layout puts between two nodes side by side, where white space is not kept. -/
def gap (l : Layout) (depth : Nat) : List Char :=
  l.lineEnd false ++ l.lineStart false depth

theorem gap_verbatim (l : Layout) (depth : Nat) :
    l.lineEnd true ++ l.lineStart true depth = [] := by
  simp [lineEnd, lineStart]

/-! ## Layouts that agree -/

/-- Texts that do not meet are not joined. -/
theorem glue_of_apart (gap : List Char) {t : Tree} {others : List Tree}
    (h : t.meets others = false) : glue gap t others = t :: others := by
  rcases glue_cases gap t others with
      ⟨hglue, -⟩ | ⟨id, x, below, other, y, below', rest, rfl, rfl, -⟩
  · exact hglue
  · cases h

@[simp] theorem isText_join (l : Layout) (verbatim : Bool) (depth : Nat) (t : Tree) :
    (join l verbatim depth t).isText = t.isText := by
  rw [Tree.isText, Tree.isText, data_join]

/-- A joined text stands where a text stood. -/
theorem isText_head_joinAll (l : Layout) (verbatim : Bool) (depth : Nat) (trees : List Tree) :
    (joinAll l verbatim depth trees).head?.any Tree.isText = trees.head?.any Tree.isText := by
  cases trees with
  | nil => rfl
  | cons t others =>
    rw [joinAll]
    rcases glue_cases (l.lineEnd verbatim ++ l.lineStart verbatim depth) (join l verbatim depth t)
        (joinAll l verbatim depth others) with
        ⟨hglue, -⟩ | ⟨id, x, below, other, y, below', rest, htext, -, hglue⟩
    · rw [hglue]
      exact isText_join l verbatim depth t
    · rw [hglue]
      show true = t.isText
      rw [← isText_join l verbatim depth t, htext]
      rfl

theorem meets_join (l : Layout) (verbatim : Bool) (depth : Nat) (t : Tree) (others : List Tree) :
    (join l verbatim depth t).meets (joinAll l verbatim depth others) = t.meets others := by
  rw [Tree.meets, Tree.meets, isText_join, isText_head_joinAll]

mutual

theorem join_congr : ∀ (verbatim : Bool) (depth : Nat) (t : Tree),
    (∀ d ∈ t.meetings verbatim depth, l.gap d = l'.gap d) →
    join l verbatim depth t = join l' verbatim depth t
  | verbatim, depth, .node id data children, h => by
    cases data with
    | element e => rw [join, join, joinAll_congr _ _ children h]
    | _ => rfl

/-- **Layouts that put the same between texts that meet join them to the same trees.** -/
theorem joinAll_congr : ∀ (verbatim : Bool) (depth : Nat) (trees : List Tree),
    (∀ d ∈ Tree.meetingsAll verbatim depth trees, l.gap d = l'.gap d) →
    joinAll l verbatim depth trees = joinAll l' verbatim depth trees
  | _, _, [], _ => rfl
  | verbatim, depth, t :: others, h => by
    simp only [Tree.meetingsAll, List.mem_append] at h
    have ht := join_congr verbatim depth t fun d hd => h d (.inl (.inr hd))
    have hothers := joinAll_congr verbatim depth others fun d hd => h d (.inr hd)
    rw [joinAll, joinAll, ← ht, ← hothers]
    cases hmeets : t.meets others with
    | false =>
      have hapart (l : Layout) :
          (join l verbatim depth t).meets (joinAll l verbatim depth others) = false := by
        rw [meets_join, hmeets]
      rw [glue_of_apart _ (hapart l), glue_of_apart _ (hapart l)]
    | true =>
      cases verbatim with
      | true => rw [gap_verbatim, gap_verbatim]
      | false =>
        have hgap := h depth (.inl (.inl (by simp [hmeets])))
        rw [gap, gap] at hgap
        rw [hgap]

end

/-! ## Layouts that differ -/

/-- What is joined where two texts meet. -/
theorem exists_of_meets {t : Tree} {others : List Tree} (h : t.meets others = true) (l : Layout)
    (verbatim : Bool) (depth : Nat) :
    ∃ id x below other y below' rest, t = .node id (.text x) below ∧
      joinAll l verbatim depth others = .node other (.text y) below' :: rest ∧
      joinAll l verbatim depth (t :: others) = .node id (.text (String.ofList
        (x.toList ++ (l.lineEnd verbatim ++ l.lineStart verbatim depth) ++ y.toList))) [] :: rest := by
  rw [Tree.meets, Bool.and_eq_true] at h
  obtain ⟨id, x, below, rfl⟩ := Tree.exists_text h.1
  have hhead := h.2
  rw [← isText_head_joinAll l verbatim depth] at hhead
  cases hothers : joinAll l verbatim depth others with
  | nil =>
    rw [hothers] at hhead
    cases hhead
  | cons next rest =>
    rw [hothers] at hhead
    obtain ⟨other, y, below', rfl⟩ := Tree.exists_text hhead
    refine ⟨id, x, below, other, y, below', rest, rfl, rfl, ?_⟩
    rw [joinAll, hothers]
    rfl

theorem joinAll_of_apart {t : Tree} {others : List Tree} (h : t.meets others = false) (l : Layout)
    (verbatim : Bool) (depth : Nat) : joinAll l verbatim depth (t :: others) =
      join l verbatim depth t :: joinAll l verbatim depth others := by
  rw [joinAll, glue_of_apart _ (by rw [meets_join, h])]

/-- The more a layout puts between texts, the longer is the text that comes of them. -/
theorem length_head_joinAll_le
    (hgap : (l.lineEnd verbatim ++ l.lineStart verbatim depth).length ≤
      (l'.lineEnd verbatim ++ l'.lineStart verbatim depth).length) :
    ∀ {trees : List Tree} {id id' : NodeId} {x x' : String} {below below' rest rest' : List Tree},
      joinAll l verbatim depth trees = .node id (.text x) below :: rest →
      joinAll l' verbatim depth trees = .node id' (.text x') below' :: rest' →
      x.toList.length ≤ x'.toList.length
  | [], _, _, _, _, _, _, _, _, h, _ => by cases h
  | t :: others, id, id', x, x', below, below', rest, rest', h, h' => by
    cases hmeets : t.meets others with
    | false =>
      rw [joinAll_of_apart hmeets, List.cons.injEq] at h h'
      have hsame : (Tree.node id (.text x) below).data =
          (Tree.node id' (.text x') below').data := by
        rw [← h.1, ← h'.1, data_join, data_join]
      cases hsame
      exact Nat.le_refl _
    | true =>
      obtain ⟨_, first, _, _, _, _, _, ht, hothers, hjoin⟩ :=
        exists_of_meets hmeets l verbatim depth
      obtain ⟨_, first', _, _, _, _, _, ht', hothers', hjoin'⟩ :=
        exists_of_meets hmeets l' verbatim depth
      have hle := length_head_joinAll_le hgap hothers hothers'
      obtain rfl : first = first' := by
        rw [ht] at ht'
        cases ht'
        rfl
      rw [hjoin] at h
      rw [hjoin'] at h'
      cases h
      cases h'
      simp only [String.toList_ofList, List.length_append] at hgap ⊢
      omega

/-- Where two layouts give the same joined text they put the same into it. -/
theorem gap_eq_of_text_eq {g g' x y y' : List Char} (h : x ++ g ++ y = x ++ g' ++ y')
    (hle : g.length ≤ g'.length → y.length ≤ y'.length)
    (hle' : g'.length ≤ g.length → y'.length ≤ y.length) : g = g' ∧ y = y' := by
  rw [List.append_assoc, List.append_assoc, List.append_cancel_left_eq] at h
  have hsum := congrArg List.length h
  rw [List.length_append, List.length_append] at hsum
  have hlength : g.length = g'.length := by
    rcases Nat.le_total g.length g'.length with hshort | hshort
    · have := hle hshort
      omega
    · have := hle' hshort
      omega
  exact List.append_inj h hlength

/-- Nothing is below a text that has been joined. -/
theorem below_eq_nil_of_joinAll {parent : NodeData} {trees : List Tree}
    (hfits : ∀ t ∈ trees, t.Everywhere NodeData.Fits) (hadmits : ∀ t ∈ trees, parent.Admits t.data)
    {id : NodeId} {text : String} {below rest : List Tree}
    (h : joinAll l verbatim depth trees = .node id (.text text) below :: rest) : below = [] := by
  have hmem : Tree.node id (.text text) below ∈ joinAll l verbatim depth trees := by
    rw [h]
    exact List.mem_cons_self
  have hall := (readable_joinAll l verbatim depth parent trees hfits hadmits).1
  have hhere := (hall _ hmem).1.here.1
  exact List.map_eq_nil_iff.mp (hhere.eq_nil_of_leaf rfl)

mutual

theorem gap_eq_of_number (n : Nat) : ∀ (verbatim : Bool) (depth : Nat) (t : Tree),
    t.Everywhere NodeData.Fits →
    (join l verbatim depth t).number n = (join l' verbatim depth t).number n →
    ∀ d ∈ t.meetings verbatim depth, l.gap d = l'.gap d
  | verbatim, depth, .node id data children, hfits, h => by
    cases data with
    | element e =>
      rw [join, join, Tree.number, Tree.number, Tree.node.injEq] at h
      have hhere : (NodeData.element e).Fits (children.map Tree.data) := hfits.here
      exact gap_eq_of_numberAll (n + 1) _ _ (.element e) children hfits.children
        (fun t ht => hhere.admits _ (List.mem_map_of_mem ht)) h.2.2
    | _ => exact nofun

/-- **Layouts that join texts to the same trees put the same between texts that meet.** -/
theorem gap_eq_of_numberAll (n : Nat) : ∀ (verbatim : Bool) (depth : Nat) (parent : NodeData)
    (trees : List Tree), (∀ t ∈ trees, t.Everywhere NodeData.Fits) →
    (∀ t ∈ trees, parent.Admits t.data) →
    Tree.numberAll n (joinAll l verbatim depth trees) =
      Tree.numberAll n (joinAll l' verbatim depth trees) →
    ∀ d ∈ Tree.meetingsAll verbatim depth trees, l.gap d = l'.gap d
  | _, _, _, [], _, _, _ => nofun
  | verbatim, depth, parent, t :: others, hfits, hadmits, h => by
    have hfitsOthers : ∀ x ∈ others, x.Everywhere NodeData.Fits :=
      fun x hx => hfits x (List.mem_cons_of_mem _ hx)
    have hadmitsOthers : ∀ x ∈ others, parent.Admits x.data :=
      fun x hx => hadmits x (List.mem_cons_of_mem _ hx)
    intro d hd
    simp only [Tree.meetingsAll, List.mem_append] at hd
    cases hmeets : t.meets others with
    | false =>
      rw [joinAll_of_apart hmeets, joinAll_of_apart hmeets, Tree.numberAll, Tree.numberAll,
        List.cons.injEq] at h
      obtain ⟨hfirst, hrest⟩ := h
      have hlength := congrArg (fun t => t.ids.length) hfirst
      simp only [Tree.length_ids_number] at hlength
      rw [hlength] at hrest
      rcases hd with (hd | hd) | hd
      · simp [hmeets] at hd
      · exact gap_eq_of_number n verbatim depth t (hfits t List.mem_cons_self) hfirst d hd
      · exact gap_eq_of_numberAll _ verbatim depth parent others hfitsOthers hadmitsOthers hrest d hd
    | true =>
      obtain ⟨id, x, below, other, y, below', rest, rfl, hothers, hjoin⟩ :=
        exists_of_meets hmeets l verbatim depth
      obtain ⟨_, _, _, other', y', below'', rest', ht, hothers', hjoin'⟩ :=
        exists_of_meets hmeets l' verbatim depth
      cases ht
      rw [hjoin, hjoin'] at h
      simp only [Tree.numberAll, Tree.number, List.cons.injEq, Tree.node.injEq, NodeData.text.injEq,
        true_and, and_true, String.ofList_inj, Tree.ids, Tree.idsAll, List.length_cons,
        List.length_nil] at h
      obtain ⟨htext, hrest⟩ := h
      obtain ⟨hgap, hy⟩ := gap_eq_of_text_eq htext
        (fun hle => length_head_joinAll_le hle hothers hothers')
        fun hle => length_head_joinAll_le hle hothers' hothers
      obtain rfl := String.toList_inj.mp hy
      rcases hd with (hd | hd) | hd
      · cases verbatim with
        | true => simp at hd
        | false =>
          obtain rfl : d = depth := by simpa [hmeets] using hd
          exact hgap
      · cases hd
      · refine gap_eq_of_numberAll n verbatim depth parent others hfitsOthers hadmitsOthers ?_ d hd
        obtain rfl := below_eq_nil_of_joinAll hfitsOthers hadmitsOthers hothers
        obtain rfl := below_eq_nil_of_joinAll hfitsOthers hadmitsOthers hothers'
        rw [hothers, hothers', Tree.numberAll, Tree.numberAll]
        exact congrArg (_ :: ·) hrest

end

end Layout

section Tidying

variable {S : Slots} {text : String} {options : Options S} {cleanups : List Cleanup}

/-- **Formatting changes content only where texts meet.** With any list of cleanups that removes the
doctype, a text that is tidied in one layout is tidied in any other, and both results are read. They
are read as the same document exactly if the layouts put the same between two nodes side by side at
all depths at which, in what the passes leave, two texts stand side by side outside of the elements
that keep their white space. -/
theorem tidy_alike_iff {out : Output} (hplugins : options.plugins = cleanups.map Cleanup.plugin)
    (hdoctype : .removeDoctype ∈ cleanups) (hdata : options.dataUri = none) {layout : Layout}
    (hindent : ∀ c ∈ options.layout.indent.unit, Text.isBlank c = true)
    (hindent' : ∀ c ∈ layout.indent.unit, Text.isBlank c = true)
    (h : (tidy text options).1 = .ok out) (path path' : Option String) :
    ∃ doc other first second, Document.read text options.path = .ok doc ∧
      (tidy text { options with layout }).1 = .ok other ∧
      Document.read out.data path = .ok first ∧ Document.read other.data path' = .ok second ∧
      (first = second ↔ ∀ depth ∈ Tree.meetingsAll false 0 (doc.tidy options).doc.forest,
        options.layout.gap depth = layout.gap depth) := by
  obtain ⟨doc, hread⟩ := exists_read_of_tidy h
  obtain ⟨-, -, hforest⟩ := Document.tidy_spec hplugins (Document.wellFormed_of_read hread)
  obtain ⟨first, hfirst, hwritten⟩ := tidy_of_read hplugins hdata hread
  obtain rfl : first = out := Except.ok.inj (hfirst.symm.trans h)
  have hplugins' : ({ options with layout } : Options S).plugins = cleanups.map Cleanup.plugin :=
    hplugins
  obtain ⟨other, hother, hwritten'⟩ := tidy_of_read hplugins' hdata hread
  refine ⟨doc, other, .ofForest (options.layout.joinAll false 0 (Cleanup.swept cleanups doc)),
    .ofForest (layout.joinAll false 0 (Cleanup.swept cleanups doc)), hread, hother, ?_, ?_, ?_⟩
  · rw [hwritten]
    exact Document.read_text_swept hread (.inl hdoctype) hindent path
  · rw [hwritten']
    exact Document.read_text_swept hread (.inl hdoctype) hindent' path'
  · rw [hforest]
    refine ⟨fun hsame => ?_, fun hgaps => ?_⟩
    · have hwritable : Writable (Cleanup.swept cleanups doc) :=
        (Document.writable_of_read hread).sweepAll _
      refine Layout.gap_eq_of_numberAll 1 false 0 .root _ hwritable.fits
        (fun t ht => hwritable.admits _ (List.mem_map_of_mem ht)) ?_
      rw [← Document.forest_ofForest, hsame, Document.forest_ofForest]
    · rw [Layout.joinAll_congr false 0 _ hgaps]

theorem ok_of_toOption {ε α : Type} {result : Except ε α} {value : α}
    (h : result.toOption = some value) : result = .ok value := by
  cases result with
  | error error => cases h
  | ok value' => exact congrArg Except.ok (Option.some.inj h)

/-- Cleanups that remove what stands between texts. -/
def separators : List Cleanup :=
  [.removeDoctype, .removeComments]

/-- Nodes on lines of their own, or all on one line. -/
def inLines (pretty : Bool) : Options Slots.none where
  plugins := separators.map Cleanup.plugin
  layout := { pretty }

/-- A drawing with a comment between two texts. -/
def partedTexts : String :=
  "<svg>a<!--x-->b</svg>"

theorem tidy_alike_iff_partedTexts :
    (inLines false).plugins = separators.map Cleanup.plugin ∧ .removeDoctype ∈ separators ∧
      (inLines false).dataUri = none ∧
      (∀ c ∈ (inLines false).layout.indent.unit, Text.isBlank c = true) ∧
      (∀ c ∈ (inLines true).layout.indent.unit, Text.isBlank c = true) ∧
      ∃ out, (tidy partedTexts (inLines false)).1 = .ok out ∧
        ∃ doc other first second, Document.read partedTexts none = .ok doc ∧
          (tidy partedTexts (inLines true)).1 = .ok other ∧
          Document.read out.data none = .ok first ∧ Document.read other.data none = .ok second ∧
          (first = second ↔
            ∀ depth ∈ Tree.meetingsAll false 0 (doc.tidy (inLines false)).doc.forest,
              (inLines false).layout.gap depth = (inLines true).layout.gap depth) := by
  have hindent (pretty : Bool) : ∀ c ∈ (inLines pretty).layout.indent.unit, Text.isBlank c = true :=
    List.all_eq_true.mp (by decide +revert)
  have htidy : (tidy partedTexts (inLines false)).1.toOption.isSome = true := by decide +kernel
  refine ⟨rfl, by decide, rfl, hindent false, hindent true, ?_⟩
  cases hout : (tidy partedTexts (inLines false)).1 with
  | error error =>
    rw [hout] at htidy
    cases htidy
  | ok out =>
    exact ⟨out, rfl,
      tidy_alike_iff rfl (by decide) rfl (hindent false) (hindent true) hout none none⟩

-- a line break comes between the texts that the comment kept apart
theorem tidy_partedTexts :
    .removeDoctype ∈ separators ∧
      (∀ pretty, ∀ c ∈ (inLines pretty).layout.indent.unit, Text.isBlank c = true) ∧
      ∃ out other first second, (tidy partedTexts (inLines false)).1 = .ok out ∧
        (tidy partedTexts (inLines true)).1 = .ok other ∧
        Document.read out.data none = .ok first ∧ Document.read other.data none = .ok second ∧
        first ≠ second := by
  have hread (pretty : Bool) : ∃ out doc, (tidy partedTexts (inLines pretty)).1 = .ok out ∧
      Document.read out.data none = .ok doc ∧
      doc.data? ⟨2⟩ = some (.text (if pretty then "a\n    b" else "ab")) := by
    have hdata : ((tidy partedTexts (inLines pretty)).1.toOption.bind fun out =>
        (Document.read out.data none).toOption.bind fun doc => doc.data? ⟨2⟩) =
          some (.text (if pretty then "a\n    b" else "ab")) := by
      cases pretty <;> decide +kernel
    obtain ⟨out, hout, hdata⟩ := Option.bind_eq_some_iff.mp hdata
    obtain ⟨doc, hdoc, hdata⟩ := Option.bind_eq_some_iff.mp hdata
    exact ⟨out, doc, ok_of_toOption hout, ok_of_toOption hdoc, hdata⟩
  refine ⟨by decide, fun pretty => List.all_eq_true.mp (by decide +revert), ?_⟩
  obtain ⟨out, first, hout, hfirst, hbelow⟩ := hread false
  obtain ⟨other, second, hother, hsecond, hbelow'⟩ := hread true
  refine ⟨out, other, first, second, hout, hother, hfirst, hsecond, ?_⟩
  rintro rfl
  rw [hbelow] at hbelow'
  exact absurd hbelow' (by decide)

end Tidying

end SvgTidy
