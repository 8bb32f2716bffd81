import SvgTidy.Proofs.CalmTrees
import SvgTidy.Proofs.WritableSweeps
import SvgTidy.Proofs.WrittenForests

/-!
# Texts side by side

After a sweep texts may stand side by side, where a node between them has gone or a group has given
way. Written one after the other they read as a single text, the blanks between them included.
`Layout.join` puts them together before writing: what is written stays the same, and the trees can be
read.

Principal results: `text_joinAll` — the same is written; `Writable.readableForest` — and it is read
as the trees with their texts joined; `calm_joinAll` — which are calm if they were before.
-/

namespace SvgTidy

open Markup

namespace Layout

/-- A tree before others, joined with the first of them if both are texts. -/
def glue (gap : List Char) : Tree → List Tree → List Tree
  | .node id (.text x) _, .node _ (.text y) _ :: others =>
    .node id (.text (String.ofList (x.toList ++ gap ++ y.toList))) [] :: others
  | t, others => t :: others

mutual

/-- The tree with the texts that stand side by side in it joined, as this layout writes them. -/
def join (l : Layout) (verbatim : Bool) (depth : Nat) : Tree → Tree
  | .node id (.element e) children =>
    .node id (.element e) (joinAll l (verbatim || isTextElement e.name) (depth + 1) children)
  | t => t

/-- The trees with the texts that stand side by side joined. -/
def joinAll (l : Layout) (verbatim : Bool) (depth : Nat) : List Tree → List Tree
  | [] => []
  | t :: others =>
    glue (l.lineEnd verbatim ++ l.lineStart verbatim depth) (join l verbatim depth t)
      (joinAll l verbatim depth others)

end

/-- Either two texts have become one, or a tree stands before others as it is. -/
theorem glue_cases (gap : List Char) (t : Tree) (others : List Tree) :
    (glue gap t others = t :: others ∧
      (t.data.kind ≠ .text ∨ ∀ next, others.head? = some next → next.data.kind ≠ .text)) ∨
    ∃ id x below other y below' rest, t = .node id (.text x) below ∧
      others = .node other (.text y) below' :: rest ∧
      glue gap t others =
        .node id (.text (String.ofList (x.toList ++ gap ++ y.toList))) [] :: rest := by
  obtain ⟨id, data, below⟩ := t
  cases data with
  | text x =>
    cases others with
    | nil => exact .inl ⟨rfl, .inr nofun⟩
    | cons next rest =>
      obtain ⟨other, data, below'⟩ := next
      cases data with
      | text y => exact .inr ⟨id, x, below, other, y, below', rest, rfl, rfl, rfl⟩
      | _ =>
        refine .inl ⟨rfl, .inr fun next hnext => ?_⟩
        cases hnext
        nofun
  | _ => exact .inl ⟨rfl, .inl nofun⟩

@[simp] theorem data_join (l : Layout) (verbatim : Bool) (depth : Nat) (t : Tree) :
    (join l verbatim depth t).data = t.data := by
  obtain ⟨id, data, below⟩ := t
  cases data <;> rfl

theorem exists_joinAll_cons (l : Layout) (verbatim : Bool) (depth : Nat) (t : Tree)
    (others : List Tree) :
    ∃ first rest, joinAll l verbatim depth (t :: others) = first :: rest := by
  rw [joinAll]
  rcases glue_cases (l.lineEnd verbatim ++ l.lineStart verbatim depth) (join l verbatim depth t)
      (joinAll l verbatim depth others) with
      ⟨hglue, -⟩ | ⟨id, x, below, other, y, below', rest, -, -, hglue⟩
  · exact ⟨_, _, hglue⟩
  · exact ⟨_, _, hglue⟩

/-! ## Writing -/

section Writing

variable {l : Layout}

theorem trees_glue (hindent : Text.Blank l.indent.unit) (verbatim : Bool) (depth : Nat) (t : Tree)
    (others : List Tree) (rest : List Char) :
    l.trees verbatim depth (glue (l.lineEnd verbatim ++ l.lineStart verbatim depth) t others) rest =
      l.tree verbatim depth t (l.trees verbatim depth others rest) := by
  rcases glue_cases (l.lineEnd verbatim ++ l.lineStart verbatim depth) t others with
      ⟨hglue, -⟩ | ⟨id, x, below, other, y, below', others', rfl, rfl, hglue⟩
  · rw [hglue, Layout.trees]
  · have hgap : escapeText (l.lineEnd verbatim ++ l.lineStart verbatim depth) =
        l.lineEnd verbatim ++ l.lineStart verbatim depth :=
      escapeText_blank ((gap_lineEnd l verbatim).append (gap_lineStart hindent verbatim depth)).blank
    have hleaf : leaf (.text (String.ofList
        (x.toList ++ (l.lineEnd verbatim ++ l.lineStart verbatim depth) ++ y.toList))) =
        escapeText x.toList ++ (l.lineEnd verbatim ++ l.lineStart verbatim depth) ++
          escapeText y.toList := by
      show escapeText _ = _
      rw [String.toList_ofList, escapeText_append, escapeText_append, hgap]
    rw [hglue, Layout.trees, Layout.trees]
    show l.lineStart verbatim depth ++ leaf _ ++ _ =
      l.lineStart verbatim depth ++ escapeText x.toList ++ (l.lineEnd verbatim ++
        (l.lineStart verbatim depth ++ escapeText y.toList ++ (l.lineEnd verbatim ++ _)))
    rw [hleaf]
    simp only [List.append_assoc]

mutual

theorem tree_join (hindent : Text.Blank l.indent.unit) (verbatim : Bool) (depth : Nat)
    (rest : List Char) : ∀ t : Tree,
    l.tree verbatim depth (join l verbatim depth t) rest = l.tree verbatim depth t rest
  | .node id data children => by
    cases data with
    | element e =>
      cases children with
      | nil => rfl
      | cons child others =>
        have ih (tail : List Char) := trees_joinAll hindent (verbatim || isTextElement e.name)
          (depth + 1) tail (child :: others)
        obtain ⟨first, after, hcons⟩ :=
          exists_joinAll_cons l (verbatim || isTextElement e.name) (depth + 1) child others
        rw [hcons] at ih
        simp only [Layout.trees] at ih
        simp only [join, hcons, Layout.tree, ih]
    | _ => rfl

theorem trees_joinAll (hindent : Text.Blank l.indent.unit) (verbatim : Bool) (depth : Nat)
    (rest : List Char) : ∀ trees : List Tree,
    l.trees verbatim depth (joinAll l verbatim depth trees) rest = l.trees verbatim depth trees rest
  | [] => rfl
  | t :: others => by
    rw [joinAll, trees_glue hindent, tree_join hindent verbatim depth _ t,
      trees_joinAll hindent verbatim depth rest others, Layout.trees]

end

/-- **Joining texts does not change what is written.** -/
theorem text_joinAll (hindent : Text.Blank l.indent.unit) (trees : List Tree) :
    l.text (joinAll l false 0 trees) = l.text trees := by
  rw [Layout.text, Layout.text, trees_joinAll hindent]

end Writing

/-! ## Reading -/

/-- Two texts that fit are one text that fits, whatever stands between them. -/
theorem admits_glue {parent : NodeData} {x y : String} (gap : List Char)
    (hx : parent.Admits (.text x)) (hy : parent.Admits (.text y)) (hxne : x.toList ≠ [])
    (hyne : y.toList ≠ []) :
    parent.Admits (.text (String.ofList (x.toList ++ gap ++ y.toList))) := by
  cases parent with
  | element e =>
    cases htext : isTextElement e.name with
    | true => exact .inl htext
    | false =>
      have htrim := (hx.resolve_left (by rw [htext]; exact Bool.false_ne_true))
      have htrim' := (hy.resolve_left (by rw [htext]; exact Bool.false_ne_true))
      refine .inr ?_
      rw [String.toList_ofList]
      refine Text.trim_eq_self_iff.mpr ⟨fun c hc => ?_, fun c hc => ?_⟩
      · obtain ⟨first, rest, hcons⟩ := List.exists_cons_of_ne_nil hxne
        refine (Text.trim_eq_self_iff.mp htrim).1 c ?_
        rw [hcons] at hc ⊢
        exact hc
      · refine (Text.trim_eq_self_iff.mp htrim').2 c ?_
        rwa [List.getLast?_append_of_ne_nil _ hyne] at hc
  | _ => exact hx

/-- A tree that fits, before others without texts side by side, fits when it is joined. -/
theorem spaced_glue (gap : List Char) {t : Tree} {others : List Tree}
    (h : NodeData.Spaced (others.map Tree.data)) :
    NodeData.Spaced ((glue gap t others).map Tree.data) := by
  rcases glue_cases gap t others with
      ⟨hglue, hapart⟩ | ⟨id, x, below, other, y, below', rest, rfl, rfl, hglue⟩
  · rw [hglue, List.map_cons]
    refine List.isChain_cons.mpr ⟨fun next hnext => ?_, h⟩
    rw [List.head?_map, Option.mem_def, Option.map_eq_some_iff] at hnext
    obtain ⟨tree, htree, rfl⟩ := hnext
    exact hapart.imp_right fun hall => hall tree htree
  · rw [hglue, List.map_cons]
    obtain ⟨hfirst, hrest⟩ := List.isChain_cons.mp h
    exact List.isChain_cons.mpr ⟨fun next hnext => hfirst next hnext, hrest⟩

theorem readable_text (id : NodeId) {value : String} (h : value.toList ≠ []) :
    (Tree.node id (.text value) []).Readable :=
  .node ⟨⟨h, nofun⟩, .nil⟩ nofun

mutual

theorem readable_join (l : Layout) (verbatim : Bool) (depth : Nat) : ∀ t : Tree,
    t.Everywhere NodeData.Fits → (join l verbatim depth t).Readable
  | .node id data children, h => by
    have hhere : data.Fits (children.map Tree.data) := h.here
    cases data with
    | element e =>
      have ⟨hall, hspaced⟩ := readable_joinAll l (verbatim || isTextElement e.name) (depth + 1)
        (.element e) children h.children fun t ht =>
          hhere.admits _ (List.mem_map_of_mem ht)
      refine .node ⟨⟨hhere.legible, fun d hd => ?_⟩, hspaced⟩ fun t ht => (hall t ht).1
      obtain ⟨t, ht, rfl⟩ := List.mem_map.mp hd
      exact (hall t ht).2
    | root => exact hhere.legible.elim
    | _ =>
      obtain rfl : children = [] := List.map_eq_nil_iff.mp (hhere.eq_nil_of_leaf rfl)
      exact .node ⟨hhere, .nil⟩ nofun

/-- **Trees that fit below a node can be read once their texts are joined.** -/
theorem readable_joinAll (l : Layout) (verbatim : Bool) (depth : Nat) (parent : NodeData) :
    ∀ trees : List Tree, (∀ t ∈ trees, t.Everywhere NodeData.Fits) →
      (∀ t ∈ trees, parent.Admits t.data) →
      (∀ t ∈ joinAll l verbatim depth trees, t.Readable ∧ parent.Admits t.data) ∧
        NodeData.Spaced ((joinAll l verbatim depth trees).map Tree.data)
  | [], _, _ => ⟨nofun, .nil⟩
  | t :: others, hfits, hadmits => by
    obtain ⟨hall, hspaced⟩ := readable_joinAll l verbatim depth parent others
      (fun x hx => hfits x (List.mem_cons_of_mem _ hx))
      fun x hx => hadmits x (List.mem_cons_of_mem _ hx)
    have ht := readable_join l verbatim depth t (hfits t List.mem_cons_self)
    have hadmitsT : parent.Admits (join l verbatim depth t).data := by
      rw [data_join]
      exact hadmits t List.mem_cons_self
    rw [joinAll]
    refine ⟨fun x hx => ?_, spaced_glue _ hspaced⟩
    rcases glue_cases (l.lineEnd verbatim ++ l.lineStart verbatim depth) (join l verbatim depth t)
        (joinAll l verbatim depth others) with
        ⟨hglue, -⟩ | ⟨id, x', below, other, y, below', rest, htree, hothers, hglue⟩
    · rw [hglue] at hx
      rcases List.mem_cons.mp hx with rfl | hx
      · exact ⟨ht, hadmitsT⟩
      · exact hall x hx
    · rw [hglue] at hx
      rw [htree] at ht hadmitsT
      rw [hothers] at hall
      obtain ⟨hy, hadmitsY⟩ := hall _ List.mem_cons_self
      have hxne : x'.toList ≠ [] := ht.here.1.legible
      rcases List.mem_cons.mp hx with rfl | hx
      · refine ⟨readable_text id ?_, admits_glue _ hadmitsT hadmitsY hxne hy.here.1.legible⟩
        rw [String.toList_ofList]
        simp [hxne]
      · exact hall x (List.mem_cons_of_mem _ hx)

end

/-- Without texts nothing is joined. -/
theorem map_data_joinAll (l : Layout) (verbatim : Bool) (depth : Nat) : ∀ trees : List Tree,
    (∀ t ∈ trees, t.data.kind ≠ .text) →
    (joinAll l verbatim depth trees).map Tree.data = trees.map Tree.data
  | [], _ => rfl
  | t :: others, h => by
    rw [joinAll]
    rcases glue_cases (l.lineEnd verbatim ++ l.lineStart verbatim depth) (join l verbatim depth t)
        (joinAll l verbatim depth others) with
        ⟨hglue, -⟩ | ⟨id, x, below, other, y, below', rest, htree, -, -⟩
    · rw [hglue, List.map_cons, List.map_cons, data_join,
        map_data_joinAll l verbatim depth others fun x hx => h x (List.mem_cons_of_mem _ hx)]
    · refine absurd ?_ (h t List.mem_cons_self)
      rw [← data_join l verbatim depth t, htree]
      rfl

end Layout

/-- **What fits can be read once its texts are joined.** -/
theorem Writable.readableForest {trees : List Tree} (h : Writable trees)
    (hkeeps : ∀ body, .doctype body ∈ trees.map Tree.data →
      EntityTable.KeepsPredefined (.ofDoctype body.toList)) (l : Layout) :
    ReadableForest (l.joinAll false 0 trees) := by
  obtain ⟨hall, -⟩ := Layout.readable_joinAll l false 0 .root trees h.fits fun t ht =>
    h.admits _ (List.mem_map_of_mem ht)
  have hdata := Layout.map_data_joinAll l false 0 trees fun t ht hkind => by
    have hadmits := h.admits _ (List.mem_map_of_mem ht)
    cases hd : t.data with
    | text _ =>
      rw [hd] at hadmits
      exact hadmits
    | _ =>
      rw [hd] at hkind
      cases hkind
  refine ⟨fun t ht => (hall t ht).1, fun data hmem => ?_, ?_, fun body hbody => ?_⟩
  · obtain ⟨t, ht, rfl⟩ := List.mem_map.mp hmem
    exact (hall t ht).2
  · rw [hdata]
    exact h.order
  · rw [hdata] at hbody
    exact hkeeps body hbody

namespace Cleanup

variable {jobs : List Job}

/-- No job has anything to do with a text. -/
theorem Job.settled_text (job : Job) (value : String) : job.Settled (.text value) := by
  cases job with
  | removal selection => exact selection.text value
  | editorData _ _ => exact nofun
  | colors _ => exact nofun
  | _ => trivial

mutual

theorem calm_join (l : Layout) (verbatim : Bool) (depth : Nat) {fixed : Bool} : ∀ {t : Tree},
    Calm jobs fixed t → Calm jobs fixed (l.join verbatim depth t)
  | .node id data children, h => by
    cases h with
    | leaf hkind hsettled =>
      cases data with
      | element e => exact absurd rfl hkind
      | _ => exact .leaf hkind hsettled
    | element hsettled hgives hpruned hbelow =>
      refine .element hsettled hgives ?_ (calm_joinAll l _ _ hbelow)
      cases children with
      | nil => exact hpruned
      | cons child others =>
        obtain ⟨first, rest, hcons⟩ := l.exists_joinAll_cons (verbatim || isTextElement _) (depth + 1)
          child others
        rw [hcons]
        exact hpruned

/-- **Joining texts gives the jobs nothing to do.** -/
theorem calm_joinAll (l : Layout) (verbatim : Bool) (depth : Nat) {fixed : Bool} :
    ∀ {trees : List Tree}, (∀ t ∈ trees, Calm jobs fixed t) →
      ∀ t ∈ l.joinAll verbatim depth trees, Calm jobs fixed t
  | [], _ => nofun
  | t :: others, h => by
    have hall := calm_joinAll l verbatim depth fun x hx => h x (List.mem_cons_of_mem _ hx)
    intro x hx
    rw [Layout.joinAll] at hx
    rcases Layout.glue_cases (l.lineEnd verbatim ++ l.lineStart verbatim depth)
        (l.join verbatim depth t) (l.joinAll verbatim depth others) with
        ⟨hglue, -⟩ | ⟨id, x', below, other, y, below', rest, -, hothers, hglue⟩
    · rw [hglue] at hx
      rcases List.mem_cons.mp hx with rfl | hx
      · exact calm_join l verbatim depth (h t List.mem_cons_self)
      · exact hall x hx
    · rw [hglue] at hx
      rcases List.mem_cons.mp hx with rfl | hx
      · exact .leaf nofun fun job _ => job.settled_text _
      · rw [hothers] at hall
        exact hall x (List.mem_cons_of_mem _ hx)

end

end Cleanup

end SvgTidy
