import Mathlib.Data.List.Chain
import SvgTidy.Markup.Assembly
import SvgTidy.Proofs.Escapes
import SvgTidy.Proofs.Forest
import SvgTidy.Proofs.LegibleTokens

/-!
# Trees that a text can hold

Not every tree can be written and read again: names have to be names, bodies must not hold their
closing mark, and no text may stand where reading would drop or trim it. `Fits` says so of a node
and the payloads right below it, and `Tree.Everywhere` carries such a condition to all nodes.
`Spaced` is apart from it, because the cleanups keep the one but not the other.

On the other side `Assembly.plantAll` is the state after all tokens of some trees, and
`Assembly.Ready` what it takes for them to be read.

Principal results: `Ready.next`, `Ready.enter` — whoever is ready for trees is ready for the second
after the first, and for the children of an element after its start tag.
-/

namespace SvgTidy

open Markup

namespace NodeData

/-- A payload that reading can give. -/
def Legible : NodeData → Prop
  | .root => False
  | .element e => IsName e.name.toList ∧ ∀ a ∈ e.attributes.toList, IsName a.name.toList
  | .text value => value.toList ≠ []
  | .cdata value => (Token.cdata value.toList).Legible
  | .comment value => (Token.comment value.toList).Legible
  | .instruction i => (Token.instruction i.name.toList i.value.toList).Legible
  | .doctype value => (Token.doctype value.toList).Legible

/-- Whether white space right below a node is part of its text. -/
def keepsSpace : NodeData → Bool
  | .element e => isTextElement e.name
  | _ => false

/-- What may stand right below what, order aside. -/
def Admits : NodeData → NodeData → Prop
  | .root, .text _ => False
  | .root, _ => True
  | .element e, .text value =>
    isTextElement e.name = true ∨ Text.trim value.toList = value.toList
  | .element _, .doctype _ => False
  | .element _, _ => True
  | _, _ => False

/-- A node that can be read, as far as it depends on the payloads right below it. -/
structure Fits (data : NodeData) (below : List NodeData) : Prop where
  legible : data.Legible
  admits : ∀ child ∈ below, data.Admits child

/-- No two texts side by side. -/
def Spaced (below : List NodeData) : Prop :=
  below.IsChain fun a b => a.kind ≠ .text ∨ b.kind ≠ .text

/-- No doctype after an element or another doctype. -/
def DoctypeFirst (below : List NodeData) : Prop :=
  below.Pairwise fun a b => b.kind = .doctype → a.kind ≠ .element ∧ a.kind ≠ .doctype

theorem Fits.eq_nil_of_leaf {data : NodeData} {below : List NodeData} (h : data.Fits below)
    (hleaf : data.isContainer = false) : below = [] := by
  refine List.eq_nil_iff_forall_not_mem.mpr fun child hchild => ?_
  have := h.admits child hchild
  cases data with
  | root => cases hleaf
  | element _ => cases hleaf
  | _ => exact this

end NodeData

namespace Tree

/-- A condition on payload and payloads right below holds all over a tree. -/
inductive Everywhere (P : NodeData → List NodeData → Prop) : Tree → Prop where
  | node {id : NodeId} {data : NodeData} {children : List Tree}
      (here : P data (children.map Tree.data)) (below : ∀ t ∈ children, Everywhere P t) :
      Everywhere P (.node id data children)

theorem Everywhere.here {P : NodeData → List NodeData → Prop} {t : Tree} (h : t.Everywhere P) :
    P t.data (t.children.map Tree.data) := by
  cases h with
  | node here _ => exact here

theorem Everywhere.children {P : NodeData → List NodeData → Prop} {t : Tree} (h : t.Everywhere P) :
    ∀ child ∈ t.children, child.Everywhere P := by
  cases h with
  | node _ below => exact below

theorem Everywhere.mono {P Q : NodeData → List NodeData → Prop}
    (hPQ : ∀ d below, P d below → Q d below) {t : Tree} (h : t.Everywhere P) : t.Everywhere Q := by
  induction h with
  | node here _ ih => exact .node (hPQ _ _ here) ih

mutual

/-- Numbers do not matter to the condition. -/
theorem everywhere_number {P : NodeData → List NodeData → Prop} (next : Nat) :
    ∀ {t : Tree}, t.Everywhere P → (t.number next).Everywhere P
  | .node _ data children, h => by
    refine .node ?_ (everywhere_numberAll (next + 1) h.children)
    rw [map_data_numberAll]
    exact h.here

theorem everywhere_numberAll {P : NodeData → List NodeData → Prop} (next : Nat) :
    ∀ {trees : List Tree}, (∀ t ∈ trees, t.Everywhere P) →
      ∀ t ∈ numberAll next trees, t.Everywhere P
  | [], _ => nofun
  | t :: others, h => by
    intro x hx
    rcases List.mem_cons.mp hx with rfl | hx
    · exact everywhere_number next (h t List.mem_cons_self)
    · exact everywhere_numberAll _ (fun y hy => h y (List.mem_cons_of_mem _ hy)) x hx

end

/-- All nodes fit, and no two texts stand side by side. -/
def Readable (t : Tree) : Prop :=
  t.Everywhere fun data below => data.Fits below ∧ NodeData.Spaced below

end Tree

namespace Markup.Assembly

/-- The entities in force after a node. -/
def entitiesAfter (table : EntityTable) : NodeData → EntityTable
  | .doctype body => .ofDoctype body.toList
  | _ => table

/-- The stage after a node. -/
def stageAfter (stage : Stage) : NodeData → Stage
  | .doctype _ => .declared
  | .element _ => .content
  | _ => stage

/-- The state after trees have been taken in. -/
def plantAll (s : Assembly) (trees : List Tree) : Assembly :=
  { s with
    doc := s.doc.plantAll s.current trees
    entities := (trees.map Tree.data).foldl entitiesAfter s.entities
    stage := (trees.map Tree.data).foldl stageAfter s.stage }

@[simp] theorem plantAll_nil (s : Assembly) : s.plantAll [] = s := rfl

theorem plantAll_append (s : Assembly) (before after : List Tree) :
    s.plantAll (before ++ after) = (s.plantAll before).plantAll after := by
  have hcurrent : (s.plantAll before).current = s.current := rfl
  rw [plantAll, plantAll, hcurrent, Document.plantAll_append, List.map_append, List.foldl_append,
    List.foldl_append]
  rfl

/-- The state right after the start tag of an element with an end tag to come. -/
def descend (s : Assembly) (element : Element) : Assembly :=
  { s.grow (.element element) with
    opened := ⟨s.doc.fresh, element.name.toList⟩ :: s.opened
    stage := .content }

theorem foldl_entitiesAfter {below : List NodeData} (h : ∀ d ∈ below, d.kind ≠ .doctype)
    (table : EntityTable) : below.foldl entitiesAfter table = table := by
  induction below with
  | nil => rfl
  | cons d below ih =>
    have hd : entitiesAfter table d = table := by
      have := h d List.mem_cons_self
      cases d <;> first | rfl | exact absurd rfl this
    rw [List.foldl_cons, hd, ih fun x hx => h x (List.mem_cons_of_mem _ hx)]

theorem foldl_stageAfter {below : List NodeData} (h : ∀ d ∈ below, d.kind ≠ .doctype) :
    below.foldl stageAfter .content = .content := by
  induction below with
  | nil => rfl
  | cons d below ih =>
    have hd : stageAfter .content d = .content := by
      have := h d List.mem_cons_self
      cases d <;> first | rfl | exact absurd rfl this
    rw [List.foldl_cons, hd, ih fun x hx => h x (List.mem_cons_of_mem _ hx)]

/-- An element is planted by its start tag, its children and its end tag. -/
theorem plantAll_element (s : Assembly) (id : NodeId) (element : Element) {children : List Tree}
    (h : ∀ d ∈ children.map Tree.data, d.kind ≠ .doctype) :
    { (s.descend element).plantAll children with opened := s.opened } =
      s.plantAll [.node id (.element element) children] := by
  have hentities := foldl_entitiesAfter h s.entities
  have hstage := foldl_stageAfter h
  unfold plantAll
  simp only [descend, grow] at hentities hstage ⊢
  rw [hentities, hstage]
  rfl

/-- The innermost open element is this one; without one, none is open. -/
def Within (s : Assembly) : NodeData → Prop
  | .element e => ∃ id outer, s.opened = ⟨id, e.name.toList⟩ :: outer
  | _ => s.opened = []

/-- Trees are closed again: the innermost open element stays the same. -/
theorem Within.plantAll {s : Assembly} {parent : NodeData} (h : s.Within parent)
    (trees : List Tree) : (s.plantAll trees).Within parent := by
  cases parent <;> exact h

/-- What it takes for nodes with these payloads to be read below a given one. -/
structure Ready (s : Assembly) (parent : NodeData) (below : List NodeData) : Prop where
  within : s.Within parent
  admits : ∀ child ∈ below, parent.Admits child
  entities : s.entities.KeepsPredefined
  doctype : ∀ body, .doctype body ∈ below →
    EntityTable.KeepsPredefined (.ofDoctype body.toList) ∧ s.stage = .start
  order : NodeData.DoctypeFirst below

namespace Ready

variable {s : Assembly} {parent : NodeData} {below : List NodeData}

theorem first {data : NodeData} (h : s.Ready parent (data :: below)) : s.Ready parent [data] := by
  refine ⟨h.within, fun x hx => ?_, h.entities, fun body hbody => ?_, List.pairwise_singleton _ _⟩
  · exact h.admits x (List.mem_singleton.mp hx ▸ List.mem_cons_self)
  · exact h.doctype body (List.mem_singleton.mp hbody ▸ List.mem_cons_self)

theorem next {t : Tree} (h : s.Ready parent (t.data :: below)) :
    (s.plantAll [t]).Ready parent below := by
  obtain ⟨hfirst, horder⟩ := List.pairwise_cons.mp h.order
  refine ⟨h.within, fun x hx => h.admits x (List.mem_cons_of_mem _ hx), ?_, fun body hbody => ?_,
    horder⟩
  · show (entitiesAfter s.entities t.data).KeepsPredefined
    cases hd : t.data with
    | doctype body => exact (h.doctype body (by rw [hd]; exact List.mem_cons_self)).1
    | _ => exact h.entities
  · obtain ⟨hkeeps, hstage⟩ := h.doctype body (List.mem_cons_of_mem _ hbody)
    obtain ⟨helement, hdoctype⟩ := hfirst _ hbody rfl
    refine ⟨hkeeps, ?_⟩
    show stageAfter s.stage t.data = .start
    cases hd : t.data with
    | doctype _ => exact absurd (by rw [hd]; rfl) hdoctype
    | element _ => exact absurd (by rw [hd]; rfl) helement
    | _ => exact hstage

theorem doctype_free {element : Element}
    (h : ∀ child ∈ below, (NodeData.element element).Admits child) :
    ∀ child ∈ below, child.kind ≠ .doctype := by
  intro child hchild hkind
  have := h child hchild
  cases child with
  | doctype _ => exact this
  | _ => cases hkind

theorem enter {element : Element} (h : s.Ready parent below)
    {children : List NodeData}
    (hchildren : ∀ child ∈ children, (NodeData.element element).Admits child) :
    (s.descend element).Ready (.element element) children := by
  have hfree := doctype_free hchildren
  refine ⟨⟨_, _, rfl⟩, hchildren, h.entities, fun body hbody => absurd rfl (hfree _ hbody), ?_⟩
  exact List.pairwise_of_forall_mem_list fun _ _ b hb hkind => absurd hkind (hfree b hb)

end Ready

end Markup.Assembly

end SvgTidy
