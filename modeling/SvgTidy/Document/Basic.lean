import SvgTidy.Document.Node

/-!
# Documents

A document is a table of nodes in creation order. Child lists are the owning direction; every
attached node also records its parent. Node 0 is the root. Nodes are never dropped from the table,
so an identifier stays valid; a detached node is one that the root does not reach.

This module holds the table and its navigation:

* `parent?`, `children`, `index?`, `previousSibling?`, `nextSibling?` — one step in the tree;
* `chain` — the way from a node up to the end of its parent links, which decides `isAttached`;
* `descendants` — the nodes below a node, in document order.

The last two walk the table with a budget of as many steps as it has nodes, which covers every chain
and every subtree of a document without cycles.
-/

namespace SvgTidy

/-- An entry of the table of nodes. -/
structure Node where
  parent : Option NodeId
  children : List NodeId
  data : NodeData
  deriving DecidableEq, Inhabited

/-- A document: its nodes in creation order. -/
structure Document where
  nodes : Array Node
  deriving DecidableEq

namespace Document

/-- The document that holds only the root. -/
def empty : Document :=
  ⟨#[{ parent := none, children := [], data := .root }]⟩

instance : Inhabited Document := ⟨empty⟩

/-- The identifier of the root. -/
def root : NodeId := ⟨0⟩

/-! ## Looking up one node -/

/-- The node under an identifier. -/
def node? (doc : Document) (id : NodeId) : Option Node :=
  doc.nodes[id.index]?

/-- Whether the document knows an identifier. -/
def knows (doc : Document) (id : NodeId) : Bool :=
  (doc.node? id).isSome

/-- The payload of a node. -/
def data? (doc : Document) (id : NodeId) : Option NodeData :=
  (doc.node? id).map (·.data)

/-- The kind of a node. -/
def kind? (doc : Document) (id : NodeId) : Option NodeKind :=
  (doc.data? id).map (·.kind)

/-- The element at a node. -/
def element? (doc : Document) (id : NodeId) : Option Element :=
  (doc.data? id).bind (·.element?)

/-- The instruction at a node. -/
def instruction? (doc : Document) (id : NodeId) : Option Instruction :=
  (doc.data? id).bind (·.instruction?)

/-- The character data of a node. -/
def value? (doc : Document) (id : NodeId) : Option String :=
  (doc.data? id).bind (·.value?)

/-- The parent of an attached node. -/
def parent? (doc : Document) (id : NodeId) : Option NodeId :=
  (doc.node? id).bind (·.parent)

/-- The children of a node; a node that cannot have any, or is unknown, has none. -/
def children (doc : Document) (id : NodeId) : List NodeId :=
  match doc.node? id with
  | some node => node.children
  | none => []

/-! ## Siblings -/

/-- The place of a node among its parent's children. -/
def index? (doc : Document) (id : NodeId) : Option Nat :=
  (doc.parent? id).bind fun parent => (doc.children parent).idxOf? id

/-- The sibling right after a node. -/
def nextSibling? (doc : Document) (id : NodeId) : Option NodeId := do
  let parent ← doc.parent? id
  let index ← doc.index? id
  (doc.children parent)[index + 1]?

/-- The sibling right before a node. -/
def previousSibling? (doc : Document) (id : NodeId) : Option NodeId := do
  let parent ← doc.parent? id
  let index ← doc.index? id
  if index = 0 then none else (doc.children parent)[index - 1]?

/-! ## Upwards -/

/-- At most `steps` nodes of the way up, starting with the node itself. -/
def climb (doc : Document) : Nat → NodeId → List NodeId
  | 0, _ => []
  | steps + 1, id =>
    id :: match doc.parent? id with
      | none => []
      | some parent => climb doc steps parent

/-- The node, its parent, and so on up to a node without parent. -/
def chain (doc : Document) (id : NodeId) : List NodeId :=
  doc.climb doc.nodes.size id

/-- Whether the root is reached going up. -/
def isAttached (doc : Document) (id : NodeId) : Bool :=
  (doc.chain id).contains root

/-! ## Downwards -/

/-- At most `steps` nodes of a walk in document order over the subtrees of the pending nodes. -/
def sweep (doc : Document) : Nat → List NodeId → List NodeId
  | 0, _ => []
  | _, [] => []
  | steps + 1, id :: pending => id :: sweep doc steps (doc.children id ++ pending)

/-- The nodes below a node in document order, the node itself left out. -/
def descendants (doc : Document) (id : NodeId) : List NodeId :=
  doc.sweep doc.nodes.size (doc.children id)

/-- The attached elements in document order. -/
def elements (doc : Document) : List (NodeId × Element) :=
  (doc.descendants root).filterMap fun id => (doc.element? id).map (id, ·)

end Document

end SvgTidy
