import SvgTidy.Document.Basic

/-!
# A document as a tree

`Tree` is what a document says about a node and everything below it, without the table that holds
it. `Document.tree?` reads it off a node and `Document.forest` off the whole document; text output
is written from the forest.
-/

namespace SvgTidy

/-- A node with its identifier, its payload and the trees of its children. -/
inductive Tree where
  | node (id : NodeId) (data : NodeData) (children : List Tree)
  deriving Inhabited

namespace Tree

/-- The identifier at the top. -/
def id : Tree → NodeId
  | .node id _ _ => id

/-- The payload at the top. -/
def data : Tree → NodeData
  | .node _ data _ => data

/-- The trees right below the top. -/
def children : Tree → List Tree
  | .node _ _ children => children

end Tree

namespace Document

/-- The tree below a node, cut off below `depth` levels. An unknown node has none. -/
def treeTo (doc : Document) : Nat → NodeId → Option Tree
  | 0, _ => none
  | depth + 1, id =>
    (doc.data? id).map fun data => .node id data ((doc.children id).filterMap (treeTo doc depth))

/-- The tree at a node. No branch is longer than the table of nodes. -/
def tree? (doc : Document) (id : NodeId) : Option Tree :=
  doc.treeTo doc.nodes.size id

/-- The trees at the top level of the document. -/
def forest (doc : Document) : List Tree :=
  (doc.children root).filterMap doc.tree?

end Document

end SvgTidy
