import SvgTidy.Document.Basic

/-!
# Editing a document

Creation of nodes, changes to their payloads, and moves in the tree.

A move is an `Editing` step: it may be refused with a `TreeError`, and it leaves a document behind
in either case, so that "a refused move changes nothing" is a statement about it and not a
consequence of its type. All moves of a single node come down to `insert` and `remove`:

* `insert parent index child` takes `child` from wherever it is; `index` counts without it;
* `append`, `insertBefore` and `insertAfter` compute the index;
* `replace`, `setChildren` and `replaceWithChildren` are sequences of these.
-/

namespace SvgTidy

/-- Why a move in the tree is refused. -/
inductive TreeError where
  | unknownNode (id : NodeId)
  | detached (id : NodeId)
  | rootNode
  | notAContainer (id : NodeId)
  | cycle (id : NodeId)
  | indexOutOfBounds (index length : Nat)
  deriving DecidableEq, Repr

/-- The text of a refusal. -/
def TreeError.message : TreeError → String
  | .unknownNode id => s!"unknown node {id.label}"
  | .detached id => s!"node {id.label} has no parent"
  | .rootNode => "the root node cannot be moved or removed"
  | .notAContainer id => s!"node {id.label} cannot have children"
  | .cycle id => s!"node {id.label} would become its own ancestor"
  | .indexOutOfBounds index length =>
    s!"index {index} is out of bounds for {length} children"

/-- A step on a document that may be refused. The document after a refusal counts, too. -/
abbrev Editing (α : Type) : Type :=
  ExceptT TreeError (StateM Document) α

namespace Document

/-- Change the entry of one node; an unknown identifier changes nothing. -/
def modify (doc : Document) (id : NodeId) (change : Node → Node) : Document :=
  ⟨doc.nodes.modify id.index change⟩

/-! ## Creation -/

/-- Add a detached node with this payload. -/
def create (doc : Document) (data : NodeData) : NodeId × Document :=
  (⟨doc.nodes.size⟩, ⟨doc.nodes.push { parent := none, children := [], data }⟩)

/-- Create a detached element. -/
def createElement (doc : Document) (element : Element) : NodeId × Document :=
  doc.create (.element element)

/-- Create a detached text node. -/
def createText (doc : Document) (value : String) : NodeId × Document :=
  doc.create (.text value)

/-- Create a detached CDATA section. -/
def createCdata (doc : Document) (value : String) : NodeId × Document :=
  doc.create (.cdata value)

/-- Create a detached comment. -/
def createComment (doc : Document) (value : String) : NodeId × Document :=
  doc.create (.comment value)

/-- Create a detached processing instruction. -/
def createInstruction (doc : Document) (instruction : Instruction) : NodeId × Document :=
  doc.create (.instruction instruction)

/-- Create a detached document type declaration. -/
def createDoctype (doc : Document) (value : String) : NodeId × Document :=
  doc.create (.doctype value)

/-- Create a node as the last child of another. -/
def grow (doc : Document) (parent : NodeId) (data : NodeData) : Document :=
  let id : NodeId := ⟨doc.nodes.size⟩
  let linked := doc.modify parent fun node => { node with children := node.children ++ [id] }
  ⟨linked.nodes.push { parent := some parent, children := [], data }⟩

/-! ## Payloads -/

/-- Change the element at a node, if it is one. -/
def updateElement (doc : Document) (id : NodeId) (change : Element → Element) : Document :=
  doc.modify id fun node => { node with data := node.data.mapElement change }

/-- Change the instruction at a node, if it is one. -/
def updateInstruction (doc : Document) (id : NodeId) (change : Instruction → Instruction) :
    Document :=
  doc.modify id fun node => { node with data := node.data.mapInstruction change }

/-- Change the character data of a node, if it has any. -/
def updateValue (doc : Document) (id : NodeId) (change : String → String) : Document :=
  doc.modify id fun node => { node with data := node.data.mapValue change }

/-! ## Moves -/

/-- Why `child` may not be placed under `parent`, if there is a reason. -/
def obstacle? (doc : Document) (parent child : NodeId) : Option TreeError :=
  match doc.node? parent with
  | none => some (.unknownNode parent)
  | some node =>
    if !doc.knows child then some (.unknownNode child)
    else if child = root then some .rootNode
    else if !node.data.isContainer then some (.notAContainer parent)
    else if child ∈ doc.chain parent then some (.cycle child)
    else none

/-- The children of a node without one of them. -/
def childrenWithout (doc : Document) (parent child : NodeId) : List NodeId :=
  (doc.children parent).filter (· != child)

/-- Cut the link between a node and its parent, if there is one. -/
def detach (doc : Document) (id : NodeId) : Document :=
  match doc.parent? id with
  | none => doc
  | some parent =>
    (doc.modify parent fun node =>
        { node with children := node.children.filter (· != id) }).modify id fun node =>
      { node with parent := none }

/-- Link a detached node to a parent at an index. -/
def attach (doc : Document) (parent : NodeId) (index : Nat) (child : NodeId) : Document :=
  (doc.modify parent fun node =>
      { node with children := node.children.insertIdx index child }).modify child fun node =>
    { node with parent := some parent }

/-- Place `child` at an index of `parent`'s children, taking it from wherever it was first. The
index refers to the children without `child`. -/
def insert (parent : NodeId) (index : Nat) (child : NodeId) : Editing Unit := do
  let doc ← get
  match doc.obstacle? parent child with
  | some error => throw error
  | none =>
    let length := (doc.childrenWithout parent child).length
    if length < index then throw (.indexOutOfBounds index length)
    set ((doc.detach child).attach parent index child)

/-- Place `child` last among `parent`'s children. -/
def append (parent child : NodeId) : Editing Unit := do
  let doc ← get
  match doc.obstacle? parent child with
  | some error => throw error
  | none => insert parent (doc.childrenWithout parent child).length child

/-- Place `child` beside `sibling`, `offset` places after it. A node beside itself stays put. The
child is detached first, so that the sibling's index is one without it. -/
def insertBeside (offset : Nat) (sibling child : NodeId) : Editing Unit := do
  if sibling = child then return
  let doc ← get
  match doc.parent? sibling with
  | none => throw (.detached sibling)
  | some parent =>
    match doc.obstacle? parent child with
    | some error => throw error
    | none =>
      set (doc.detach child)
      match (doc.detach child).index? sibling with
      | none => throw (.detached sibling)
      | some index => insert parent (index + offset) child

/-- Place `child` right before `sibling`. -/
def insertBefore (sibling child : NodeId) : Editing Unit :=
  insertBeside 0 sibling child

/-- Place `child` right after `sibling`. -/
def insertAfter (sibling child : NodeId) : Editing Unit :=
  insertBeside 1 sibling child

/-- Detach a node and with it its subtree. A detached node stays as it is. -/
def remove (id : NodeId) : Editing Unit := do
  let doc ← get
  if !doc.knows id then throw (.unknownNode id)
  if id = root then throw .rootNode
  set (doc.detach id)

/-- Put `new` where `old` is and detach `old`. -/
def replace (old new : NodeId) : Editing Unit := do
  if old = new then return
  insertBefore old new
  remove old

/-- Give a node exactly these children. Its children so far are detached first; of a child named
more than once the last place counts. -/
def setChildren (parent : NodeId) (children : List NodeId) : Editing Unit := do
  let doc ← get
  match children.findSome? (doc.obstacle? parent) with
  | some error => throw error
  | none =>
    set ((doc.children parent).foldl detach doc)
    children.forM (append parent)

/-- Move a node's children to the place of the node and detach the node. -/
def replaceWithChildren (id : NodeId) : Editing Unit := do
  let doc ← get
  if !doc.knows id then throw (.unknownNode id)
  if (doc.parent? id).isNone then throw (.detached id)
  (doc.children id).forM (insertBefore id)
  remove id

end Document

end SvgTidy
