import SvgTidy.Pass.Hook

/-!
# Groups and empty containers

Two cleanups work from the leaves up, on leaving an element: a group that says nothing about its
children gives way to them, and a container that holds nothing goes.
-/

namespace SvgTidy.Cleanup

/-- Elements that only hold others. -/
def containerElements : List String :=
  ["g", "defs", "symbol", "marker", "clipPath", "mask", "pattern"]

/-- A group without attributes. -/
def isPlainGroup (element : Element) : Bool :=
  element.is "g" && element.attributes.toList.isEmpty

/-- A container that no reference can name. -/
def isNamelessContainer (element : Element) : Bool :=
  containerElements.contains element.name && !element.hasAttribute "id"

/-- Whether the children of a node are kept in groups as they are: those of the root, and those of a
`switch`, which chooses among them. -/
def keepsGroups (doc : Document) (parent : NodeId) : Bool :=
  parent = Document.root || (doc.element? parent).any (·.is "switch")

/-- The visitor that replaces plain groups by their children. -/
def collapsingGroups {S : Slots} : Visitor S where
  Memory := Unit
  memory := ()
  hook
    | .leave, .node .element id parent => do
      let doc ← Hook.document
      if !keepsGroups doc parent && (doc.element? id).any isPlainGroup
          && doc.parent? id = some parent then
        Hook.edit (Document.replaceWithChildren id)
    | _, _ => pure ()

/-- The visitor that removes empty containers. -/
def removingEmptyContainers {S : Slots} : Visitor S where
  Memory := Unit
  memory := ()
  hook
    | .leave, .node .element id _ => do
      let doc ← Hook.document
      if (doc.children id).isEmpty && (doc.element? id).any isNamelessContainer
          && doc.isAttached id then
        Hook.edit (Document.remove id)
    | _, _ => pure ()

end SvgTidy.Cleanup
