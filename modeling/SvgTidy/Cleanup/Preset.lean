import SvgTidy.Cleanup.Colors
import SvgTidy.Cleanup.EditorData
import SvgTidy.Cleanup.Removal
import SvgTidy.Cleanup.Structure

/-!
# The cleanups at hand

`Cleanup` names the plugins that come with the library, with their parameters, and `Cleanup.preset`
is the list of them that is used when nothing else is asked for.
-/

namespace SvgTidy

/-- A plugin of the library with its parameters. -/
inductive Cleanup where
  | removeDoctype
  | removeXmlDeclaration
  | removeComments (keepLegal : Bool := true)
  | removeMetadata
  /-- The namespaces given are treated like those of drawing programs. -/
  | removeEditorData (extraNamespaces : List String := [])
  | convertColors (rules : Cleanup.ColorRules := {})
  | collapseGroups
  | removeEmptyContainers
  deriving DecidableEq, Repr

namespace Cleanup

/-- The name of a plugin in settings and messages. -/
def name : Cleanup → String
  | removeDoctype => "removeDoctype"
  | removeXmlDeclaration => "removeXMLProcInst"
  | removeComments _ => "removeComments"
  | removeMetadata => "removeMetadata"
  | removeEditorData _ => "removeEditorsNSData"
  | convertColors _ => "convertColors"
  | collapseGroups => "collapseGroups"
  | removeEmptyContainers => "removeEmptyContainers"

/-- The visitor of a plugin. Colours that no rule shortens are not looked at. -/
def visitor? {S : Slots} : Cleanup → Option (Visitor S)
  | removeDoctype => some (removing selectsDoctype)
  | removeXmlDeclaration => some (removing selectsXmlDeclaration)
  | removeComments keepLegal => some (removing (selectsComment keepLegal))
  | removeMetadata => some (removing selectsMetadata)
  | removeEditorData extra => some (removingEditorData (editorNamespaces ++ extra))
  | convertColors rules =>
    if rules.shortHex || rules.shortName then some (convertingColors rules) else none
  | collapseGroups => some collapsingGroups
  | removeEmptyContainers => some removingEmptyContainers

/-- The plugin: a fresh visitor in every pass. -/
def plugin {S : Slots} (cleanup : Cleanup) : Plugin S where
  name := cleanup.name
  visitor _ _ context := (cleanup.visitor?, context)

/-- The plugins that run when nothing else is asked for, in their order. -/
def preset : List Cleanup :=
  [removeDoctype, removeXmlDeclaration, removeComments, removeMetadata, removeEditorData,
    convertColors, collapseGroups, removeEmptyContainers]

end Cleanup

end SvgTidy
