import SvgTidy.Pass.Hook

/-!
# Editor data

Drawing programs keep data of their own in namespaces that no renderer reads. The namespaces are
declared on `svg` elements; this cleanup takes such declarations out, remembers the names they bind,
and removes the elements and attributes that use these names.
-/

namespace SvgTidy.Cleanup

/-- Namespaces of drawing programs. -/
def editorNamespaces : List String := [
  "http://creativecommons.org/ns#",
  "http://inkscape.sourceforge.net/DTD/sodipodi-0.dtd",
  "http://krita.org/namespaces/svg/krita",
  "http://ns.adobe.com/AdobeIllustrator/10.0/",
  "http://ns.adobe.com/AdobeSVGViewerExtensions/3.0/",
  "http://ns.adobe.com/Extensibility/1.0/",
  "http://ns.adobe.com/Flows/1.0/",
  "http://ns.adobe.com/GenericCustomNamespace/1.0/",
  "http://ns.adobe.com/Graphs/1.0/",
  "http://ns.adobe.com/ImageReplacement/1.0/",
  "http://ns.adobe.com/SaveForWeb/1.0/",
  "http://ns.adobe.com/Variables/1.0/",
  "http://ns.adobe.com/XPath/1.0/",
  "http://purl.org/dc/elements/1.1/",
  "http://schemas.microsoft.com/visio/2003/SVGExtensions/",
  "http://sodipodi.sourceforge.net/DTD/sodipodi-0.dtd",
  "http://taptrix.com/vectorillustrator/svg_extensions",
  "http://www.bohemiancoding.com/sketch/ns",
  "http://www.figma.com/figma/ns",
  "http://www.inkscape.org/namespaces/inkscape",
  "http://www.serif.com/",
  "http://www.vector.evaxdesign.com/myNamespace",
  "http://www.w3.org/1999/02/22-rdf-syntax-ns#",
  "https://boxy-svg.com"]

/-- The name that a namespace declaration binds, if the attribute is one. -/
def boundName? (a : Attribute) : Option String :=
  let mark := "xmlns:".toList
  if mark.isPrefixOf a.name.toList then some (String.ofList (a.name.toList.drop mark.length))
  else none

/-- Whether an attribute declares one of these namespaces. -/
def declares (namespaces : List String) (a : Attribute) : Bool :=
  (boundName? a).isSome && namespaces.contains a.value

/-- The names that an `svg` element binds to one of these namespaces. -/
def namesBound (namespaces : List String) (element : Element) : List String :=
  if element.is "svg" then
    (element.attributes.toList.filter (declares namespaces)).filterMap boundName?
  else []

/-- An `svg` element without its declarations of these namespaces; any other element as it is. -/
def withoutDeclarations (namespaces : List String) (element : Element) : Element :=
  if element.is "svg" then element.filterAttributes (!declares namespaces ·) else element

/-- Whether the namespace part of a name is among the given ones. -/
def usesName (names : List String) (name : String) : Bool :=
  (namespacePart? name).any names.contains

/-- The visitor that removes editor data. It remembers the names bound so far. -/
def removingEditorData {S : Slots} (namespaces : List String) : Visitor S where
  Memory := List String
  memory := []
  hook
    | .enter, .node .element id _ => do
      match (← Hook.document).element? id with
      | none => pure ()
      | some element =>
        let names := (← Hook.memory) ++ namesBound namespaces element
        Hook.remember names
        Hook.change (·.updateElement id (withoutDeclarations namespaces))
        if usesName names element.name then Hook.edit (Document.remove id)
        else
          Hook.change (·.updateElement id (·.filterAttributes fun a => !usesName names a.name))
    | _, _ => pure ()

end SvgTidy.Cleanup
