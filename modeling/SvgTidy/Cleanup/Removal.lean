import SvgTidy.Pass.Hook

/-!
# Plugins that remove nodes by what they carry

Four cleanups remove every node whose payload they select, with all that is below it: doctypes, XML
declarations, comments and metadata.
-/

namespace SvgTidy.Cleanup

/-- The visitor that removes the nodes whose payload is selected. -/
def removing {S : Slots} (selects : NodeData → Bool) : Visitor S where
  Memory := Unit
  memory := ()
  hook
    | .enter, .node _ id _ => do
      if ((← Hook.document).data? id).any selects then Hook.edit (Document.remove id)
    | _, _ => pure ()

/-- Any doctype. -/
def selectsDoctype : NodeData → Bool
  | .doctype _ => true
  | _ => false

/-- The XML declaration. -/
def selectsXmlDeclaration : NodeData → Bool
  | .instruction i => i.name == "xml"
  | _ => false

/-- A comment. Where legal notices are to be kept, not one that begins with an exclamation mark. -/
def selectsComment (keepLegal : Bool) : NodeData → Bool
  | .comment text => !(keepLegal && text.toList.head? == some '!')
  | _ => false

/-- A metadata element. -/
def selectsMetadata : NodeData → Bool
  | .element e => e.is "metadata"
  | _ => false

end SvgTidy.Cleanup
