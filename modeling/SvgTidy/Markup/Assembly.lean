import SvgTidy.Document.Edit
import SvgTidy.Markup.Diagnostic
import SvgTidy.Markup.Reference
import SvgTidy.Markup.TokenStream
import SvgTidy.Markup.Verbatim

/-!
# From tokens to a document

`Assembly` is the state between two tokens: the document so far, the elements that are open,
innermost first, and the entities declared. `Assembly.step` takes the next token in; it refuses
tokens that do not nest, text outside of elements, a doctype in the wrong place, and references to
nothing. `Document.read` puts the steps together.

A text that ends in the middle of a piece of markup is read as if the piece were not there.
-/

namespace SvgTidy

namespace Markup

/-- A fault and where it is. -/
structure Flaw where
  fault : Fault
  pos : Position
  deriving DecidableEq, Repr

/-- How far a document has come, as far as doctype and text at the top level depend on it. -/
inductive Stage where
  /-- Neither a doctype nor an element. -/
  | start
  /-- A doctype, but no element. -/
  | declared
  /-- An element. -/
  | content
  deriving DecidableEq, Repr

/-- An element whose end tag is still to come. -/
structure OpenElement where
  id : NodeId
  name : List Char
  deriving DecidableEq

/-- The state between two tokens. -/
structure Assembly where
  doc : Document
  /-- The open elements, innermost first. -/
  opened : List OpenElement
  entities : EntityTable
  stage : Stage

namespace Assembly

/-- Before the first token. -/
def start : Assembly :=
  { doc := .empty, opened := [], entities := [], stage := .start }

/-- The node that takes in what comes next. -/
def current (s : Assembly) : NodeId :=
  match s.opened with
  | [] => Document.root
  | element :: _ => element.id

/-- Take in a node as the last child of the current one. -/
def grow (s : Assembly) (data : NodeData) : Assembly :=
  { s with doc := s.doc.grow s.current data }

/-- Replace the references in a text that begins at a position. -/
def decodeAt (s : Assembly) (raw : List Char) (pos : Position) : Except Flaw (List Char) :=
  match decode s.entities raw with
  | .ok text => .ok text
  | .error blameless => .error ⟨.badReference, pos.advance blameless⟩

/-- The attributes of a start tag. Of two attributes with one name the first counts, and the value
of the other is not looked at. -/
def attributesOf (s : Assembly) (written : List RawAttribute) : Except Flaw Attributes :=
  written.foldlM (fun known a =>
    let name := String.ofList a.name
    if known.contains name then .ok known
    else
      match s.decodeAt a.value a.pos with
      | .ok value => .ok (known.set name (String.ofList value))
      | .error flaw => .error flaw) .empty

/-- Take in text. Outside of elements only blanks may stand, and they are dropped. Inside an element
that does not keep its white space the text is trimmed, and dropped if nothing is left. -/
def text (s : Assembly) (raw : List Char) (pos : Position) : Except Flaw Assembly :=
  match s.opened with
  | [] =>
    if raw.all Text.isBlank then .ok s
    else
      .error ⟨if s.stage = .content then .textOutsideRoot else .textBeforeRoot,
        pos.advance (raw.takeWhile Text.isBlank)⟩
  | element :: _ =>
    match s.decodeAt raw pos with
    | .error flaw => .error flaw
    | .ok text =>
      if isTextElement (String.ofList element.name) then .ok (s.grow (.text (String.ofList text)))
      else
        match Text.trim text with
        | [] => .ok s
        | trimmed => .ok (s.grow (.text (String.ofList trimmed)))

/-- Take in a start tag. -/
def startTag (s : Assembly) (name : List Char) (written : List RawAttribute)
    (selfClosing : Bool) : Except Flaw Assembly :=
  match s.attributesOf written with
  | .error flaw => .error flaw
  | .ok attributes =>
    let id : NodeId := ⟨s.doc.nodes.size⟩
    let grown := s.grow (.element { name := String.ofList name, attributes })
    .ok { grown with
      opened := if selfClosing then s.opened else ⟨id, name⟩ :: s.opened
      stage := .content }

/-- Take in an end tag that ends at a position. -/
def endTag (s : Assembly) (name : List Char) (pos : Position) : Except Flaw Assembly :=
  match s.opened with
  | [] => .error ⟨.unmatchedEndTag (String.ofList name), pos⟩
  | element :: outer =>
    if element.name = name then .ok { s with opened := outer }
    else if outer.any (·.name = name) then .error ⟨.misplacedEndTag, pos⟩
    else .error ⟨.unmatchedEndTag (String.ofList name), pos⟩

/-- Take in a doctype. There may be one, and no element before it. -/
def doctype (s : Assembly) (body : List Char) (pos : Position) : Except Flaw Assembly :=
  if s.stage = .start then
    let grown := s.grow (.doctype (String.ofList body))
    .ok { grown with entities := .ofDoctype body, stage := .declared }
  else .error ⟨.misplacedDoctype, pos⟩

/-- Take in a token. -/
def step (s : Assembly) (placed : PlacedToken) : Except Flaw Assembly :=
  match placed.token with
  | .text raw => s.text raw placed.start
  | .startTag name attributes selfClosing => s.startTag name attributes selfClosing
  | .endTag name => s.endTag name placed.stop
  | .comment body => .ok (s.grow (.comment (String.ofList body)))
  | .cdata body => .ok (s.grow (.cdata (String.ofList body)))
  | .instruction name body =>
    .ok (s.grow (.instruction ⟨String.ofList name, String.ofList body⟩))
  | .doctype body => s.doctype body placed.start

end Assembly

/-- The document that a text writes, or what is wrong with it first. -/
def assemble (text : List Char) : Except Flaw Document :=
  let (tokens, failure) := tokenize text
  match tokens.foldlM Assembly.step .start with
  | .error flaw => .error flaw
  | .ok s =>
    match failure with
    | some (.faulty fault pos) => .error ⟨fault, pos⟩
    | _ =>
      if s.opened = [] then .ok s.doc
      else .error ⟨.unclosedElement, (Cursor.ofText text).endPos⟩

end Markup

/-- Read a document from its text. The path, if there is one, is named in the diagnostic. -/
def Document.read (source : String) (path : Option String) : Except Diagnostic Document :=
  match Markup.assemble source.toList with
  | .ok doc => .ok doc
  | .error flaw =>
    .error
      { reason := flaw.fault.reason
        line := flaw.pos.line
        column := flaw.pos.column
        source
        path }

end SvgTidy
