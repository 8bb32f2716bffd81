import SvgTidy.Document.Tree
import SvgTidy.Markup.Verbatim

/-!
# Writing a document

`Layout` holds the choices of form: whether nodes stand on lines of their own, how lines are
indented and ended, and how an element without children is written. Inside an element that keeps its
white space, everything stands on one line whatever the layout, because a line break would be text
there.

A pretty layout adds its indentation and line endings only between nodes outside of such elements,
where reading drops them again as long as they are blank.
-/

namespace SvgTidy

/-- What one level of indentation is made of. -/
inductive Indent where
  | spaces (count : Nat)
  | tab
  | custom (text : String)
  deriving DecidableEq, Repr

/-- The characters of one level of indentation. -/
def Indent.unit : Indent → List Char
  | .spaces count => List.replicate count ' '
  | .tab => ['\t']
  | .custom text => text.toList

/-- How a line ends. -/
inductive LineEnding where
  | lf
  | crlf
  deriving DecidableEq, Repr

/-- The characters that end a line. -/
def LineEnding.chars : LineEnding → List Char
  | .lf => ['\n']
  | .crlf => ['\r', '\n']

/-- The form in which a document is written. -/
structure Layout where
  /-- Give each node a line of its own, indented by its depth. -/
  pretty : Bool := false
  indent : Indent := .spaces 4
  lineEnding : LineEnding := .lf
  /-- End a text that is not empty with a line ending. -/
  finalNewline : Bool := false
  /-- Write an element without children as a single tag. -/
  shortTags : Bool := true
  deriving DecidableEq, Repr

namespace Markup

/-! ## Escaping -/

/-- A character of text: those with a meaning in markup are written as references. -/
def escapeChar : Char → List Char
  | '&' => "&amp;".toList
  | '<' => "&lt;".toList
  | '>' => "&gt;".toList
  | '\'' => "&apos;".toList
  | '"' => "&quot;".toList
  | c => [c]

/-- Text with references for the characters that need one. -/
def escapeText (text : List Char) : List Char :=
  text.flatMap escapeChar

/-- A character of a value in double quotes: as in text, but an apostrophe stands for itself. -/
def escapeValueChar (c : Char) : List Char :=
  if c = '\'' then [c] else escapeChar c

/-- A value with references for the characters that need one in double quotes. -/
def escapeValue (value : List Char) : List Char :=
  value.flatMap escapeValueChar

end Markup

namespace Layout

open Markup

/-- The indentation at the start of a line; none inside an element that keeps its white space. -/
def lineStart (l : Layout) (verbatim : Bool) (depth : Nat) : List Char :=
  if l.pretty && !verbatim then (List.replicate depth l.indent.unit).flatten else []

/-- The end of a line; none inside an element that keeps its white space. -/
def lineEnd (l : Layout) (verbatim : Bool) : List Char :=
  if l.pretty && !verbatim then l.lineEnding.chars else []

/-- An attribute and the space before it. -/
def tagAttribute (a : Attribute) : List Char :=
  ' ' :: a.name.toList ++ "=\"".toList ++ escapeValue a.value.toList ++ ['"']

/-- The beginning of a start tag, up to the attributes. -/
def tagHead (element : Element) : List Char :=
  '<' :: element.name.toList ++ element.attributes.toList.flatMap tagAttribute

/-- An end tag. -/
def tagEnd (element : Element) : List Char :=
  "</".toList ++ element.name.toList ++ ['>']

/-- An element without children. -/
def childless (l : Layout) (element : Element) : List Char :=
  if l.shortTags then tagHead element ++ "/>".toList
  else tagHead element ++ '>' :: tagEnd element

/-- A node that is no element. -/
def leaf : NodeData → List Char
  | .text value => escapeText value.toList
  | .cdata value => "<![CDATA[".toList ++ value.toList ++ "]]>".toList
  | .comment value => "<!--".toList ++ value.toList ++ "-->".toList
  | .doctype value => "<!DOCTYPE".toList ++ value.toList ++ ['>']
  | .instruction i =>
    "<?".toList ++ i.name.toList
      ++ (if i.value = "" then [] else ' ' :: i.value.toList) ++ "?>".toList
  | .root | .element _ => []

mutual

/-- The text of a tree, followed by `rest`. `verbatim` says that the tree stands inside an element
that keeps its white space. -/
def tree (l : Layout) (verbatim : Bool) (depth : Nat) : Tree → List Char → List Char
  | .node _ .root _, rest => rest
  | .node _ (.element element) [], rest =>
    l.lineStart verbatim depth ++ l.childless element ++ (l.lineEnd verbatim ++ rest)
  | .node _ (.element element) (child :: children), rest =>
    let inner := verbatim || isTextElement element.name
    l.lineStart verbatim depth ++ tagHead element ++ '>' :: (l.lineEnd inner
      ++ l.tree inner (depth + 1) child (l.trees inner (depth + 1) children
        (l.lineStart inner depth ++ tagEnd element ++ (l.lineEnd verbatim ++ rest))))
  | .node _ data _, rest =>
    l.lineStart verbatim depth ++ leaf data ++ (l.lineEnd verbatim ++ rest)

/-- The texts of trees one after the other, followed by `rest`. -/
def trees (l : Layout) (verbatim : Bool) (depth : Nat) : List Tree → List Char → List Char
  | [], rest => rest
  | t :: others, rest => l.tree verbatim depth t (l.trees verbatim depth others rest)

end

/-- A whole text: the trees at the top level, and the final line ending if the layout asks for it.
-/
def text (l : Layout) (forest : List Tree) : List Char :=
  let written := l.trees false 0 forest []
  if l.finalNewline && !written.isEmpty && written.getLast? != some '\n' then
    written ++ l.lineEnding.chars
  else written

end Layout

/-- Write a document as text. -/
def Document.write (doc : Document) (layout : Layout) : String :=
  String.ofList (layout.text doc.forest)

end SvgTidy
