/-!
# What can be wrong with a document's text

`Fault` lists the causes for which a text is refused, `Fault.reason` gives each its wording. The
first group concerns a single piece of markup, the second the way the pieces nest.
-/

namespace SvgTidy

/-- Why a text is refused. -/
inductive Fault where
  /-- An exclamation mark that begins no comment, CDATA section or doctype. -/
  | unknownDeclaration
  /-- A bracket that begins no markup at all. -/
  | strayBracket
  /-- Two hyphens inside a comment. -/
  | malformedComment
  /-- A processing instruction without a name. -/
  | namelessInstruction
  /-- An end tag whose name does not begin like a name. -/
  | badEndTagName
  /-- Anything but space between the name and the bracket of an end tag. -/
  | junkInEndTag
  /-- A tag name followed by a character that cannot follow it. -/
  | badTagName
  /-- A slash in a start tag that is not its end. -/
  | straySlash
  /-- An attribute right after the closing quote of another. -/
  | unspacedAttributes
  /-- An attribute that does not begin like a name, or whose name runs into a foreign character. -/
  | badAttributeName
  /-- An attribute name that no equals sign follows. -/
  | attributeWithoutValue
  /-- An attribute value that no quote opens. -/
  | unquotedValue
  /-- A reference that stands for nothing. -/
  | badReference
  /-- Text before the first element. -/
  | textBeforeRoot
  /-- Text at the top level after an element. -/
  | textOutsideRoot
  /-- An end tag for an element that is not open. -/
  | unmatchedEndTag (name : String)
  /-- An end tag for an open element other than the innermost. -/
  | misplacedEndTag
  /-- A doctype after another one or after an element. -/
  | misplacedDoctype
  /-- An element that is open when the text ends. -/
  | unclosedElement
  deriving DecidableEq, Repr

/-- The wording of a cause. -/
def Fault.reason : Fault → String
  | .unknownDeclaration => "Invalid markup declaration"
  | .strayBracket => "Unencoded <"
  | .malformedComment => "Malformed comment"
  | .namelessInstruction => "Invalid processing instruction"
  | .badEndTagName => "Invalid tagname in closing tag."
  | .junkInEndTag => "Invalid characters in closing tag"
  | .badTagName => "Invalid character in tag name"
  | .straySlash => "Forward-slash in opening tag not followed by >"
  | .unspacedAttributes => "No whitespace between attributes"
  | .badAttributeName => "Invalid attribute name"
  | .attributeWithoutValue => "Attribute without value"
  | .unquotedValue => "Unquoted attribute value"
  | .badReference => "Invalid character entity"
  | .textBeforeRoot => "Non-whitespace before first tag."
  | .textOutsideRoot => "Text data outside of root node."
  | .unmatchedEndTag name => s!"Unmatched closing tag: {name}"
  | .misplacedEndTag => "Unexpected close tag"
  | .misplacedDoctype => "Inappropriately located doctype declaration"
  | .unclosedElement => "Unclosed root tag"

end SvgTidy
