import SvgTidy.Pass.Hook
import SvgTidy.Text.Blank
import SvgTidy.Text.Split

/-!
# Shorter colours

A colour written as three or six hexadecimal digits becomes the keyword for it, where there is one
that is no longer, or three digits, where these say the same. This is done in the attributes that
hold a colour and in the declarations of a `style` attribute.
-/

namespace SvgTidy.Cleanup

/-- Attributes and style properties that hold a colour. -/
def colorProperties : List String :=
  ["fill", "stroke", "stop-color", "flood-color", "lighting-color", "color"]

/-- Six digits and the keyword for the colour. -/
def colorKeywords : List (String × String) := [
  ("f0ffff", "azure"), ("f5f5dc", "beige"), ("ffe4c4", "bisque"), ("a52a2a", "brown"),
  ("ff7f50", "coral"), ("ffd700", "gold"), ("808080", "gray"), ("008000", "green"),
  ("4b0082", "indigo"), ("fffff0", "ivory"), ("f0e68c", "khaki"), ("faf0e6", "linen"),
  ("800000", "maroon"), ("000080", "navy"), ("808000", "olive"), ("ffa500", "orange"),
  ("da70d6", "orchid"), ("cd853f", "peru"), ("ffc0cb", "pink"), ("dda0dd", "plum"),
  ("800080", "purple"), ("ff0000", "red"), ("fa8072", "salmon"), ("a0522d", "sienna"),
  ("c0c0c0", "silver"), ("fffafa", "snow"), ("d2b48c", "tan"), ("008080", "teal"),
  ("ff6347", "tomato"), ("ee82ee", "violet"), ("f5deb3", "wheat")]

/-- The keyword for a colour given by six digits. -/
def keyword? (digits : List Char) : Option (List Char) :=
  (colorKeywords.lookup (String.ofList digits)).map String.toList

/-- Which ways of shortening a colour are used. -/
structure ColorRules where
  /-- Three digits for six. -/
  shortHex : Bool := true
  /-- A keyword for digits. -/
  shortName : Bool := true
  deriving DecidableEq, Repr

namespace ColorRules

/-- A hexadecimal digit. -/
def isHexDigit (c : Char) : Bool :=
  c.isDigit || ('a' ≤ c && c ≤ 'f') || ('A' ≤ c && c ≤ 'F')

/-- Six lower-case digits for the three or six after the hash sign of a colour. -/
def sixDigits? (hex : List Char) : Option (List Char) :=
  if hex.all isHexDigit then
    let lower := hex.map Char.toLower
    if lower.length = 3 then some (lower.flatMap fun c => [c, c])
    else if lower.length = 6 then some lower
    else none
  else none

/-- Six digits, or three where every second one repeats the one before it. -/
def shortest : List Char → List Char
  | [r, r', g, g', b, b'] =>
    if r = r' ∧ g = g' ∧ b = b' then [r, g, b] else [r, r', g, g', b, b']
  | digits => digits

/-- A colour in its short form. What is not written in digits is only trimmed. -/
def convert (rules : ColorRules) (color : List Char) : List Char :=
  let color := Text.trim color
  match color with
  | '#' :: hex =>
    match sixDigits? hex with
    | none => color
    | some digits =>
      match if rules.shortName then keyword? digits else none with
      | some name => name
      | none => if rules.shortHex then '#' :: shortest digits else color
  | _ => color

/-- A declaration of a style in its short form. -/
def convertDeclaration (rules : ColorRules) (declaration : List Char) : List Char :=
  if ':' ∈ declaration then
    let property := Text.trim (declaration.takeWhile (· != ':'))
    let value := Text.trim ((declaration.dropWhile (· != ':')).drop 1)
    let value := if colorProperties.contains (String.ofList property) then rules.convert value
      else value
    property ++ ':' :: value
  else declaration

/-- A style in its short form: its declarations without blanks around their parts and without empty
ones. -/
def convertStyle (rules : ColorRules) (style : List Char) : List Char :=
  let declarations := ((Text.split ';' style).map Text.trim).filter (!·.isEmpty)
  [';'].intercalate (declarations.map rules.convertDeclaration)

/-- An attribute's value in its short form. -/
def convertValue (rules : ColorRules) (name value : String) : String :=
  if colorProperties.contains name then String.ofList (rules.convert value.toList)
  else if name = "style" then String.ofList (rules.convertStyle value.toList)
  else value

end ColorRules

/-- The visitor that shortens colours. -/
def convertingColors {S : Slots} (rules : ColorRules) : Visitor S where
  Memory := Unit
  memory := ()
  hook
    | .enter, .node .element id _ =>
      Hook.change (·.updateElement id (·.mapValues rules.convertValue))
    | _, _ => pure ()

end SvgTidy.Cleanup
