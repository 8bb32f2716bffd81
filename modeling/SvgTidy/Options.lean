import SvgTidy.Cleanup.Preset
import SvgTidy.DataUri
import SvgTidy.Markup.Assembly
import SvgTidy.Pass.Repeat
import SvgTidy.Text.Quoted

/-!
# Tidying a text

The way from text to text: read, run the plugins, write, and wrap the result if that is asked for.
`Options` holds all choices of a call, and `Options.describe` shows them on one line.
-/

namespace SvgTidy

/-- The choices of a call. -/
structure Options (S : Slots) where
  /-- Where the text came from; shown in diagnostics and told to plugins. -/
  path : Option String := none
  /-- Repeat passes until the output stops changing. -/
  multipass : Bool := false
  /-- The plugins in the order in which they run. -/
  plugins : List (Plugin S) := Cleanup.preset.map Cleanup.plugin
  layout : Layout := {}
  /-- Wrap the output in a data URI. -/
  dataUri : Option DataUri := none

/-- Why a text was not tidied. -/
inductive TidyError where
  /-- It was refused. -/
  | refused (diagnostic : Diagnostic)
  /-- A pass failed. -/
  | pass (error : PassError)
  deriving DecidableEq, Repr

/-- A tidied text, and the number of passes it took. -/
structure Output where
  data : String
  passes : Nat
  deriving DecidableEq, Repr

/-- Run the passes of a call on a document. -/
def Document.tidy {S : Slots} (doc : Document) (options : Options S) : Settled S Unit :=
  Pass.all .none options.plugins options.path options.layout options.multipass doc ()

/-- Tidy a text. The shared context of the passes comes with the result; it is empty where none ran.
-/
def tidy {S : Slots} (text : String) (options : Options S) :
    Except TidyError Output × Context S :=
  match Document.read text options.path with
  | .error diagnostic => (.error (.refused diagnostic), .empty)
  | .ok doc =>
    let settled := doc.tidy options
    match settled.result with
    | .error error => (.error (.pass error), settled.context)
    | .ok passes =>
      let written := settled.doc.write options.layout
      let data := match options.dataUri with
        | some kind => kind.encode written
        | none => written
      (.ok { data, passes }, settled.context)

/-- Tidy a text with the default options. -/
def minify (text : String) : Except TidyError String :=
  (tidy text ({} : Options Slots.none)).1.map (·.data)

/-! ## Showing options -/

/-- An optional value as shown. -/
def describeOption : Option String → String
  | none => "None"
  | some text => "Some(" ++ text ++ ")"

/-- A truth value as shown. -/
def describeBool : Bool → String
  | true => "true"
  | false => "false"

/-- An indentation as shown. -/
def Indent.describe : Indent → String
  | .spaces count => s!"Spaces({count})"
  | .tab => "Tab"
  | .custom text => "Custom(" ++ Text.quote text ++ ")"

/-- A line ending as shown. -/
def LineEnding.describe : LineEnding → String
  | .lf => "Lf"
  | .crlf => "Crlf"

/-- A kind of data URI as shown. -/
def DataUri.describe : DataUri → String
  | .base64 => "Base64"
  | .enc => "Enc"
  | .unenc => "Unenc"

/-- Fields with a name before them as shown. -/
def describeFields (name : String) (fields : List (String × String)) : String :=
  name ++ " \x7b " ++ ", ".intercalate (fields.map fun (field, value) => field ++ ": " ++ value)
    ++ " \x7d"

/-- A layout as shown. -/
def Layout.describe (layout : Layout) : String :=
  describeFields "SerializeOptions" [
    ("pretty", describeBool layout.pretty),
    ("indent", layout.indent.describe),
    ("eol", layout.lineEnding.describe),
    ("final_newline", describeBool layout.finalNewline),
    ("use_short_tags", describeBool layout.shortTags)]

/-- The options on one line. Of the plugins, the names are shown. -/
def Options.describe {S : Slots} (options : Options S) : String :=
  describeFields "Options" [
    ("path", describeOption (options.path.map Text.quote)),
    ("multipass", describeBool options.multipass),
    ("plugins", "[" ++ ", ".intercalate (options.plugins.map fun p => Text.quote p.name) ++ "]"),
    ("serialize", options.layout.describe),
    ("datauri", describeOption (options.dataUri.map DataUri.describe))]

end SvgTidy
