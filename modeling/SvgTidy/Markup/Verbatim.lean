/-!
# Elements that keep their white space

Inside these elements white space is part of the text: reading keeps it and writing adds none.
-/

namespace SvgTidy

/-- Names of the elements whose text is kept as it stands. -/
def textElements : List String :=
  ["a", "altGlyph", "altGlyphDef", "altGlyphItem", "glyph", "glyphRef", "text", "textPath", "tref",
    "tspan", "pre", "title"]

/-- Whether an element of this name keeps its text as it stands. -/
def isTextElement (name : String) : Bool :=
  textElements.contains name

end SvgTidy
