/-!
# Nodes of a document

What a document is made of: node identifiers, the seven kinds of node and what each carries.

* `Attributes` is an insertion-ordered map from names to values. That no name occurs twice is part
  of the type, so every operation on it is total and keeps the property.
* `NodeData` is the payload of a node; `NodeData.kind` forgets all but its kind.
-/

namespace SvgTidy

/-- A handle to a node of a document: its index in creation order. -/
structure NodeId where
  index : Nat
  deriving DecidableEq, Repr, Inhabited

/-- How messages write an identifier. -/
def NodeId.label (id : NodeId) : String :=
  s!"NodeId({id.index})"

/-- The seven kinds of node. -/
inductive NodeKind where
  | root
  | element
  | text
  | cdata
  | comment
  | instruction
  | doctype
  deriving DecidableEq, Repr

/-- The part of a qualified name before its first colon, if it has one. -/
def namespacePart? (name : String) : Option String :=
  if ':' ∈ name.toList then some (String.ofList (name.toList.takeWhile (· != ':'))) else none

/-! ## Attributes -/

/-- An attribute of an element. -/
structure Attribute where
  name : String
  value : String
  deriving DecidableEq, Repr

/-- The attributes of an element in the order of their insertion, each name at most once. -/
structure Attributes where
  toList : List Attribute
  nodup : (toList.map (·.name)).Nodup
  deriving DecidableEq

namespace Attributes

/-- No attributes. -/
def empty : Attributes :=
  ⟨[], List.nodup_nil⟩

instance : Inhabited Attributes := ⟨empty⟩

/-- The value under a name. -/
def get? (attributes : Attributes) (name : String) : Option String :=
  (attributes.toList.find? (·.name == name)).map (·.value)

/-- Whether a name has a value. -/
def contains (attributes : Attributes) (name : String) : Bool :=
  attributes.toList.any (·.name == name)

theorem contains_iff {attributes : Attributes} {name : String} :
    attributes.contains name = true ↔ name ∈ attributes.toList.map (·.name) := by
  simp [contains]

/-- The values changed by a function of name and value; names and order stay. -/
def mapValues (change : String → String → String) (attributes : Attributes) : Attributes where
  toList := attributes.toList.map fun a => { a with value := change a.name a.value }
  nodup := by simpa [Function.comp_def] using attributes.nodup

/-- The attributes that pass a test, in the same order. -/
def filter (keep : Attribute → Bool) (attributes : Attributes) : Attributes where
  toList := attributes.toList.filter keep
  nodup := attributes.nodup.sublist (List.filter_sublist.map _)

/-- Put a value under a name: a known name keeps its place, a new one goes last. -/
def set (attributes : Attributes) (name value : String) : Attributes :=
  if h : attributes.contains name then
    attributes.mapValues fun known old => if known = name then value else old
  else
    { toList := attributes.toList ++ [⟨name, value⟩]
      nodup := by
        rw [contains_iff] at h
        rw [List.map_append, List.nodup_append]
        refine ⟨attributes.nodup, by simp, ?_⟩
        rintro known hk _ hn rfl
        simp only [List.map_cons, List.map_nil, List.mem_singleton] at hn
        exact h (hn ▸ hk) }

/-- Take a name out. -/
def erase (attributes : Attributes) (name : String) : Attributes :=
  attributes.filter fun a => a.name != name

end Attributes

/-! ## Elements and instructions -/

/-- An element: a tag name as written, namespace part included, and its attributes. -/
structure Element where
  name : String
  attributes : Attributes := .empty
  deriving DecidableEq, Inhabited

namespace Element

/-- Whether the tag name is the given one. -/
def is (element : Element) (name : String) : Bool :=
  element.name == name

/-- The value of an attribute. -/
def attribute? (element : Element) (name : String) : Option String :=
  element.attributes.get? name

/-- Whether there is an attribute of this name. -/
def hasAttribute (element : Element) (name : String) : Bool :=
  element.attributes.contains name

/-- Set an attribute, see `Attributes.set`. -/
def setAttribute (element : Element) (name value : String) : Element :=
  { element with attributes := element.attributes.set name value }

/-- Remove an attribute. -/
def removeAttribute (element : Element) (name : String) : Element :=
  { element with attributes := element.attributes.erase name }

/-- Keep the attributes that pass a test. -/
def filterAttributes (keep : Attribute → Bool) (element : Element) : Element :=
  { element with attributes := element.attributes.filter keep }

/-- Change every attribute's value by a function of its name and value. -/
def mapValues (change : String → String → String) (element : Element) : Element :=
  { element with attributes := element.attributes.mapValues change }

end Element

/-- A processing instruction such as the XML declaration. -/
structure Instruction where
  name : String
  value : String
  deriving DecidableEq, Repr

/-! ## Payloads -/

/-- What a node carries. A doctype holds all between its keyword and the closing bracket. -/
inductive NodeData where
  | root
  | element (element : Element)
  | text (value : String)
  | cdata (value : String)
  | comment (value : String)
  | instruction (instruction : Instruction)
  | doctype (value : String)
  deriving DecidableEq, Inhabited

namespace NodeData

/-- The kind of a payload. -/
def kind : NodeData → NodeKind
  | .root => .root
  | .element _ => .element
  | .text _ => .text
  | .cdata _ => .cdata
  | .comment _ => .comment
  | .instruction _ => .instruction
  | .doctype _ => .doctype

/-- Root and elements may have children. -/
def isContainer : NodeData → Bool
  | .root | .element _ => true
  | _ => false

/-- The element carried, if it is one. -/
def element? : NodeData → Option Element
  | .element e => some e
  | _ => none

/-- The instruction carried, if it is one. -/
def instruction? : NodeData → Option Instruction
  | .instruction i => some i
  | _ => none

/-- The character data of a text, CDATA section, comment or doctype. -/
def value? : NodeData → Option String
  | .text s | .cdata s | .comment s | .doctype s => some s
  | _ => none

/-- Change the element, if it is one. -/
def mapElement (change : Element → Element) : NodeData → NodeData
  | .element e => .element (change e)
  | other => other

/-- Change the instruction, if it is one. -/
def mapInstruction (change : Instruction → Instruction) : NodeData → NodeData
  | .instruction i => .instruction (change i)
  | other => other

/-- Change the character data, if there is any. -/
def mapValue (change : String → String) : NodeData → NodeData
  | .text s => .text (change s)
  | .cdata s => .cdata (change s)
  | .comment s => .comment (change s)
  | .doctype s => .doctype (change s)
  | other => other

@[simp] theorem kind_mapElement (change : Element → Element) (data : NodeData) :
    (data.mapElement change).kind = data.kind := by
  cases data <;> rfl

@[simp] theorem kind_mapInstruction (change : Instruction → Instruction) (data : NodeData) :
    (data.mapInstruction change).kind = data.kind := by
  cases data <;> rfl

@[simp] theorem kind_mapValue (change : String → String) (data : NodeData) :
    (data.mapValue change).kind = data.kind := by
  cases data <;> rfl

end NodeData

end SvgTidy
