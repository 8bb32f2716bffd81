import SvgTidy.Document.Edit
import SvgTidy.Pass.Context

/-!
# Plugins, visitors and their hooks

A plugin is asked at the start of every pass for a visitor, and may sit the pass out. The visitor's
hook is called when the pass enters a node and again when it leaves it. A hook may change the
document, the shared context and the visitor's own memory, and it may fail; what it changed before
failing stays.
-/

namespace SvgTidy

/-- Why a hook failed. -/
inductive HookError where
  /-- A move in the tree was refused. -/
  | tree (error : TreeError)
  /-- The plugin gave up with a message. -/
  | message (text : String)
  deriving DecidableEq, Repr

/-- The text of a hook's failure. -/
def HookError.text : HookError → String
  | .tree error => error.message
  | .message text => text

/-- What a hook works on. -/
structure Workbench (S : Slots) (Memory : Type) where
  doc : Document
  context : Context S
  memory : Memory

/-- A hook's body: a computation on the workbench that may fail. -/
abbrev Hook (S : Slots) (Memory : Type) (α : Type) : Type :=
  ExceptT HookError (StateM (Workbench S Memory)) α

namespace Hook

variable {S : Slots} {Memory : Type}

/-- The document. -/
def document : Hook S Memory Document := do
  return (← get).doc

/-- Change the document without a chance of failure. -/
def change (f : Document → Document) : Hook S Memory Unit :=
  modify fun bench => { bench with doc := f bench.doc }

/-- Run an editing step on the document. A refusal becomes the hook's failure. -/
def edit {α : Type} (step : Editing α) : Hook S Memory α :=
  ExceptT.mk fun bench =>
    match step.run.run bench.doc with
    | (.ok value, doc) => (.ok value, { bench with doc })
    | (.error error, doc) => (.error (.tree error), { bench with doc })

/-- The visitor's memory. -/
def memory : Hook S Memory Memory := do
  return (← get).memory

/-- Replace the visitor's memory. -/
def remember (memory : Memory) : Hook S Memory Unit :=
  modify fun bench => { bench with memory }

/-- Read a shared cell. -/
def read (key : S.Key) : Hook S Memory (S.Value key) := do
  return (← get).context.get key

/-- Put a value into a shared cell. -/
def write (key : S.Key) (value : S.Value key) : Hook S Memory Unit :=
  modify fun bench => { bench with context := bench.context.set key value }

end Hook

/-- Whether a hook is called before or after the children of its node. -/
inductive Phase where
  | enter
  | leave
  deriving DecidableEq, Repr

/-- What a hook is called for: the document as a whole, or a node with the parent it was reached
through. -/
inductive Site where
  | root
  | node (kind : NodeKind) (id parent : NodeId)
  deriving DecidableEq, Repr

/-- The hooks of a plugin for one pass, and what they remember between calls. -/
structure Visitor (S : Slots) where
  Memory : Type
  memory : Memory
  hook : Phase → Site → Hook S Memory Unit

/-- What a plugin is told about the pass that begins. -/
structure PassInfo where
  /-- Where the document came from, if known. -/
  path : Option String
  /-- The number of passes before this one. -/
  index : Nat
  deriving DecidableEq, Repr

/-- A named source of visitors. -/
structure Plugin (S : Slots) where
  name : String
  /-- The visitor for a pass, or none to sit it out. The shared context may be used already. -/
  visitor : PassInfo → Document → Context S → Option (Visitor S) × Context S

end SvgTidy
