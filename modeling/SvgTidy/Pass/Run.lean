import SvgTidy.Pass.Hook

/-!
# One pass over a document

All plugins are asked for their visitors first. Then the hooks for the root are called, the tree is
visited in depth, and the hooks for the root are called again to leave it. Entering calls the
visitors in the order of the plugins, leaving in the opposite order.

The nodes visited below a container are its children as they are when the visitors have entered it;
one that has been moved away when its turn comes is passed over. An element whose own place was
changed while it was entered is left without a visit to its children.

The first hook that fails ends the pass. A pass descends as many levels as the document has nodes
and so many more (`runWithin`), so that hooks that keep adding deeper nodes cannot keep it from
ending. A pass that was not cut short by this is the same with any greater number of levels.

An `Observer` is told of every event of a pass, together with the document and the context after it.
The program itself has nothing to observe; statements about the order of events are about what an
observer is told.
-/

namespace SvgTidy

/-- Why a pass ended early. -/
inductive PassError where
  /-- A hook of a plugin failed. -/
  | plugin (name : String) (cause : HookError)
  /-- Hooks added nodes deeper than a pass descends. -/
  | tooDeep
  deriving DecidableEq, Repr

/-- The text of a failure. -/
def PassError.message : PassError → String
  | .plugin name cause =>
    let text := cause.text
    s!"plugin `{name}` failed: {text}"
  | .tooDeep => "the document became too deep"

/-- What happens in a pass. -/
inductive Event where
  /-- The plugin at a place of the list was asked for the visitor of a pass. -/
  | asked (pass plugin : Nat)
  /-- The hook of the visitor at a place among those of the pass was called. -/
  | called (visitor : Nat) (phase : Phase) (site : Site)
  deriving DecidableEq, Repr

/-- How to take in an event, with the document and the context after it. -/
abbrev Observer (S : Slots) (σ : Type) : Type :=
  Event → Document → Context S → σ → σ

/-- The observer that takes in nothing. -/
def Observer.none {S : Slots} : Observer S Unit :=
  fun _ _ _ _ => ()

/-- A plugin's visitor at work. -/
structure Active (S : Slots) where
  name : String
  visitor : Visitor S

/-- The state of a pass between two calls. -/
structure Progress (S : Slots) (σ : Type) where
  doc : Document
  context : Context S
  active : List (Active S)
  seen : σ

/-- What a part of a pass leaves behind: the state, and the failure if there was one. -/
structure Outcome (S : Slots) (σ : Type) where
  result : Except PassError Unit
  state : Progress S σ

namespace Pass

variable {S : Slots} {σ : Type}

/-- Nothing left to do. -/
def done (s : Progress S σ) : Outcome S σ :=
  ⟨.ok (), s⟩

/-- Go on if there was no failure. -/
def andThen (o : Outcome S σ) (next : Progress S σ → Outcome S σ) : Outcome S σ :=
  match o.result with
  | .ok () => next o.state
  | .error _ => o

/-- Do something for each of a list, up to the first failure. -/
def inTurn {α : Type} (action : α → Progress S σ → Outcome S σ) :
    List α → Progress S σ → Outcome S σ
  | [], s => done s
  | a :: rest, s => andThen (action a s) (inTurn action rest)

/-- Call the hook of one visitor. -/
def call (observe : Observer S σ) (phase : Phase) (site : Site) (place : Nat)
    (s : Progress S σ) : Outcome S σ :=
  match s.active[place]? with
  | none => done s
  | some ⟨name, visitor⟩ =>
    let (result, bench) := (visitor.hook phase site).run.run ⟨s.doc, s.context, visitor.memory⟩
    { result := match result with
        | .ok () => .ok ()
        | .error cause => .error (.plugin name cause)
      state :=
        { doc := bench.doc
          context := bench.context
          active := s.active.set place ⟨name, { visitor with memory := bench.memory }⟩
          seen := observe (.called place phase site) bench.doc bench.context s.seen } }

/-- Call all visitors in the order of their plugins. -/
def enter (observe : Observer S σ) (site : Site) (s : Progress S σ) : Outcome S σ :=
  inTurn (call observe .enter site) (List.range s.active.length) s

/-- Call all visitors in the opposite order. -/
def leave (observe : Observer S σ) (site : Site) (s : Progress S σ) : Outcome S σ :=
  inTurn (call observe .leave site) (List.range s.active.length).reverse s

/-- Visit a node. `below` visits the children of an element. -/
def visit (observe : Observer S σ) (below : NodeId → Progress S σ → Outcome S σ)
    (parent id : NodeId) (s : Progress S σ) : Outcome S σ :=
  match s.doc.kind? id with
  | none => done s
  | some kind =>
    let site := .node kind id parent
    andThen (enter observe site s) fun s =>
      andThen (if kind = .element ∧ s.doc.parent? id = some parent then below id s else done s)
        (leave observe site)

/-- Visit the children of a container, at most `depth` levels down. -/
def visitChildren (observe : Observer S σ) : Nat → NodeId → Progress S σ → Outcome S σ
  | 0, _, s => ⟨.error .tooDeep, s⟩
  | depth + 1, parent, s =>
    let below := visitChildren observe depth
    inTurn (fun id s =>
        if s.doc.parent? id = some parent then visit observe below parent id s else done s)
      (s.doc.children parent) s

/-- Ask a plugin for its visitor; without one it has no part in the pass. -/
def ask (observe : Observer S σ) (info : PassInfo) (plugin : Plugin S) (place : Nat)
    (s : Progress S σ) : Progress S σ :=
  let (visitor?, context) := plugin.visitor info s.doc s.context
  { s with
    context
    active := s.active ++ (visitor?.map (⟨plugin.name, ·⟩)).toList
    seen := observe (.asked info.index place) s.doc context s.seen }

/-- Ask all plugins for their visitors. -/
def recruit (observe : Observer S σ) (info : PassInfo) (plugins : List (Plugin S))
    (s : Progress S σ) : Progress S σ :=
  plugins.zipIdx.foldl (fun s (plugin, place) => ask observe info plugin place s) s

/-- The number of levels that hooks may add to a document during a pass, whatever its size. -/
def headroom : Nat := 10000

/-- Visit a document with the visitors at hand. -/
def walk (observe : Observer S σ) (depth : Nat) (s : Progress S σ) : Outcome S σ :=
  andThen (enter observe .root s) fun s =>
    andThen (visitChildren observe depth Document.root s) (leave observe .root)

/-- Run one pass, in which hooks may add so many levels to the document. -/
def runWithin (levels : Nat) (observe : Observer S σ) (plugins : List (Plugin S)) (info : PassInfo)
    (doc : Document) (context : Context S) (seen : σ) : Outcome S σ :=
  walk observe (doc.nodes.size + levels)
    (recruit observe info plugins { doc, context, active := [], seen })

/-- Run one pass. -/
def run (observe : Observer S σ) (plugins : List (Plugin S)) (info : PassInfo) (doc : Document)
    (context : Context S) (seen : σ) : Outcome S σ :=
  runWithin headroom observe plugins info doc context seen

end Pass

end SvgTidy
