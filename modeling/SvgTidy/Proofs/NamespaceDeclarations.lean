import SvgTidy.Proofs.EditorNames

/-!
# Names of namespaces and where they are declared

A name with a namespace part means something only where an attribute `xmlns:part` of an element from
there up says which namespace it stands for (`Document.declaration?`). A document in which this is
so for all names is `Declared`.

Principal result: `removeEditorData_leaves` — no declaration of a drawing program's namespace is
left, nothing is left that was in one by such a declaration, and a name that is left is declared if
it was.
-/

namespace SvgTidy

open Cleanup Pass

variable {namespaces names : List String} {part : String}

namespace Element

variable {e : Element}

/-- The parts before the first colon in the names of an element and of its attributes. -/
def parts (e : Element) : List String :=
  (e.name :: e.attributes.toList.map (·.name)).filterMap namespacePart?

theorem mem_parts : part ∈ e.parts ↔ namespacePart? e.name = some part ∨
    ∃ a ∈ e.attributes.toList, namespacePart? a.name = some part := by
  simp [parts]

/-- What an element declares to be the namespace of a name. -/
def declaration? (e : Element) (part : String) : Option String :=
  e.attribute? ("xmlns:" ++ part)

theorem boundName?_eq_some_iff {a : Attribute} :
    boundName? a = some part ↔ a.name = "xmlns:" ++ part := by
  constructor
  · intro h
    exact String.toList_inj.mp ((toList_of_boundName? h).trans String.toList_append.symm)
  · intro h
    have hmark : "xmlns:".toList.isPrefixOf a.name.toList = true := by
      rw [h, String.toList_append, List.isPrefixOf_iff_prefix]
      exact List.prefix_append _ _
    unfold boundName?
    simp only
    rw [if_pos hmark, h, String.toList_append, List.drop_left, String.ofList_toList]

/-- Each name has the value that an attribute of the name has. -/
theorem attribute?_eq_some_iff {name value : String} : e.attribute? name = some value ↔
    ∃ a ∈ e.attributes.toList, a.name = name ∧ a.value = value := by
  rw [attribute?, Attributes.get?_eq_some_iff]
  constructor
  · exact fun ha => ⟨_, ha, rfl, rfl⟩
  · rintro ⟨a, ha, rfl, rfl⟩
    exact ha

/-- A declaration is an attribute. -/
theorem declaration?_eq_some_iff {value : String} : e.declaration? part = some value ↔
    ∃ a ∈ e.attributes.toList, boundName? a = some part ∧ a.value = value := by
  simp only [declaration?, attribute?_eq_some_iff, boundName?_eq_some_iff]

theorem mem_namesBound_iff : part ∈ namesBound namespaces e ↔
    e.is "svg" = true ∧ ∃ value ∈ namespaces, e.declaration? part = some value := by
  rw [mem_namesBound]
  refine and_congr_right fun _ => ⟨?_, ?_⟩
  · rintro ⟨a, ha, hdeclares, hbound⟩
    exact ⟨a.value, (declares_iff.mp hdeclares).2,
      declaration?_eq_some_iff.mpr ⟨a, ha, hbound, rfl⟩⟩
  · rintro ⟨value, hvalue, hdeclaration⟩
    obtain ⟨a, ha, hbound, rfl⟩ := declaration?_eq_some_iff.mp hdeclaration
    exact ⟨a, ha, declares_iff.mpr ⟨by rw [hbound]; rfl, hvalue⟩, hbound⟩

/-- What is left of an element that stays is some of its attributes. -/
theorem cleanElement_eq_filterAttributes (hstays : usesName names e.name = false) :
    Job.cleanElement namespaces names e = e.filterAttributes fun a =>
      !(e.is "svg" && declares namespaces a) && !usesName names a.name := by
  refine ext_toList (Job.name_cleanElement _ _ e) ?_
  rw [Job.cleanElement, hstays, if_neg Bool.false_ne_true]
  unfold withoutDeclarations
  cases e.is "svg" <;> simp [filterAttributes, Attributes.filter, Bool.and_comm]

theorem mem_cleanElement (hstays : usesName names e.name = false) {a : Attribute} :
    a ∈ (Job.cleanElement namespaces names e).attributes.toList ↔
      a ∈ e.attributes.toList ∧ (e.is "svg" = true → declares namespaces a = false) ∧
        usesName names a.name = false := by
  rw [cleanElement_eq_filterAttributes hstays]
  cases e.is "svg" <;> simp [filterAttributes, Attributes.filter]

theorem of_mem_parts_cleanElement (hstays : usesName names e.name = false)
    (h : part ∈ (Job.cleanElement namespaces names e).parts) : part ∈ e.parts ∧ part ∉ names := by
  rw [mem_parts, Job.name_cleanElement] at h
  rw [mem_parts]
  rcases h with hname | ⟨a, ha, hname⟩
  · refine ⟨.inl hname, fun hmem => ?_⟩
    rw [usesName_iff.mpr ⟨part, hmem, hname⟩] at hstays
    cases hstays
  · obtain ⟨hold, -, hunused⟩ := (mem_cleanElement hstays).mp ha
    refine ⟨.inr ⟨a, hold, hname⟩, fun hmem => ?_⟩
    rw [usesName_iff.mpr ⟨part, hmem, hname⟩] at hunused
    cases hunused

end Element

namespace Document

variable {doc next : Document} {id : NodeId}

/-- The nearest declaration of a name, from a node upwards: the element it stands on, and the
namespace. -/
def declaration? (doc : Document) (id : NodeId) (part : String) : Option (Element × String) :=
  (doc.chain id).findSome? fun up =>
    (doc.element? up).bind fun e => (e.declaration? part).map (e, ·)

/-- All names of namespaces that attached elements and their attributes use are declared, but for
the two that need not be. -/
def Declared (doc : Document) : Prop :=
  ∀ x ∈ doc.elements, ∀ part ∈ x.2.parts, part ≠ "xml" → part ≠ "xmlns" →
    (doc.declaration? x.1 part).isSome = true

instance (doc : Document) : Decidable doc.Declared :=
  inferInstanceAs (Decidable (∀ x ∈ doc.elements, ∀ part ∈ x.2.parts, part ≠ "xml" →
    part ≠ "xmlns" → (doc.declaration? x.1 part).isSome = true))

theorem exists_of_declaration? {found : Element × String}
    (h : doc.declaration? id part = some found) :
    ∃ up ∈ doc.chain id, doc.element? up = some found.1 ∧
      found.1.declaration? part = some found.2 := by
  obtain ⟨up, hup, hfound⟩ := List.exists_of_findSome?_eq_some h
  obtain ⟨e, he, hdeclaration⟩ := Option.bind_eq_some_iff.mp hfound
  obtain ⟨value, hvalue, rfl⟩ := Option.map_eq_some_iff.mp hdeclaration
  exact ⟨up, hup, he, hvalue⟩

theorem isSome_declaration?_iff : (doc.declaration? id part).isSome = true ↔
    ∃ up ∈ doc.chain id, ∃ e, doc.element? up = some e ∧ (e.declaration? part).isSome = true := by
  simp only [declaration?, List.findSome?_isSome_iff, Option.isSome_bind, Option.any_eq_true,
    Option.isSome_map]

/-- The name of declarations is never learned if nothing binds it. -/
theorem Learned.unlearned {stays : NodeId → Prop} (hdoc : doc.WellFormed)
    (hid : doc.isAttached id = true)
    (hfree : ∀ x ∈ doc.elements, x.2.hasAttribute "xmlns:xmlns" = false)
    (hnames : doc.Learned namespaces stays id names) : "xmlns" ∉ names := by
  intro hmem
  obtain ⟨up, e, -, hup, he, hbound⟩ := hnames.before _ hmem
  have hattached : doc.isAttached up = true := by
    rcases hup with rfl | hup
    · exact hid
    · exact (hdoc.mem_descendants_root.mp (hup.subset List.mem_cons_self)).1
  exact not_mem_namesBound (hfree _ (hdoc.mem_elements.mpr ⟨hattached, he⟩)) namespaces hbound

namespace Stripped

variable (h : doc.Stripped next namespaces)
include h

theorem isAttached (hid : next.isAttached id = true) : doc.isAttached id = true := by
  by_contra hnot
  rw [Bool.not_eq_true] at hnot
  rw [(h.detached id hnot).1] at hid
  cases hid

/-- An element that stays. -/
theorem element? (hid : next.isAttached id = true) {left : Element}
    (hleft : next.element? id = some left) : ∃ e names, doc.element? id = some e ∧
      doc.Learned namespaces (next.isAttached · = true) id names ∧ usesName names e.name = false ∧
      left = Job.cleanElement namespaces names e := by
  obtain ⟨data, names, hdata, hnames, hstays, hnext⟩ := h.retains id hid
  rw [Document.element?, hnext] at hleft
  cases data <;> cases hleft
  refine ⟨_, names, ?_, hnames, hstays _ rfl, rfl⟩
  rw [Document.element?, hdata]
  rfl

theorem element?_of_element? (hid : next.isAttached id = true) {e : Element}
    (he : doc.element? id = some e) : ∃ names,
      doc.Learned namespaces (next.isAttached · = true) id names ∧
      usesName names e.name = false ∧
      next.element? id = some (Job.cleanElement namespaces names e) := by
  obtain ⟨data, names, hdata, hnames, hstays, hnext⟩ := h.retains id hid
  rw [Document.element?, hdata] at he
  cases data <;> cases he
  refine ⟨names, hnames, hstays _ rfl, ?_⟩
  rw [Document.element?, hnext]
  rfl

/-- The way up from a node that stays is what it was. -/
theorem chain_eq (hdoc : doc.WellFormed) (hid : next.isAttached id = true) :
    next.chain id = doc.chain id := by
  have hnext := h.wellFormed
  have hstep {id : NodeId} (hid : next.isAttached id = true)
      (hup : ∀ p, next.parent? id = some p → next.chain p = doc.chain p) :
      next.chain id = doc.chain id := by
    obtain ⟨data, _, hdata, -, -, hdata'⟩ := h.retains id hid
    rw [hnext.chain_eq (knows_iff_data?.mpr ⟨_, hdata'⟩),
      hdoc.chain_eq (knows_iff_data?.mpr ⟨_, hdata⟩), ← h.parent? id hid]
    cases hlink : next.parent? id with
    | none => rfl
    | some p => exact congrArg (id :: ·) (hup p hlink)
  have htop : next.chain root = doc.chain root :=
    hstep (hnext.isAttached_iff.mpr (.inl rfl)) fun p hlink => by
      rw [hnext.root_free] at hlink
      cases hlink
  rcases hnext.isAttached_iff.mp hid with rfl | habove
  · exact htop
  · clear hid
    induction habove using Relation.TransGen.head_induction_on with
    | single hlink =>
      refine hstep (hnext.isAttached_iff.mpr (.inr (.of_parent? hlink))) fun p hp => ?_
      rw [hlink, Option.some.injEq] at hp
      exact hp ▸ htop
    | head hlink habove ih =>
      have hattached := hnext.isAttached_iff.mpr (.inr (Above.trans habove (.of_parent? hlink)))
      refine hstep hattached fun p hp => ?_
      rw [hlink, Option.some.injEq] at hp
      exact hp ▸ ih

/-- Nothing of an element that stays has a name that the nearest declaration binds to one of the
namespaces on an `svg` element. -/
theorem not_bound (hid : next.isAttached id = true) {left : Element}
    (hleft : next.element? id = some left) (hpart : part ∈ left.parts) {e : Element}
    {value : String} (hdeclaration : doc.declaration? id part = some (e, value)) (hsvg : e.is "svg" = true) :
    value ∉ namespaces := by
  intro hvalue
  obtain ⟨e', names, -, hnames, hstays, rfl⟩ := h.element? hid hleft
  obtain ⟨up, hup, he, hbound⟩ := exists_of_declaration? hdeclaration
  refine (Element.of_mem_parts_cleanElement hstays hpart).2 (hnames.above up hup e he ?_)
  exact Element.mem_namesBound_iff.mpr ⟨hsvg, value, hvalue, hbound⟩

/-- No declaration of one of the namespaces is left on an `svg` element. -/
theorem declaration?_not_mem (hid : next.isAttached id = true) {left : Element}
    (hleft : next.element? id = some left) (hsvg : left.is "svg" = true) {value : String}
    (hdeclaration : left.declaration? part = some value) : value ∉ namespaces := by
  intro hvalue
  obtain ⟨e, names, -, -, hstays, rfl⟩ := h.element? hid hleft
  have hsvg' : e.is "svg" = true := by rwa [Element.is, Job.name_cleanElement] at hsvg
  obtain ⟨a, ha, hbound, rfl⟩ := Element.declaration?_eq_some_iff.mp hdeclaration
  have hdeclares := ((Element.mem_cleanElement hstays).mp ha).2.1 hsvg'
  rw [declares_iff.mpr ⟨by rw [hbound]; rfl, hvalue⟩] at hdeclares
  cases hdeclares

/-- **Where all names are declared, they still are.** -/
theorem declared (hdoc : doc.WellFormed)
    (hfree : ∀ x ∈ doc.elements, x.2.hasAttribute "xmlns:xmlns" = false)
    (hdeclared : doc.Declared) : next.Declared := by
  rintro ⟨id, left⟩ hx part hpart hxml hxmlns
  obtain ⟨hid, hleft⟩ := h.wellFormed.mem_elements.mp hx
  obtain ⟨e, names, he, hnames, hstays, rfl⟩ := h.element? hid hleft
  obtain ⟨hold, hunlearned⟩ := Element.of_mem_parts_cleanElement hstays hpart
  have hmem : (id, e) ∈ doc.elements := hdoc.mem_elements.mpr ⟨h.isAttached hid, he⟩
  have hsome := hdeclared (id, e) hmem part hold hxml hxmlns
  obtain ⟨up, hup, f, hf, hdeclaration⟩ := isSome_declaration?_iff.mp hsome
  rw [← h.chain_eq hdoc hid] at hup
  have hattached := h.wellFormed.isAttached_of_mem_chain hid hup
  obtain ⟨names', hnames', hstays', hleft'⟩ := h.element?_of_element? hattached hf
  refine isSome_declaration?_iff.mpr ⟨up, hup, _, hleft', ?_⟩
  obtain ⟨value, hvalue⟩ := Option.isSome_iff_exists.mp hdeclaration
  obtain ⟨a, ha, hbound, rfl⟩ := Element.declaration?_eq_some_iff.mp hvalue
  refine Option.isSome_iff_exists.mpr ⟨a.value, Element.declaration?_eq_some_iff.mpr
    ⟨a, (Element.mem_cleanElement hstays').mpr ⟨ha, fun hsvg => ?_, ?_⟩, hbound, rfl⟩⟩
  · -- a declaration goes only if the name is known from there on
    rw [Bool.eq_false_iff]
    intro hdeclares
    rw [h.chain_eq hdoc hid] at hup
    have hmem := mem_namesBound.mpr ⟨hsvg, a, ha, hdeclares, hbound⟩
    exact hunlearned (hnames.above up hup f hf hmem)
  · rw [Bool.eq_false_iff]
    intro huses
    obtain ⟨name, hname, hxmlns⟩ := usesName_iff.mp huses
    rw [namespacePart?_of_boundName? (by rw [hbound]; rfl), Option.some.injEq] at hxmlns
    exact hnames'.unlearned hdoc (h.isAttached hattached) hfree (hxmlns ▸ hname)

end Stripped

end Document

namespace Cleanup

/-- **Editor data goes completely, and no name is left without its declaration.** Whatever document
has come about, after a pass of the cleanup alone no `svg` element declares a namespace of a drawing
program, and no element and no attribute is left whose name the nearest declaration bound to one on
an `svg` element. If moreover nothing binds the name of declarations itself, and every name was
declared from there up, every name still is. -/
theorem removeEditorData_leaves {first doc : Document} (hfirst : first.Initial)
    (hdoc : Document.History first doc) (extra : List String) {S : Slots} {σ : Type}
    (observe : Observer S σ) (info : PassInfo) (context : Context S) (seen : σ) :
    ∃ next, run observe [(removeEditorData extra).plugin] info doc context seen = ⟨.ok (), next⟩ ∧
      (∀ x ∈ next.doc.elements, x.2.is "svg" = true → ∀ part value,
        x.2.declaration? part = some value → value ∉ editorNamespaces ++ extra) ∧
      (∀ x ∈ next.doc.elements, ∀ part ∈ x.2.parts, ∀ e value,
        doc.declaration? x.1 part = some (e, value) → e.is "svg" = true →
        value ∉ editorNamespaces ++ extra) ∧
      ((∀ x ∈ doc.elements, x.2.hasAttribute "xmlns:xmlns" = false) → doc.Declared →
        next.doc.Declared) := by
  have hwell : doc.WellFormed := (hdoc.evolves hfirst.wellFormed).1
  obtain ⟨next, hrun, hstripped⟩ := run_strips observe extra info hwell context seen
  refine ⟨next, hrun, fun x hx hsvg part value hdeclaration => ?_,
    fun x hx part hpart e value hdeclaration hsvg => ?_, hstripped.declared hwell⟩
  · obtain ⟨hid, helement⟩ := hstripped.wellFormed.mem_elements.mp hx
    exact hstripped.declaration?_not_mem hid helement hsvg hdeclaration
  · obtain ⟨hid, helement⟩ := hstripped.wellFormed.mem_elements.mp hx
    exact hstripped.not_bound hid helement hpart hdeclaration hsvg

/-- A drawing inside a drawing that binds a name anew. -/
def nested : Document :=
  [.createElement { name := "svg" }, .append Document.root ⟨1⟩,
    .updateElement ⟨1⟩ (·.setAttribute "xmlns:i" "http://www.inkscape.org/namespaces/inkscape"),
    .updateElement ⟨1⟩ (·.setAttribute "xmlns:x" "urn:x"),
    .updateElement ⟨1⟩ (·.setAttribute "i:version" "1"),
    .createElement { name := "i:page" }, .append ⟨1⟩ ⟨2⟩,
    .createElement { name := "g" }, .append ⟨1⟩ ⟨3⟩,
    .updateElement ⟨3⟩ (·.setAttribute "x:y" "a"),
    .updateElement ⟨3⟩ (·.setAttribute "i:label" "b"),
    .createElement { name := "svg" }, .append ⟨3⟩ ⟨4⟩,
    .updateElement ⟨4⟩ (·.setAttribute "xmlns:i" "urn:i"),
    .updateElement ⟨4⟩ (·.setAttribute "xmlns:z" "urn:z"),
    .createElement { name := "x:z" }, .append ⟨4⟩ ⟨5⟩,
    .createElement { name := "z:z" }, .append ⟨4⟩ ⟨6⟩].foldl Call.apply .empty

theorem removeEditorData_leaves_nested :
    Document.Initial .empty ∧ Document.History .empty nested ∧
      (∀ x ∈ nested.elements, x.2.hasAttribute "xmlns:xmlns" = false) ∧ nested.Declared ∧
      ∃ next,
        run (S := Slots.none) .none [(removeEditorData ["urn:z"]).plugin] ⟨none, 0⟩ nested .empty () =
          ⟨.ok (), next⟩ ∧
        next.doc.Declared ∧
        next.doc.write {} =
          "<svg xmlns:x=\"urn:x\"><g x:y=\"a\"><svg xmlns:i=\"urn:i\"><x:z/></svg></g></svg>" := by
  have hhistory : Document.History .empty nested := .calls _ _
  have hfree : ∀ x ∈ nested.elements, x.2.hasAttribute "xmlns:xmlns" = false := by decide +kernel
  have hdeclared : nested.Declared := by decide +kernel
  have hwritten : (run (S := Slots.none) .none [(removeEditorData ["urn:z"]).plugin] ⟨none, 0⟩
      nested .empty ()).state.doc.write {} =
        "<svg xmlns:x=\"urn:x\"><g x:y=\"a\"><svg xmlns:i=\"urn:i\"><x:z/></svg></g></svg>" := by
    decide +kernel
  obtain ⟨next, hrun, -, -, hnext⟩ :=
    removeEditorData_leaves .empty hhistory ["urn:z"] (S := Slots.none) .none ⟨none, 0⟩ .empty ()
  rw [hrun] at hwritten
  exact ⟨.empty, hhistory, hfree, hdeclared, next, hrun, hnext hfree hdeclared, hwritten⟩

end Cleanup

end SvgTidy
