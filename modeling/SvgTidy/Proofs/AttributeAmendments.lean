import SvgTidy.Proofs.DecodedReferences

/-!
# Attributes through amendments

The attributes of an element are amended in four ways: a name gets a value or is taken out, all
attributes are tested, all values are changed. Each way is carried out three times here, on the
element (`Element.amend`), on a bare list that is searched for the first attribute of a name
(`Attributes.amendFirst`), and on a map that remembers the order of insertion (`OrderedMap.amend`).
What they give back is the same, one amendment after the other, and what they leave is the same
attributes.

An amendment that is `About` one name only alters what that name is bound to (`OrderedMap.alter`), and
two that are about different names can change places.

Principal results: `mirrors_toMap` — amendments of an element, of its attributes and of its map;
`lawful` — what single amendments do; `mirrors_orderedMap` — for a new element, and for one made of a
start tag.
-/

namespace SvgTidy

open Markup

/-! ## Amendments -/

/-- What can be done to the attributes of an element. A test and a change may look at all attributes
there are. -/
inductive Amendment where
  | set (name value : String)
  | remove (name : String)
  | retain (keep : List Attribute → Attribute → Bool)
  | revalue (change : List Attribute → String → String → String)

/-- Amend an element. What was taken out is given back. -/
def Element.amend (element : Element) : Amendment → Option String × Element
  | .set name value => (none, element.setAttribute name value)
  | .remove name => (element.attribute? name, element.removeAttribute name)
  | .retain keep => (none, element.filterAttributes (keep element.attributes.toList))
  | .revalue change => (none, element.mapValues (change element.attributes.toList))

/-- Amend a bare list at the first attribute of a name. -/
def Attributes.amendFirst (list : List Attribute) : Amendment → Option String × List Attribute
  | .set name value => (none, setFirst name value list)
  | .remove name => takeFirst name list
  | .retain keep => (none, list.filter (keep list))
  | .revalue change => (none, list.map fun a => { a with value := change list a.name a.value })

/-- Amend a map. -/
def OrderedMap.amend (map : OrderedMap) : Amendment → Option String × OrderedMap
  | .set name value => (none, map.set name value)
  | .remove name => (map.value name, map.remove name)
  | .retain keep => (none, map.retain fun name value => keep map.entries ⟨name, value⟩)
  | .revalue change => (none, map.revalue (change map.entries))

/-- Amend several times: all that is given back, and what is left in the end. -/
def amendAll {State : Type} (amend : State → Amendment → Option String × State) (state : State) :
    List Amendment → List (Option String) × State
  | [] => ([], state)
  | amendment :: rest =>
    ((amend state amendment).1 :: (amendAll amend (amend state amendment).2 rest).1,
      (amendAll amend (amend state amendment).2 rest).2)

/-- What a view shows of each amendment it shows of all. -/
theorem amendAll_view {State View : Type} {amend : State → Amendment → Option String × State}
    {amendView : View → Amendment → Option String × View} (view : State → View)
    (hstep : ∀ state amendment, amendView (view state) amendment =
      ((amend state amendment).1, view (amend state amendment).2))
    (amendments : List Amendment) : ∀ state, amendAll amendView (view state) amendments =
      ((amendAll amend state amendments).1, view (amendAll amend state amendments).2) := by
  induction amendments with
  | nil => exact fun _ => rfl
  | cons amendment rest ih =>
    intro state
    rw [amendAll, hstep, ih, amendAll]

namespace Element

variable {element : Element}

theorem amendFirst_toList (element : Element) (amendment : Amendment) :
    Attributes.amendFirst element.attributes.toList amendment =
      ((element.amend amendment).1, (element.amend amendment).2.attributes.toList) := by
  cases amendment with
  | set name value => exact congrArg (none, ·) (element.attributes.toList_set name value).symm
  | remove name => exact element.attributes.takeFirst_toList name
  | retain keep => rfl
  | revalue change => rfl

theorem amend_toMap (element : Element) (amendment : Amendment) :
    element.attributes.toMap.amend amendment =
      ((element.amend amendment).1, (element.amend amendment).2.attributes.toMap) := by
  cases amendment with
  | set name value => exact congrArg (none, ·) (element.attributes.toMap_set name value).symm
  | remove name =>
    exact congrArg (element.attribute? name, ·) (element.attributes.toMap_erase name).symm
  | retain keep =>
    rw [OrderedMap.amend, Attributes.entries_toMap]
    exact congrArg (none, ·) (element.attributes.toMap_filter _).symm
  | revalue change =>
    rw [OrderedMap.amend, Attributes.entries_toMap]
    exact congrArg (none, ·) (element.attributes.toMap_mapValues _).symm

theorem name_amend (element : Element) (amendment : Amendment) :
    (element.amend amendment).2.name = element.name := by
  cases amendment <;> rfl

theorem name_amendAll (amendments : List Amendment) : ∀ element : Element,
    (amendAll amend element amendments).2.name = element.name := by
  induction amendments with
  | nil => exact fun _ => rfl
  | cons amendment rest ih => exact fun element => (ih _).trans (element.name_amend amendment)

theorem amendAll_toMap (element : Element) (amendments : List Amendment) :
    amendAll OrderedMap.amend element.attributes.toMap amendments =
      ((amendAll amend element amendments).1,
        (amendAll amend element amendments).2.attributes.toMap) :=
  amendAll_view (fun element : Element => element.attributes.toMap) amend_toMap
    amendments element

theorem ext_toMap {e e' : Element} (hname : e.name = e'.name)
    (hmap : e.attributes.toMap = e'.attributes.toMap) : e = e' := by
  refine ext_toList hname ?_
  rw [← Attributes.entries_toMap, hmap, Attributes.entries_toMap]

end Element

/-! ## Amendments about one name -/

/-- An amendment that has to do with one name only: attributes of other names stay as they are, and it
does not look at them. -/
inductive Amendment.About (name : String) : Amendment → Prop where
  | set (value : String) : About name (.set name value)
  | remove : About name (.remove name)
  | retain (keep : String → Bool) :
      About name (.retain fun _ a => a.name != name || keep a.value)
  | revalue (change : String → String) :
      About name (.revalue fun _ known value => if known = name then change value else value)

namespace OrderedMap

variable {map : OrderedMap} {name other : String}

/-- Change or drop what one name is bound to. -/
def alter (name : String) (change : String → Option String) (map : OrderedMap) : OrderedMap where
  order := map.order.filter fun known =>
    (if known = name then (map.value known).bind change else map.value known).isSome
  value known := if known = name then (map.value known).bind change else map.value known
  nodup := map.nodup.filter _
  mem_order known := by
    rw [List.mem_filter, map.mem_order]
    cases map.value known <;> simp

theorem value_alter_of_ne (hne : other ≠ name) (change : String → Option String) :
    (map.alter name change).value other = map.value other :=
  if_neg hne

theorem mem_order_alter_of_ne (hne : other ≠ name) (change : String → Option String) :
    other ∈ (map.alter name change).order ↔ other ∈ map.order := by
  rw [mem_order, mem_order, value_alter_of_ne hne]

theorem order_alter_sublist (map : OrderedMap) (name : String) (change : String → Option String) :
    (map.alter name change).order.Sublist map.order :=
  List.filter_sublist

/-- What is left of an order is the names that are bound in the end. -/
theorem order_eq_filter {left : OrderedMap} (h : left.order.Sublist map.order) :
    left.order = map.order.filter fun known => (left.value known).isSome := by
  have hall : left.order.filter (fun known => (left.value known).isSome) = left.order :=
    List.filter_eq_self.mpr fun known => (left.mem_order known).mp
  have hsublist := h.filter fun known => (left.value known).isSome
  rw [hall] at hsublist
  refine hsublist.eq_of_length ?_
  refine ((List.perm_ext_iff_of_nodup left.nodup (map.nodup.filter _)).mpr fun known => ?_).length_eq
  rw [List.mem_filter, ← left.mem_order]
  exact ⟨fun hknown => ⟨h.subset hknown, hknown⟩, And.right⟩

/-- Maps that leave out some names of one order are the same if their values are. -/
theorem eq_of_sublist {left right : OrderedMap} (hleft : left.order.Sublist map.order)
    (hright : right.order.Sublist map.order)
    (hvalue : ∀ known, left.value known = right.value known) : left = right := by
  have hvalues : left.value = right.value := funext hvalue
  ext1
  · rw [order_eq_filter hleft, order_eq_filter hright, hvalues]
  · exact hvalues

theorem alter_comm (hne : name ≠ other) (change change' : String → Option String) :
    (map.alter name change).alter other change' = (map.alter other change').alter name change := by
  have htwice : ∀ (name other : String) (change change' : String → Option String),
      ((map.alter name change).alter other change').order.Sublist map.order :=
    fun name other change change' =>
      (order_alter_sublist _ other change').trans (order_alter_sublist map name change)
  refine eq_of_sublist (htwice _ _ _ _) (htwice _ _ _ _) fun known => ?_
  simp only [alter]
  by_cases hname : known = name <;> simp [hname, hne]

/-- To set a name that is bound is to alter it. -/
theorem set_eq_alter (hname : name ∈ map.order) (value : String) :
    map.set name value = map.alter name fun _ => some value := by
  obtain ⟨old, hold⟩ := Option.isSome_iff_exists.mp ((map.mem_order name).mp hname)
  have hset : (map.set name value).order = map.order := if_pos hname
  refine eq_of_sublist (hset ▸ .refl _) (order_alter_sublist ..) fun known => ?_
  by_cases heq : known = name <;> simp [set, alter, heq, hold]

theorem remove_eq_alter (name : String) : map.remove name = map.alter name fun _ => none := by
  refine eq_of_sublist List.filter_sublist (order_alter_sublist ..) fun known => ?_
  by_cases heq : known = name <;> simp [remove, alter, heq]

theorem retain_eq_alter (name : String) (keep : String → Bool) :
    (map.retain fun known value => known != name || keep value) =
      map.alter name fun value => if keep value then some value else none := by
  refine eq_of_sublist List.filter_sublist (order_alter_sublist ..) fun known => ?_
  simp only [retain, alter]
  cases map.value known with
  | none => simp
  | some value => by_cases heq : known = name <;> simp [heq, Option.filter_some]

theorem revalue_eq_alter (name : String) (change : String → String) :
    (map.revalue fun known value => if known = name then change value else value) =
      map.alter name fun value => some (change value) := by
  refine eq_of_sublist (.refl _) (order_alter_sublist ..) fun known => ?_
  simp only [revalue, alter]
  cases map.value known <;> by_cases heq : known = name <;> simp [heq]

/-- An amendment about a name that is bound alters what it is bound to, and what it gives back is a
matter of that value. -/
theorem amend_of_about {amendment : Amendment} (h : amendment.About name) :
    ∃ (answer : Option String → Option String) (change : String → Option String),
      ∀ map : OrderedMap, name ∈ map.order →
        map.amend amendment = (answer (map.value name), map.alter name change) := by
  cases h with
  | set value => exact ⟨fun _ => none, _, fun map hname => by rw [amend, set_eq_alter hname]⟩
  | remove => exact ⟨id, _, fun map _ => by rw [amend, remove_eq_alter, id]⟩
  | retain keep => exact ⟨fun _ => none, _, fun map _ => by rw [amend, retain_eq_alter]⟩
  | revalue change => exact ⟨fun _ => none, _, fun map _ => by rw [amend, revalue_eq_alter]⟩

/-- **Amendments about different names that are bound can change places.** -/
theorem amendAll_swap {first second : Amendment} (hfirst : first.About name)
    (hsecond : second.About other) (hne : name ≠ other) (hname : name ∈ map.order)
    (hother : other ∈ map.order) : amendAll amend map [first, second] =
      ((amendAll amend map [second, first]).1.reverse, (amendAll amend map [second, first]).2) := by
  obtain ⟨answer, change, hfirst⟩ := amend_of_about hfirst
  obtain ⟨answer', change', hsecond⟩ := amend_of_about hsecond
  have hname' := (mem_order_alter_of_ne hne change').mpr hname
  have hother' := (mem_order_alter_of_ne hne.symm change).mpr hother
  simp only [amendAll, hfirst map hname, hsecond map hother, hsecond _ hother', hfirst _ hname',
    value_alter_of_ne hne, value_alter_of_ne hne.symm, alter_comm hne change change',
    List.reverse_cons, List.reverse_nil, List.nil_append, List.cons_append]

end OrderedMap

/-! ## Elements and maps -/

namespace Element

variable {element : Element}

/-- The attributes of an element are what a map binds, in its order, and no name is there twice. -/
structure Refines (element : Element) (map : OrderedMap) : Prop where
  distinct : (element.attributes.toList.map (·.name)).Nodup
  order : element.attributes.toList.map (·.name) = map.order
  attribute? : ∀ name, element.attribute? name = map.value name
  hasAttribute : ∀ name, element.hasAttribute name = true ↔ name ∈ map.order

theorem refines_toMap (element : Element) : element.Refines element.attributes.toMap where
  distinct := element.attributes.nodup
  order := rfl
  attribute? _ := rfl
  hasAttribute _ := Attributes.contains_iff

/-- What single amendments do to the attributes of an element, and which of them can change places. -/
structure Lawful (element : Element) : Prop where
  set_known : ∀ name value, element.hasAttribute name = true →
    (element.setAttribute name value).attributes.toList =
      element.attributes.toList.map fun a => if a.name = name then ⟨name, value⟩ else a
  set_new : ∀ name value, element.hasAttribute name = false →
    (element.setAttribute name value).attributes.toList =
      element.attributes.toList ++ [⟨name, value⟩]
  remove : ∀ name value, element.attribute? name = some value → ∃ before after,
    element.attributes.toList = before ++ ⟨name, value⟩ :: after ∧
    (element.amend (.remove name)).1 = some value ∧
    (element.amend (.remove name)).2.attributes.toList = before ++ after
  swap : ∀ (first second : Amendment) (name other : String), first.About name →
    second.About other → name ≠ other → element.hasAttribute name = true →
    element.hasAttribute other = true → amendAll amend element [first, second] =
      ((amendAll amend element [second, first]).1.reverse, (amendAll amend element [second, first]).2)

theorem toList_setAttribute {name : String} (h : element.hasAttribute name = true) (value : String) :
    (element.setAttribute name value).attributes.toList =
      element.attributes.toList.map fun a => if a.name = name then ⟨name, value⟩ else a := by
  rw [setAttribute, Attributes.toList_set_of_contains h]
  refine List.map_congr_left fun a _ => ?_
  split
  · rename_i hname
    rw [hname]
  · rfl

theorem exists_toList_removeAttribute {name value : String}
    (h : element.attribute? name = some value) : ∃ before after,
      element.attributes.toList = before ++ ⟨name, value⟩ :: after ∧
      (element.removeAttribute name).attributes.toList = before ++ after := by
  obtain ⟨before, after, hlist⟩ := List.append_of_mem (Attributes.get?_eq_some_iff.mp h)
  have hnodup := element.attributes.nodup
  rw [hlist, List.map_append, List.map_cons, List.nodup_middle, List.nodup_cons, ← List.map_append,
    List.mem_map] at hnodup
  have hothers : ∀ b ∈ before ++ after, (b.name != name) = true := fun b hb =>
    bne_iff_ne.mpr fun heq => hnodup.1 ⟨b, hb, heq⟩
  refine ⟨before, after, hlist, ?_⟩
  show element.attributes.toList.filter _ = _
  rw [hlist, List.filter_append, List.filter_cons_of_neg (by simp), ← List.filter_append]
  exact List.filter_eq_self.mpr hothers

theorem lawful (element : Element) : element.Lawful where
  set_known name value h := toList_setAttribute h value
  set_new name value h := Attributes.toList_set_of_not_contains h value
  remove name value h := by
    obtain ⟨before, after, hlist, hleft⟩ := exists_toList_removeAttribute h
    exact ⟨before, after, hlist, h, hleft⟩
  swap first second name other hfirst hsecond hne hname hother := by
    have hswap := OrderedMap.amendAll_swap hfirst hsecond hne
      ((element.refines_toMap.hasAttribute name).mp hname)
      ((element.refines_toMap.hasAttribute other).mp hother)
    rw [amendAll_toMap, amendAll_toMap, Prod.mk.injEq] at hswap
    refine Prod.ext hswap.1 (ext_toMap ?_ hswap.2)
    rw [name_amendAll, name_amendAll]

/-- However the attributes of an element are amended, a bare list and a map that are amended alike give
the same back, and all three are left with the same attributes. -/
def Mirrors (element : Element) (map : OrderedMap) : Prop :=
  ∀ amendments : List Amendment,
    let later := amendAll amend element amendments
    later.2.name = element.name ∧ later.2.Lawful ∧
    amendAll Attributes.amendFirst element.attributes.toList amendments =
      (later.1, later.2.attributes.toList) ∧
    ∃ bound, amendAll OrderedMap.amend map amendments = (later.1, bound) ∧ later.2.Refines bound

theorem mirrors_toMap (element : Element) : element.Mirrors element.attributes.toMap := by
  intro amendments later
  refine ⟨name_amendAll amendments element, later.2.lawful, ?_, _, amendAll_toMap element amendments,
    later.2.refines_toMap⟩
  exact amendAll_view (fun element : Element => element.attributes.toList) amendFirst_toList
    amendments element

end Element

/-! ## Start tags -/

theorem eraseDups_concat (list : List String) (last : String) : (list ++ [last]).eraseDups =
    if last ∈ list then list.eraseDups else list.eraseDups ++ [last] := by
  rw [List.eraseDups_append, List.removeAll]
  split <;> simp [*, List.eraseDups_cons]

namespace Markup.Assembly

variable {s next : Assembly} {written : List RawAttribute}

/-- The names of a start tag are taken in where they come first. -/
theorem names_of_attributesOf {attributes : Attributes} (h : s.attributesOf written = .ok attributes) :
    attributes.toList.map (·.name) = (written.map fun a => String.ofList a.name).eraseDups := by
  rw [attributesOf_eq] at h
  refine foldlM_induct (I := fun done known => known.toList.map (·.name) =
    (done.map fun a => String.ofList a.name).eraseDups) (fun done known a next hnames hnext => ?_) rfl h
  have hcontains : known.contains (String.ofList a.name) = true ↔
      String.ofList a.name ∈ done.map fun a => String.ofList a.name := by
    rw [Attributes.contains_iff, hnames, List.mem_eraseDups]
  rw [List.map_append, List.map_singleton, eraseDups_concat, ← hnames]
  unfold takeAttribute at hnext
  split at hnext
  · rename_i hknown
    cases hnext
    rw [if_pos (hcontains.mp hknown)]
  · rename_i hnew
    split at hnext
    · cases hnext
      rw [if_neg (mt hcontains.mpr hnew), Attributes.toList_set_of_not_contains (by simpa using hnew),
        List.map_append, List.map_singleton]
    · cases hnext

theorem element?_of_startTag {name : List Char} {selfClosing : Bool}
    (h : s.startTag name written selfClosing = .ok next) : ∃ attributes,
      s.attributesOf written = .ok attributes ∧
      next.doc.element? s.doc.fresh = some { name := String.ofList name, attributes } := by
  unfold startTag at h
  split at h
  · cases h
  · rename_i attributes hattributes
    cases h
    refine ⟨attributes, hattributes, ?_⟩
    show (s.doc.grow s.current _).element? s.doc.fresh = _
    rw [Document.element?, Document.data?_grow, if_pos rfl]
    rfl

end Markup.Assembly

/-- **An element's attributes are a map that remembers the order of insertion.** So they are in a new
element, and in one made of a start tag, which binds each name that is written, where it comes first
and to what its first value expands to; and so they stay, however they are amended. -/
theorem Element.mirrors_orderedMap :
    (∀ tag : String, Mirrors { name := tag } .empty) ∧
    ∀ (s next : Assembly) (name : List Char) (written : List RawAttribute) (selfClosing : Bool),
      s.startTag name written selfClosing = .ok next → ∃ (element : Element) (map : OrderedMap),
        next.doc.element? s.doc.fresh = some element ∧ element.name = String.ofList name ∧
        element.Mirrors map ∧
        map.order = (written.map fun a => String.ofList a.name).eraseDups ∧
        ∀ a : RawAttribute, a.First written → ∃ value, expand s.entities a.value = some value ∧
          map.value (String.ofList a.name) = some (String.ofList value) := by
  refine ⟨fun tag => mirrors_toMap { name := tag }, ?_⟩
  intro s next name written selfClosing h
  obtain ⟨attributes, hattributes, helement⟩ := Assembly.element?_of_startTag h
  have hbears : Bears s.entities (name, written) { name := String.ofList name, attributes } :=
    Assembly.bears_of_attributesOf hattributes
  exact ⟨_, attributes.toMap, helement, rfl, mirrors_toMap _,
    Assembly.names_of_attributesOf hattributes, hbears.value⟩

/-- Two names, the first of them twice. -/
def repeating : List RawAttribute :=
  [⟨['a'], ['1'], ⟨1, 7⟩⟩, ⟨['b'], ['2'], ⟨1, 13⟩⟩, ⟨['a'], ['3'], ⟨1, 19⟩⟩]

/-- The second value of a name is not looked at, and a name that was taken out comes back last. -/
theorem Element.mirrors_orderedMap_repeating :
    ∃ (next : Assembly) (element : Element) (map : OrderedMap),
      Assembly.start.startTag ['g'] repeating false = .ok next ∧
      next.doc.element? Assembly.start.doc.fresh = some element ∧
      map.order = ["a", "b"] ∧ map.value "a" = some "1" ∧
      (amendAll amend element [.remove "a", .set "a" "4"]).1 = [some "1", none] ∧
      (amendAll amend element [.remove "a", .set "a" "4"]).2.attributes.toList.map (·.name) =
        ["b", "a"] := by
  have hread : (Assembly.start.startTag ['g'] repeating false).toBool = true := by decide +kernel
  cases hnext : Assembly.start.startTag ['g'] repeating false with
  | error flaw =>
    rw [hnext] at hread
    cases hread
  | ok next =>
    obtain ⟨element, map, helement, -, hmirrors, horder, hvalues⟩ :=
      mirrors_orderedMap.2 Assembly.start next ['g'] repeating false hnext
    have horder : map.order = ["a", "b"] := horder.trans (by decide +kernel)
    obtain ⟨value, hexpand, hvalue⟩ := hvalues ⟨['a'], ['1'], ⟨1, 7⟩⟩ ⟨[], _, rfl, by simp⟩
    obtain rfl : ['1'] = value := Option.some_inj.mp ((by decide +kernel :
      some ['1'] = expand Assembly.start.entities ['1']).trans hexpand)
    obtain ⟨-, -, -, bound, hamended, hrefines⟩ := hmirrors [.remove "a", .set "a" "4"]
    obtain ⟨hanswers, hbound⟩ := Prod.ext_iff.mp hamended
    refine ⟨next, element, map, rfl, helement, horder, hvalue, ?_, ?_⟩
    · rw [← show _ = (amendAll amend element _).1 from hanswers]
      exact congrArg (fun value => [value, none]) hvalue
    · rw [hrefines.order, ← show _ = bound from hbound]
      simp [amendAll, OrderedMap.amend, OrderedMap.set, OrderedMap.remove, horder]

end SvgTidy
