import Mathlib.Data.List.Nodup
import SvgTidy.Document.Node

/-!
# Attributes bind names in order

`OrderedMap` is what a map that remembers the order of insertion should be: the names in that order,
and what each of them is bound to. `Attributes.toMap` reads attributes as such a map, and each
operation on attributes is the one on maps.

A bare list can be searched for the first attribute of a name instead (`setFirst`, `takeFirst`). That
comes to the same as long as no name is there twice.

Principal results: `toMap_set`, `toMap_erase`, `toMap_filter`, `toMap_mapValues` — the operations as
those on maps; `toList_set`, `takeFirst_toList` — the operations by first match.
-/

namespace SvgTidy

theorem Element.ext_toList {e e' : Element} (hname : e.name = e'.name)
    (hlist : e.attributes.toList = e'.attributes.toList) : e = e' := by
  obtain ⟨name, ⟨list, hnodup⟩⟩ := e
  obtain ⟨name', ⟨list', hnodup'⟩⟩ := e'
  obtain rfl : name = name' := hname
  obtain rfl : list = list' := hlist
  rfl

/-! ## Maps that remember the order of insertion -/

/-- Names in the order in which they were bound, and what each of them is bound to. -/
@[ext]
structure OrderedMap where
  order : List String
  value : String → Option String
  nodup : order.Nodup
  mem_order : ∀ name, name ∈ order ↔ (value name).isSome = true

namespace OrderedMap

/-- The map that binds no name. -/
def empty : OrderedMap where
  order := []
  value _ := none
  nodup := .nil
  mem_order := by simp

/-- Bind a name. A bound one keeps its place, another one goes last. -/
def set (map : OrderedMap) (name new : String) : OrderedMap where
  order := if name ∈ map.order then map.order else map.order ++ [name]
  value other := if other = name then some new else map.value other
  nodup := by
    split
    · exact map.nodup
    · rename_i hnew
      rw [← List.concat_eq_append]
      exact map.nodup.concat hnew
  mem_order other := by
    by_cases hother : other = name
    · subst hother
      by_cases hknown : other ∈ map.order <;> simp [hknown]
    · by_cases hknown : name ∈ map.order <;> simp [hknown, hother, map.mem_order]

/-- Unbind a name. -/
def remove (map : OrderedMap) (name : String) : OrderedMap where
  order := map.order.filter (· != name)
  value other := if other = name then none else map.value other
  nodup := map.nodup.filter _
  mem_order other := by
    by_cases hother : other = name <;> simp [hother, map.mem_order]

/-- Keep the bindings that pass a test. -/
def retain (keep : String → String → Bool) (map : OrderedMap) : OrderedMap where
  order := map.order.filter fun name => (map.value name).any (keep name)
  value name := (map.value name).filter (keep name)
  nodup := map.nodup.filter _
  mem_order name := by
    rw [List.mem_filter, map.mem_order, Option.isSome_filter]
    cases map.value name <;> simp

/-- Change what names are bound to. -/
def revalue (change : String → String → String) (map : OrderedMap) : OrderedMap where
  order := map.order
  value name := (map.value name).map (change name)
  nodup := map.nodup
  mem_order name := by rw [map.mem_order, Option.isSome_map]

/-- The bindings in order. -/
def entries (map : OrderedMap) : List Attribute :=
  map.order.filterMap fun name => (map.value name).map (Attribute.mk name)

end OrderedMap

namespace Attributes

variable {attributes : Attributes} {name value : String}

/-! ## Attributes as such a map -/

/-- Each name has the value that the attribute of the name has. -/
theorem get?_eq_some_iff : attributes.get? name = some value ↔ ⟨name, value⟩ ∈ attributes.toList := by
  rw [get?, Option.map_eq_some_iff]
  constructor
  · rintro ⟨a, hfind, rfl⟩
    obtain rfl : a.name = name := by simpa using List.find?_some hfind
    exact List.mem_of_find?_eq_some hfind
  · intro ha
    obtain ⟨b, hfind⟩ := Option.isSome_iff_exists.mp
      (List.find?_isSome (p := (·.name == name)).mpr ⟨_, ha, beq_self_eq_true _⟩)
    have hname : b.name = name := by simpa using List.find?_some hfind
    exact ⟨b, hfind, congrArg Attribute.value
      (List.inj_on_of_nodup_map attributes.nodup (List.mem_of_find?_eq_some hfind) ha hname)⟩

theorem contains_eq_isSome_get? : attributes.contains name = (attributes.get? name).isSome := by
  rw [contains, get?, Option.isSome_map, List.isSome_find?]

/-- What attributes bind. -/
def toMap (attributes : Attributes) : OrderedMap where
  order := attributes.toList.map (·.name)
  value := attributes.get?
  nodup := attributes.nodup
  mem_order name := by rw [← contains_iff, contains_eq_isSome_get?]

theorem value_toMap_of_mem {a : Attribute} (ha : a ∈ attributes.toList) :
    attributes.toMap.value a.name = some a.value :=
  get?_eq_some_iff.mpr ha

/-- Nothing but what attributes bind, and the order, is in them. -/
theorem entries_toMap (attributes : Attributes) : attributes.toMap.entries = attributes.toList := by
  show (attributes.toList.map (·.name)).filterMap _ = attributes.toList
  rw [List.filterMap_map]
  refine (List.filterMap_congr fun a ha => ?_).trans List.filterMap_some
  rw [Function.comp_apply, value_toMap_of_mem ha, Option.map_some]

theorem toList_set_of_contains (h : attributes.contains name = true) (value : String) :
    (attributes.set name value).toList =
      attributes.toList.map fun a => { a with value := if a.name = name then value else a.value } := by
  rw [set, dif_pos h]
  rfl

theorem toList_set_of_not_contains (h : attributes.contains name = false) (value : String) :
    (attributes.set name value).toList = attributes.toList ++ [⟨name, value⟩] := by
  rw [set, dif_neg (by simp [h])]

theorem get?_mapValues (change : String → String → String) :
    (attributes.mapValues change).get? name = (attributes.get? name).map (change name) := by
  rw [get?, get?, mapValues, List.find?_map, Option.map_map, Option.map_map]
  refine Option.map_congr fun a hfind => ?_
  obtain rfl : a.name = name := by simpa using List.find?_some hfind
  rfl

theorem get?_filter (keep : Attribute → Bool) :
    (attributes.filter keep).get? name = (attributes.get? name).filter fun value => keep ⟨name, value⟩ := by
  ext value
  rw [get?_eq_some_iff, Option.filter_eq_some_iff, get?_eq_some_iff]
  exact List.mem_filter

theorem get?_set (other : String) :
    (attributes.set name value).get? other = if other = name then some value else attributes.get? other := by
  cases hcontains : attributes.contains name with
  | true =>
    rw [set, dif_pos hcontains, get?_mapValues]
    split
    · rename_i hother
      rw [hother]
      obtain ⟨old, hold⟩ := Option.isSome_iff_exists.mp (contains_eq_isSome_get?.symm.trans hcontains)
      simp [hold]
    · rename_i hother
      simp
  | false =>
    ext new
    rw [get?_eq_some_iff, toList_set_of_not_contains hcontains, List.mem_append,
      List.mem_singleton, ← get?_eq_some_iff]
    split
    · rename_i hother
      have hnone : attributes.get? name = none := by
        rw [← Option.not_isSome_iff_eq_none, ← contains_eq_isSome_get?, hcontains]
        exact Bool.false_ne_true
      simp [hother, hnone, eq_comm]
    · rename_i hother
      simp [hother]

theorem toMap_set (attributes : Attributes) (name value : String) :
    (attributes.set name value).toMap = attributes.toMap.set name value := by
  ext1
  · show (attributes.set name value).toList.map (·.name) = if name ∈ attributes.toList.map (·.name)
      then attributes.toList.map (·.name) else attributes.toList.map (·.name) ++ [name]
    cases hcontains : attributes.contains name with
    | true => simp [toList_set_of_contains hcontains, ← contains_iff, hcontains]
    | false => simp [toList_set_of_not_contains hcontains, ← contains_iff, hcontains]
  · exact funext fun other => get?_set other

theorem toMap_filter (keep : Attribute → Bool) (attributes : Attributes) :
    (attributes.filter keep).toMap = attributes.toMap.retain fun name value => keep ⟨name, value⟩ := by
  ext1
  · show (attributes.toList.filter keep).map (·.name) = (attributes.toList.map (·.name)).filter _
    rw [List.filter_map]
    refine congrArg _ (List.filter_congr fun a ha => ?_)
    simp [value_toMap_of_mem ha]
  · exact funext fun name => get?_filter keep

theorem toMap_erase (attributes : Attributes) (name : String) :
    (attributes.erase name).toMap = attributes.toMap.remove name := by
  ext1
  · show (attributes.toList.filter _).map (·.name) = (attributes.toList.map (·.name)).filter _
    rw [List.filter_map]
    rfl
  · funext other
    show (attributes.filter _).get? other = if other = name then none else attributes.get? other
    rw [get?_filter]
    cases attributes.get? other <;> by_cases hother : other = name <;> simp [hother]

theorem toMap_mapValues (change : String → String → String) (attributes : Attributes) :
    (attributes.mapValues change).toMap = attributes.toMap.revalue change := by
  ext1
  · exact List.map_map
  · exact funext fun name => get?_mapValues change

/-! ## The first attribute of a name -/

/-- Give the first attribute of a name this value, or add one at the end. -/
def setFirst (name value : String) : List Attribute → List Attribute
  | [] => [⟨name, value⟩]
  | a :: rest =>
    if a.name = name then { a with value := value } :: rest else a :: setFirst name value rest

/-- The value of the first attribute of a name, and what is left without that attribute. -/
def takeFirst (name : String) : List Attribute → Option String × List Attribute
  | [] => (none, [])
  | a :: rest =>
    if a.name = name then (some a.value, rest)
    else ((takeFirst name rest).1, a :: (takeFirst name rest).2)

theorem setFirst_of_notMem {list : List Attribute} (h : name ∉ list.map (·.name)) :
    setFirst name value list = list ++ [⟨name, value⟩] := by
  induction list with
  | nil => rfl
  | cons a rest ih =>
    rw [List.map_cons, List.mem_cons, not_or] at h
    rw [setFirst, if_neg (Ne.symm h.1), ih h.2, List.cons_append]

theorem setFirst_of_mem {list : List Attribute} (hnodup : (list.map (·.name)).Nodup)
    (h : name ∈ list.map (·.name)) : setFirst name value list =
      list.map fun a => { a with value := if a.name = name then value else a.value } := by
  induction list with
  | nil => simp at h
  | cons a rest ih =>
    rw [List.map_cons, List.nodup_cons] at hnodup
    rw [setFirst, List.map_cons]
    split
    · rename_i hname
      have hrest : ∀ b ∈ rest, b.name ≠ name := fun b hb heq =>
        hnodup.1 (List.mem_map.mpr ⟨b, hb, heq.trans hname.symm⟩)
      refine congrArg _ ((List.map_id rest).symm.trans (List.map_congr_left fun b hb => ?_))
      rw [if_neg (hrest b hb), id]
    · rename_i hname
      rw [ih hnodup.2 ((List.mem_cons.mp h).resolve_left (Ne.symm hname))]

theorem toList_set (attributes : Attributes) (name value : String) :
    (attributes.set name value).toList = setFirst name value attributes.toList := by
  cases hcontains : attributes.contains name with
  | true =>
    rw [toList_set_of_contains hcontains,
      setFirst_of_mem attributes.nodup (contains_iff.mp hcontains)]
  | false =>
    have hnew : name ∉ attributes.toList.map (·.name) := fun hmem =>
      Bool.false_ne_true (hcontains.symm.trans (contains_iff.mpr hmem))
    rw [toList_set_of_not_contains hcontains, setFirst_of_notMem hnew]

theorem takeFirst_eq {list : List Attribute} (hnodup : (list.map (·.name)).Nodup) :
    takeFirst name list =
      ((list.find? (·.name == name)).map (·.value), list.filter (·.name != name)) := by
  induction list with
  | nil => rfl
  | cons a rest ih =>
    rw [List.map_cons, List.nodup_cons] at hnodup
    rw [takeFirst]
    split
    · rename_i hname
      have hrest : rest.filter (·.name != name) = rest := List.filter_eq_self.mpr fun b hb =>
        bne_iff_ne.mpr fun heq => hnodup.1 (List.mem_map.mpr ⟨b, hb, heq.trans hname.symm⟩)
      simp [hname, hrest]
    · rename_i hname
      simp [hname, ih hnodup.2]

theorem takeFirst_toList (attributes : Attributes) (name : String) :
    takeFirst name attributes.toList = (attributes.get? name, (attributes.erase name).toList) :=
  takeFirst_eq attributes.nodup

end Attributes

end SvgTidy
