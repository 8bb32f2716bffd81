import SvgTidy.Proofs.AttributeMap
import SvgTidy.Proofs.CalmTrees

/-!
# What jobs leave of an element

What is left of an element when all jobs have entered it can be told without their order (`tidied`): by
the namespaces that some of them look for, by the names that some of them know, and by what all
settings make of a colour. A namespace declaration may be taken out by either of two jobs that look
for it, and only the one that comes first learns its name; but an element or an attribute goes as soon
as one of the jobs knows its name, so it is enough that the names known to all of them together are the
same.

The attribute `xmlns:xmlns` is the exception (`Unbound`): a job that learns the name `xmlns` removes the
namespace declarations that a later one would have learned from.

Principal results: `tidied_append` — some jobs after others; `rewriteAll_eq` — what jobs leave of an
element; `mem_namesOf_turnAll` — the names they know after it.
-/

namespace SvgTidy

namespace Cleanup

variable {jobs rest : List Job} {e : Element} {a : Attribute} {data : NodeData}

/-! ## Names -/

section Names

variable {namespaces namespaces' names names' : List String} {name : String}

theorem toList_of_boundName? (h : boundName? a = some name) :
    a.name.toList = "xmlns:".toList ++ name.toList := by
  unfold boundName? at h
  simp only at h
  split at h
  · rename_i hmark
    obtain rfl := Option.some.inj h
    have hsplit := List.prefix_iff_eq_append.mp (List.isPrefixOf_iff_prefix.mp hmark)
    exact hsplit.symm.trans (congrArg ("xmlns:".toList ++ ·) String.toList_ofList.symm)
  · cases h

/-- A namespace declaration is itself in the namespace of declarations. -/
theorem namespacePart?_of_boundName? (h : (boundName? a).isSome = true) :
    namespacePart? a.name = some "xmlns" := by
  obtain ⟨name, hname⟩ := Option.isSome_iff_exists.mp h
  have hlist := toList_of_boundName? hname
  have hmark : "xmlns:".toList = ['x', 'm', 'l', 'n', 's', ':'] := by decide
  rw [hmark] at hlist
  unfold namespacePart?
  rw [hlist, if_pos (by simp)]
  simp [List.takeWhile]

theorem declares_iff : declares namespaces a = true ↔
    (boundName? a).isSome = true ∧ a.value ∈ namespaces := by
  simp [declares]

theorem usesName_iff : usesName names name = true ↔
    ∃ part ∈ names, namespacePart? name = some part := by
  unfold usesName
  cases namespacePart? name <;> simp

theorem mem_namesBound : name ∈ namesBound namespaces e ↔
    e.is "svg" = true ∧ ∃ a ∈ e.attributes.toList,
      declares namespaces a = true ∧ boundName? a = some name := by
  unfold namesBound
  split
  · rename_i hsvg
    simp [hsvg, and_assoc]
  · rename_i hsvg
    simp [hsvg]

@[simp] theorem declares_nil (a : Attribute) : declares [] a = false := by
  simp [declares]

theorem declares_append (namespaces namespaces' : List String) (a : Attribute) :
    declares (namespaces ++ namespaces') a = (declares namespaces a || declares namespaces' a) := by
  rw [Bool.eq_iff_iff, Bool.or_eq_true, declares_iff, declares_iff, declares_iff, List.mem_append,
    and_or_left]

theorem usesName_append (names names' : List String) (name : String) :
    usesName (names ++ names') name = (usesName names name || usesName names' name) := by
  rw [Bool.eq_iff_iff, Bool.or_eq_true, usesName_iff, usesName_iff, usesName_iff]
  simp only [List.mem_append, or_and_right, exists_or]

theorem declares_congr (h : ∀ n, n ∈ namespaces ↔ n ∈ namespaces') (a : Attribute) :
    declares namespaces a = declares namespaces' a := by
  rw [Bool.eq_iff_iff, declares_iff, declares_iff, h]

theorem usesName_congr (h : ∀ n, n ∈ names ↔ n ∈ names') (name : String) :
    usesName names name = usesName names' name := by
  rw [Bool.eq_iff_iff, usesName_iff, usesName_iff]
  simp only [h]

theorem mem_namesBound_congr (h : ∀ n, n ∈ namespaces ↔ n ∈ namespaces') :
    name ∈ namesBound namespaces e ↔ name ∈ namesBound namespaces' e := by
  rw [mem_namesBound, mem_namesBound]
  simp only [declares_congr h]

theorem namesBound_of_not_svg (h : e.is "svg" = false) : namesBound namespaces e = [] := by
  rw [namesBound, h, if_neg Bool.false_ne_true]

/-- The name of an `svg` element has no namespace part. -/
theorem usesName_svg (h : e.is "svg" = true) : usesName names e.name = false := by
  rw [Element.is, beq_iff_eq] at h
  rw [h]
  rfl

@[simp] theorem namesBound_nil (e : Element) : namesBound [] e = [] :=
  namesBound_eq_nil fun _ _ _ => declares_nil _

/-- No name that an element declares is in its own name. -/
theorem usesName_seen (namespaces names : List String) (e : Element) :
    usesName (names ++ namesBound namespaces e) e.name = usesName names e.name := by
  cases hsvg : e.is "svg" with
  | true => rw [usesName_svg hsvg, usesName_svg hsvg]
  | false => rw [namesBound_of_not_svg hsvg, List.append_nil]

end Names

/-! ## What jobs are about -/

namespace Job

/-- Whether a job removes a node with this payload for what it carries. -/
def selects (data : NodeData) : Job → Bool
  | removal selection => selection.selects data
  | _ => false

/-- The namespaces that a job looks for. -/
def namespaces : Job → List String
  | editorData namespaces _ => namespaces
  | _ => []

/-- The names that a job knows. -/
def names : Job → List String
  | editorData _ names => names
  | _ => []

/-- What a job makes of the value of an attribute. -/
def recolor (name value : String) : Job → String
  | colors rules => rules.convertValue name value
  | _ => value

@[simp] theorem selects_rested (data : NodeData) (job : Job) :
    job.rested.selects data = job.selects data := by
  cases job <;> rfl

@[simp] theorem namespaces_rested (job : Job) : job.rested.namespaces = job.namespaces := by
  cases job <;> rfl

@[simp] theorem names_rested (job : Job) : job.rested.names = [] := by
  cases job <;> rfl

@[simp] theorem recolor_rested (name value : String) (job : Job) :
    job.rested.recolor name value = job.recolor name value := by
  cases job <;> rfl

theorem recolor_comm (job other : Job) (name value : String) :
    other.recolor name (job.recolor name value) = job.recolor name (other.recolor name value) := by
  cases job with
  | colors rules =>
    cases other with
    | colors rules' => exact rules.convertValue_comm rules' name value
    | _ => rfl
  | _ => rfl

theorem recolor_of_boundName? (h : (boundName? a).isSome = true) (job : Job) :
    job.recolor a.name a.value = a.value := by
  cases job with
  | colors rules => exact convertValue_of_boundName? h rules
  | _ => rfl

theorem selects_congr {e' : Element} (h : e'.name = e.name) (job : Job) :
    job.selects (.element e') = job.selects (.element e) := by
  cases job with
  | removal selection => exact selection.element e' e h
  | _ => rfl

theorem keeps_eq (data : NodeData) (job : Job) :
    job.keeps data =
      (!job.selects data && !data.element?.any fun e => usesName job.names e.name) := by
  cases job with
  | editorData namespaces names =>
    cases data with
    | element e => exact congrArg not (usesName_seen namespaces names e)
    | _ => rfl
  | _ => cases data <;> simp [keeps, selects, names, NodeData.element?, usesName_nil]

theorem names_turn_element (e : Element) (job : Job) :
    (job.turn (.element e)).names = job.names ++ namesBound job.namespaces e := by
  cases job with
  | editorData namespaces names => rfl
  | _ => exact (namesBound_nil e).symm

theorem turn_eq_self (h : ∀ e, data = .element e → e.is "svg" = false) (job : Job) :
    job.turn data = job := by
  cases job with
  | editorData namespaces names =>
    cases data with
    | element e =>
      show editorData namespaces (names ++ namesBound namespaces e) = _
      rw [namesBound_of_not_svg (h e rfl), List.append_nil]
    | _ => rfl
  | _ => rfl

end Job

/-- The namespaces that some job looks for. -/
def namespacesOf (jobs : List Job) : List String :=
  jobs.flatMap Job.namespaces

/-- The names that some job knows. -/
def namesOf (jobs : List Job) : List String :=
  jobs.flatMap Job.names

/-- What all jobs make of the value of an attribute. -/
def recolorAll (jobs : List Job) (name value : String) : String :=
  jobs.foldl (fun value job => job.recolor name value) value

/-- An attribute with what all jobs make of its value. -/
def recolored (jobs : List Job) (a : Attribute) : Attribute :=
  { a with value := recolorAll jobs a.name a.value }

/-- The names known once all jobs have seen an element. -/
def namesSeen (jobs : List Job) (e : Element) : List String :=
  namesOf jobs ++ namesBound (namespacesOf jobs) e

/-- Whether all jobs leave an attribute of an element. -/
def keepsAttribute (jobs : List Job) (e : Element) (a : Attribute) : Bool :=
  !(e.is "svg" && declares (namespacesOf jobs) a) && !usesName (namesSeen jobs e) a.name

/-- What jobs leave of an element, told without their order. -/
def tidied (jobs : List Job) (e : Element) : Element :=
  (e.filterAttributes (keepsAttribute jobs e)).mapValues (recolorAll jobs)

theorem namespacesOf_cons (job : Job) (rest : List Job) :
    namespacesOf (job :: rest) = job.namespaces ++ namespacesOf rest := rfl

theorem namesOf_cons (job : Job) (rest : List Job) :
    namesOf (job :: rest) = job.names ++ namesOf rest := rfl

theorem namespacesOf_append (jobs rest : List Job) :
    namespacesOf (jobs ++ rest) = namespacesOf jobs ++ namespacesOf rest :=
  List.flatMap_append

theorem namesOf_append (jobs rest : List Job) :
    namesOf (jobs ++ rest) = namesOf jobs ++ namesOf rest :=
  List.flatMap_append

theorem namespacesOf_rested (jobs : List Job) :
    namespacesOf (jobs.map Job.rested) = namespacesOf jobs := by
  simp [namespacesOf, List.flatMap_map]

theorem namesOf_rested (jobs : List Job) : namesOf (jobs.map Job.rested) = [] := by
  simp [namesOf]

theorem recolorAll_of_boundName? (h : (boundName? a).isSome = true) (jobs : List Job) :
    recolorAll jobs a.name a.value = a.value := by
  unfold recolorAll
  induction jobs with
  | nil => rfl
  | cons job rest ih => rw [List.foldl_cons, job.recolor_of_boundName? h, ih]

theorem declares_recolored (namespaces : List String) (jobs : List Job) (a : Attribute) :
    declares namespaces (recolored jobs a) = declares namespaces a :=
  declares_with_value namespaces fun h => recolorAll_of_boundName? h jobs

theorem recolored_append (jobs rest : List Job) :
    recolored (jobs ++ rest) = recolored rest ∘ recolored jobs := by
  funext a
  simp [recolored, recolorAll]

@[simp] theorem is_tidied (jobs : List Job) (e : Element) (name : String) :
    (tidied jobs e).is name = e.is name := rfl

theorem toList_tidied (jobs : List Job) (e : Element) : (tidied jobs e).attributes.toList =
    (e.attributes.toList.filter (keepsAttribute jobs e)).map (recolored jobs) := rfl

theorem mem_tidied : a ∈ (tidied jobs e).attributes.toList ↔
    ∃ b ∈ e.attributes.toList, keepsAttribute jobs e b = true ∧ recolored jobs b = a := by
  simp [toList_tidied, and_assoc]

/-! ## One job after another -/

/-- No job has learned the name that namespace declarations use, and the element binds it to nothing,
so declarations go only where a job looks for their namespace. -/
structure Unbound (jobs : List Job) (e : Element) : Prop where
  unlearned : "xmlns" ∉ namesOf jobs
  undeclared : e.hasAttribute "xmlns:xmlns" = false

theorem not_mem_namesBound (h : e.hasAttribute "xmlns:xmlns" = false) (namespaces : List String) :
    "xmlns" ∉ namesBound namespaces e := by
  intro hmem
  obtain ⟨-, a, ha, -, hbound⟩ := mem_namesBound.mp hmem
  have hname : a.name = "xmlns:xmlns" :=
    String.toList_inj.mp ((toList_of_boundName? hbound).trans (by decide))
  have hsome : e.hasAttribute "xmlns:xmlns" = true :=
    Attributes.contains_iff.mpr (List.mem_map.mpr ⟨a, ha, hname⟩)
  rw [h] at hsome
  cases hsome

namespace Unbound

theorem not_mem_namesSeen (h : Unbound jobs e) : "xmlns" ∉ namesSeen jobs e := by
  rw [namesSeen, List.mem_append, not_or]
  exact ⟨h.unlearned, not_mem_namesBound h.undeclared _⟩

/-- A declaration that no job looks for stays. -/
theorem keepsAttribute_of_boundName? (h : Unbound jobs e) (hbound : (boundName? a).isSome = true)
    (hfree : declares (namespacesOf jobs) a = false) : keepsAttribute jobs e a = true := by
  have huses : usesName (namesSeen jobs e) a.name = false := by
    rw [Bool.eq_false_iff]
    intro huses
    obtain ⟨part, hpart, hname⟩ := usesName_iff.mp huses
    rw [namespacePart?_of_boundName? hbound, Option.some.injEq] at hname
    exact h.not_mem_namesSeen (hname ▸ hpart)
  rw [keepsAttribute, hfree, huses, Bool.and_false]
  rfl

theorem left (h : Unbound (jobs ++ rest) e) : Unbound jobs e := by
  refine ⟨fun hmem => h.unlearned ?_, h.undeclared⟩
  rw [namesOf_append]
  exact List.mem_append_left _ hmem

theorem right (h : Unbound (jobs ++ rest) e) : Unbound rest (tidied jobs e) := by
  refine ⟨fun hmem => h.unlearned ?_, ?_⟩
  · rw [namesOf_append]
    exact List.mem_append_right _ hmem
  · rw [Bool.eq_false_iff]
    intro hsome
    obtain ⟨a, ha, hname⟩ := List.mem_map.mp (Attributes.contains_iff.mp hsome)
    obtain ⟨b, hb, -, rfl⟩ := mem_tidied.mp ha
    have hbefore : e.hasAttribute "xmlns:xmlns" = true :=
      Attributes.contains_iff.mpr (List.mem_map.mpr ⟨b, hb, hname⟩)
    rw [h.undeclared] at hbefore
    cases hbefore

end Unbound

/-- **What two jobs look for is found by one of them**: the first one, or, if it leaves the declaration
alone, the second. -/
theorem mem_namesBound_append (h : Unbound jobs e) (namespaces : List String) (name : String) :
    name ∈ namesBound (namespacesOf jobs ++ namespaces) e ↔
      name ∈ namesBound (namespacesOf jobs) e ∨ name ∈ namesBound namespaces (tidied jobs e) := by
  simp only [mem_namesBound, is_tidied, ← and_or_left]
  refine and_congr_right fun _ => ⟨?_, ?_⟩
  · rintro ⟨a, ha, hdeclares, hbound⟩
    rw [declares_append, Bool.or_eq_true] at hdeclares
    cases hfirst : declares (namespacesOf jobs) a with
    | true => exact .inl ⟨a, ha, hfirst, hbound⟩
    | false =>
      have hsecond : declares namespaces a = true := by simpa [hfirst] using hdeclares
      have hkeeps := h.keepsAttribute_of_boundName? (declares_iff.mp hsecond).1 hfirst
      exact .inr ⟨_, mem_tidied.mpr ⟨a, ha, hkeeps, rfl⟩,
        (declares_recolored namespaces jobs a).trans hsecond, hbound⟩
  · rintro (⟨a, ha, hdeclares, hbound⟩ | ⟨a, ha, hdeclares, hbound⟩)
    · exact ⟨a, ha, by rw [declares_append, hdeclares, Bool.true_or], hbound⟩
    · obtain ⟨b, hb, -, rfl⟩ := mem_tidied.mp ha
      rw [declares_recolored] at hdeclares
      exact ⟨b, hb, by rw [declares_append, hdeclares, Bool.or_true], hbound⟩

/-- An attribute that some jobs and then some others leave is one that all of them leave. -/
theorem keepsAttribute_append (h : Unbound jobs e) (rest : List Job) (a : Attribute) :
    keepsAttribute (jobs ++ rest) e a = (keepsAttribute jobs e a &&
      keepsAttribute rest (tidied jobs e) (recolored jobs a)) := by
  have huses : usesName (namesSeen (jobs ++ rest) e) a.name =
      (usesName (namesSeen jobs e) a.name ||
        usesName (namesSeen rest (tidied jobs e)) a.name) := by
    rw [← usesName_append]
    refine usesName_congr (fun name => ?_) a.name
    simp only [namesSeen, namesOf_append, namespacesOf_append, List.mem_append,
      mem_namesBound_append h]
    tauto
  rw [keepsAttribute, keepsAttribute, keepsAttribute, huses, declares_recolored, is_tidied,
    namespacesOf_append, declares_append, recolored]
  cases e.is "svg" <;> cases declares (namespacesOf jobs) a <;>
    cases declares (namespacesOf rest) a <;> cases usesName (namesSeen jobs e) a.name <;> rfl

/-- **What jobs leave is tidied by the jobs after them.** -/
theorem tidied_append (h : Unbound jobs e) (rest : List Job) :
    tidied (jobs ++ rest) e = tidied rest (tidied jobs e) := by
  refine Element.ext_toList rfl ?_
  rw [toList_tidied, toList_tidied rest, toList_tidied jobs, List.filter_map, List.filter_filter,
    List.map_map, recolored_append]
  congr 1
  refine List.filter_congr fun a _ => ?_
  rw [keepsAttribute_append h, Bool.and_comm]
  rfl

/-! ## Entering a node -/

theorem tidied_of_no_names (hnamespaces : namespacesOf jobs = []) (hnames : namesOf jobs = [])
    (e : Element) : tidied jobs e = e.mapValues (recolorAll jobs) := by
  have hkeeps : ∀ a ∈ e.attributes.toList, keepsAttribute jobs e a = true := by
    intro a _
    simp [keepsAttribute, hnamespaces, namesSeen, hnames, usesName_nil]
  rw [tidied, e.filterAttributes_of_forall hkeeps]

theorem tidied_nil (e : Element) : tidied [] e = e :=
  (tidied_of_no_names rfl rfl e).trans (e.mapValues_of_forall fun _ _ => rfl)

theorem keepsAttribute_editorData (namespaces names : List String) (e : Element) :
    keepsAttribute [.editorData namespaces names] e = fun a =>
      !(e.is "svg" && declares namespaces a) &&
        !usesName (names ++ namesBound namespaces e) a.name := by
  funext a
  simp [keepsAttribute, namesSeen, namespacesOf, namesOf, Job.namespaces, Job.names]

theorem Job.cleanElement_eq {namespaces names : List String}
    (h : usesName names e.name = false) :
    cleanElement namespaces (names ++ namesBound namespaces e) e =
      tidied [.editorData namespaces names] e := by
  have hself : recolored [.editorData namespaces names] = id := rfl
  refine Element.ext_toList (name_cleanElement _ _ e) ?_
  rw [toList_tidied, hself, List.map_id, keepsAttribute_editorData, cleanElement, usesName_seen, h]
  unfold withoutDeclarations
  cases e.is "svg" <;>
    simp [Element.filterAttributes, Attributes.filter, Bool.and_comm]

/-- **What a job leaves of an element that stays.** -/
theorem Job.rewrite_eq (job : Job) (h : usesName job.names e.name = false) :
    job.rewrite (.element e) = .element (tidied [job] e) := by
  cases job with
  | editorData namespaces names => exact congrArg NodeData.element (cleanElement_eq h)
  | colors rules =>
    have hcolors : tidied [.colors rules] e = e.mapValues rules.convertValue :=
      tidied_of_no_names rfl rfl e
    rw [hcolors]
    rfl
  | _ =>
    refine congrArg NodeData.element (Eq.symm ((tidied_of_no_names ?_ ?_ e).trans ?_))
    · rfl
    · rfl
    · exact e.mapValues_of_forall fun _ _ => rfl

/-- Whether a node stays when all jobs have entered it. -/
theorem keepsAll_eq (jobs : List Job) (data : NodeData) :
    keepsAll jobs data = (!jobs.any (·.selects data) &&
      !data.element?.any fun e => usesName (namesOf jobs) e.name) := by
  induction jobs generalizing data with
  | nil => cases data <;> simp [keepsAll, namesOf, NodeData.element?, usesName_nil]
  | cons job rest ih =>
    rw [keepsAll, job.keeps_eq, ih, List.any_cons]
    cases data with
    | element e =>
      -- the job leaves the name of the element, which is all that the other jobs judge by
      obtain ⟨e', he', hname, -⟩ := job.rewrite_element e
      have hselects : (rest.any (·.selects (.element e'))) = rest.any (·.selects (.element e)) :=
        congrArg rest.any (funext fun other => other.selects_congr hname)
      simp only [he', hselects, NodeData.element?, Option.any_some, hname, namesOf_cons,
        usesName_append, Bool.not_or]
      ac_rfl
    | _ =>
      rw [job.rewrite_of_not_element (by simp [NodeData.kind])]
      simp [NodeData.element?]

/-- **What jobs leave of an element that stays.** -/
theorem rewriteAll_eq (h : Unbound jobs e) (hstays : usesName (namesOf jobs) e.name = false) :
    rewriteAll jobs (.element e) = .element (tidied jobs e) := by
  induction jobs generalizing e with
  | nil => rw [tidied_nil]; rfl
  | cons job rest ih =>
    have hsplit : Unbound ([job] ++ rest) e := h
    rw [namesOf_cons, usesName_append, Bool.or_eq_false_iff] at hstays
    rw [rewriteAll, job.rewrite_eq hstays.1, ih hsplit.right hstays.2,
      ← tidied_append hsplit.left rest]
    rfl

theorem turnAll_eq_self (h : ∀ e, data = .element e → e.is "svg" = false) (jobs : List Job) :
    turnAll jobs data = jobs := by
  induction jobs generalizing data with
  | nil => rfl
  | cons job rest ih =>
    rw [turnAll, job.turn_eq_self h, ih]
    intro e' he'
    cases data with
    | element e =>
      obtain ⟨e'', he'', hname, -⟩ := job.rewrite_element e
      rw [he''] at he'
      cases he'
      exact (congrArg (· == "svg") hname).trans (h e rfl)
    | _ =>
      rw [job.rewrite_of_not_element (by simp [NodeData.kind])] at he'
      cases he'

/-- **The names known after an element** are those known before it and those that it declares. -/
theorem mem_namesOf_turnAll (h : Unbound jobs e) (name : String) :
    name ∈ namesOf (turnAll jobs (.element e)) ↔ name ∈ namesSeen jobs e := by
  -- an element that goes is not tidied, but it is no `svg` and declares nothing
  cases hsvg : e.is "svg" with
  | false =>
    have hsame : turnAll jobs (.element e) = jobs :=
      turnAll_eq_self (fun e' he' => by cases he'; exact hsvg) jobs
    rw [hsame, namesSeen, namesBound_of_not_svg hsvg, List.append_nil]
  | true =>
    induction jobs generalizing e with
    | nil => simp [turnAll, namesSeen, namesOf, namespacesOf]
    | cons job rest ih =>
      have hsplit : Unbound ([job] ++ rest) e := h
      have hbound := mem_namesBound_append hsplit.left (namespacesOf rest) name
      rw [show namespacesOf [job] = job.namespaces from List.append_nil _] at hbound
      rw [turnAll, job.rewrite_eq (usesName_svg hsvg), namesOf_cons, job.names_turn_element,
        List.mem_append, ih hsplit.right hsvg, namesSeen, namesSeen, namespacesOf_cons,
        namesOf_cons]
      simp only [List.mem_append, hbound]
      tauto

end Cleanup

end SvgTidy
