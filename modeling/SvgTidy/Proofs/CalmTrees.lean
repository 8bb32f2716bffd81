import SvgTidy.Proofs.CleanupSweeps
import SvgTidy.Proofs.ColorShortening
import SvgTidy.Proofs.ReadableTrees

/-!
# A second sweep finds nothing to do

A job is settled on a payload when it would leave it as it is, with nothing remembered. What a job has
rewritten it is settled on, and no other job undoes that, so after all jobs have entered a node all of
them are settled on its payload. `Calm` says the same of a whole tree, and that neither a group gives
way in it nor a container goes.

Principal results: `calm_sweepAll` — what a sweep leaves is calm; `sweepAll_of_calm` — a sweep over
calm trees changes nothing.
-/

namespace SvgTidy

namespace Element

theorem filterAttributes_of_forall (e : Element) {keep : Attribute → Bool}
    (h : ∀ a ∈ e.attributes.toList, keep a = true) : e.filterAttributes keep = e := by
  obtain ⟨name, ⟨list, hnodup⟩⟩ := e
  simp only [filterAttributes, Attributes.filter]
  congr 2
  exact List.filter_eq_self.mpr h

theorem mapValues_of_forall (e : Element) {change : String → String → String}
    (h : ∀ a ∈ e.attributes.toList, change a.name a.value = a.value) : e.mapValues change = e := by
  obtain ⟨name, ⟨list, hnodup⟩⟩ := e
  simp only [mapValues, Attributes.mapValues]
  congr 2
  refine (List.map_congr_left (g := id) fun a ha => ?_).trans (List.map_id list)
  rw [h a ha]
  rfl

end Element

namespace Cleanup

variable {jobs : List Job} {data : NodeData}

/-! ## One job -/

/-- The job leaves a node with this payload as it is. -/
def Job.Settled : Job → NodeData → Prop
  | .removal selection, data => selection.selects data = false
  | .editorData namespaces _, data => ∀ e, data = .element e → e.is "svg" = true →
      ∀ a ∈ e.attributes.toList, declares namespaces a = false
  | .colors rules, data => ∀ e, data = .element e →
      ∀ a ∈ e.attributes.toList, rules.convertValue a.name a.value = a.value
  | .collapsing, _ => True
  | .pruning, _ => True

/-- A name in the way of namespace declarations is no property. -/
theorem convertValue_of_boundName? {a : Attribute} (h : (boundName? a).isSome = true)
    (rules : ColorRules) : rules.convertValue a.name a.value = a.value := by
  have hmark : "xmlns:".toList.isPrefixOf a.name.toList = true := by
    simp only [boundName?] at h
    split at h
    · rename_i hmark
      exact hmark
    · cases h
  have hnames : ∀ name ∈ "style" :: colorProperties,
      "xmlns:".toList.isPrefixOf name.toList = false := by
    decide +kernel
  have hfree : a.name ∉ "style" :: colorProperties := by
    intro hm
    rw [hnames _ hm] at hmark
    cases hmark
  rw [List.mem_cons, not_or] at hfree
  rw [ColorRules.convertValue, if_neg (by simpa using hfree.2), if_neg hfree.1]

/-- An attribute declares the same namespaces when its value changes only if it is no declaration. -/
theorem declares_with_value (namespaces : List String) {a : Attribute} {value : String}
    (h : (boundName? a).isSome = true → value = a.value) :
    declares namespaces { a with value := value } = declares namespaces a := by
  cases hbound : (boundName? a).isSome with
  | true => rw [h hbound]
  | false =>
    have hsame : (boundName? { a with value := value }).isSome = false := hbound
    rw [declares, declares, hsame, hbound, Bool.false_and, Bool.false_and]

/-- Shortening colours makes no declaration of a namespace, and spoils none. -/
theorem declares_convertValue (namespaces : List String) (rules : ColorRules) (a : Attribute) :
    declares namespaces { a with value := rules.convertValue a.name a.value } =
      declares namespaces a :=
  declares_with_value namespaces fun h => convertValue_of_boundName? h rules

theorem usesName_nil (name : String) : usesName [] name = false := by
  unfold usesName
  cases namespacePart? name <;> rfl

theorem namesBound_eq_nil {namespaces : List String} {e : Element}
    (h : e.is "svg" = true → ∀ a ∈ e.attributes.toList, declares namespaces a = false) :
    namesBound namespaces e = [] := by
  unfold namesBound
  split
  · rename_i hsvg
    have hnone : e.attributes.toList.filter (declares namespaces) = [] :=
      List.filter_eq_nil_iff.mpr fun a ha => by simp [h hsvg a ha]
    rw [hnone, List.filterMap_nil]
  · rfl

namespace Job

theorem cleanElement_nil {namespaces : List String} {e : Element}
    (h : e.is "svg" = true → ∀ a ∈ e.attributes.toList, declares namespaces a = false) :
    cleanElement namespaces [] e = e := by
  have hbare : withoutDeclarations namespaces e = e := by
    unfold withoutDeclarations
    split
    · rename_i hsvg
      exact e.filterAttributes_of_forall fun a ha => by simp [h hsvg a ha]
    · rfl
  unfold cleanElement
  simp only [hbare, usesName_nil]
  exact e.filterAttributes_of_forall fun _ _ => rfl

/-- **A job is settled on what it has rewritten.** -/
theorem settled_rewrite_self (job : Job) (h : job.keeps data = true) :
    job.Settled (job.rewrite data) := by
  cases job with
  | removal selection =>
    rw [keeps, Bool.not_eq_eq_eq_not, Bool.not_true] at h
    exact h
  | editorData namespaces names =>
    intro e he hsvg a ha
    cases data with
    | element e' =>
      cases he
      refine (mem_cleanElement ha).2 ?_
      rw [Element.is, name_cleanElement] at hsvg
      exact hsvg
    | _ => cases he
  | colors rules =>
    intro e he a ha
    cases data with
    | element e' =>
      cases he
      obtain ⟨b, -, rfl⟩ := List.mem_map.mp ha
      exact rules.convertValue_convertValue b.name b.value
    | _ => cases he
  | _ => trivial

/-- **No job undoes what another one has done.** -/
theorem Settled.rewrite {job : Job} (h : job.Settled data) (other : Job) :
    job.Settled (other.rewrite data) := by
  cases data with
  | element e =>
    obtain ⟨e', he', hname, hall⟩ := other.rewrite_element e
    rw [he']
    cases job with
    | removal selection => exact (selection.element e' e hname).trans h
    | editorData namespaces names =>
      intro e'' heq hsvg a ha
      cases heq
      rw [Element.is, hname] at hsvg
      obtain ⟨b, hb, rfl | ⟨rules, rfl⟩⟩ := hall a ha
      · exact h e rfl hsvg a hb
      · rw [declares_convertValue]
        exact h e rfl hsvg b hb
    | colors rules =>
      intro e'' heq a ha
      cases heq
      obtain ⟨b, hb, rfl | ⟨rules', rfl⟩⟩ := hall a ha
      · exact h e rfl a hb
      · exact ColorRules.convertValue_of_settled (h e rfl b hb) rules'
    | _ => trivial
  | _ =>
    exact (congrArg job.Settled (other.rewrite_of_not_element (by simp [NodeData.kind]))).mpr h

theorem Settled.rewriteAll {job : Job} (h : job.Settled data) (others : List Job) :
    job.Settled (rewriteAll others data) := by
  induction others generalizing data with
  | nil => exact h
  | cons other others ih => exact ih (h.rewrite other)

/-- A settled job keeps the node, leaves its payload and learns nothing. -/
theorem Settled.spec {job : Job} (h : job.Settled data) :
    job.rested.keeps data = true ∧ job.rested.rewrite data = data ∧
      job.rested.turn data = job.rested := by
  cases job with
  | removal selection =>
    refine ⟨?_, rfl, rfl⟩
    show (!selection.selects data) = true
    rw [show selection.selects data = false from h]
    rfl
  | editorData namespaces names =>
    cases data with
    | element e =>
      have hfree := h e rfl
      have hnames : namesAfter namespaces [] (.element e) = [] := namesBound_eq_nil hfree
      refine ⟨?_, ?_, ?_⟩
      · show (!usesName (namesAfter namespaces [] (.element e)) e.name) = true
        rw [hnames, usesName_nil]
        rfl
      · show NodeData.element (cleanElement namespaces (namesAfter namespaces [] (.element e)) e) = _
        rw [hnames, cleanElement_nil hfree]
      · show editorData namespaces (namesAfter namespaces [] (.element e)) = _
        rw [hnames]
        rfl
    | _ => exact ⟨rfl, rfl, rfl⟩
  | colors rules =>
    cases data with
    | element e =>
      refine ⟨rfl, ?_, rfl⟩
      show NodeData.element (e.mapValues rules.convertValue) = _
      rw [e.mapValues_of_forall (h e rfl)]
    | _ => exact ⟨rfl, rfl, rfl⟩
  | _ => exact ⟨rfl, rfl, rfl⟩

end Job

/-! ## Trees -/

/-- All jobs are settled on what they have rewritten one after the other. -/
theorem settled_rewriteAll : ∀ {jobs : List Job} {data : NodeData}, keepsAll jobs data = true →
    ∀ job ∈ jobs, job.Settled (rewriteAll jobs data)
  | job :: rest, data, h, job', hjob' => by
    rw [keepsAll, Bool.and_eq_true] at h
    rcases List.mem_cons.mp hjob' with rfl | hjob'
    · exact (job'.settled_rewrite_self h.1).rewriteAll rest
    · exact settled_rewriteAll h.2 job' hjob'

/-- Jobs that are settled keep the node, leave its payload and learn nothing. -/
theorem enterAll_of_settled : ∀ {jobs : List Job}, (∀ job ∈ jobs, job.Settled data) →
    keepsAll (jobs.map Job.rested) data = true ∧ rewriteAll (jobs.map Job.rested) data = data ∧
      turnAll (jobs.map Job.rested) data = jobs.map Job.rested
  | [], _ => ⟨rfl, rfl, rfl⟩
  | job :: rest, h => by
    obtain ⟨hkeeps, hrewrite, hturn⟩ := (h job List.mem_cons_self).spec
    obtain ⟨hkeeps', hrewrite', hturn'⟩ :=
      enterAll_of_settled fun x hx => h x (List.mem_cons_of_mem _ hx)
    rw [List.map_cons, keepsAll, rewriteAll, turnAll, hkeeps, hrewrite, hturn, hkeeps', hrewrite',
      hturn']
    exact ⟨rfl, rfl, rfl⟩

/-- No job has anything to do in a tree. -/
inductive Calm (jobs : List Job) : Bool → Tree → Prop where
  | leaf {fixed : Bool} {id : NodeId} {data : NodeData} {children : List Tree}
      (hkind : data.kind ≠ .element) (hsettled : ∀ job ∈ jobs, job.Settled data) :
      Calm jobs fixed (.node id data children)
  | element {fixed : Bool} {id : NodeId} {e : Element} {children : List Tree}
      (hsettled : ∀ job ∈ jobs, job.Settled (.element e)) (hgives : givesWay jobs fixed e = false)
      (hpruned : isPruned jobs e children = false)
      (hbelow : ∀ t ∈ children, Calm jobs (e.is "switch") t) :
      Calm jobs fixed (.node id (.element e) children)

theorem Calm.settled {fixed : Bool} {t : Tree} (h : Calm jobs fixed t) :
    ∀ job ∈ jobs, job.Settled t.data := by
  cases h with
  | leaf _ hsettled => exact hsettled
  | element hsettled _ _ _ => exact hsettled

theorem Job.settled_rested {job : Job} : job.rested.Settled data ↔ job.Settled data := by
  cases job <;> rfl

/-- A plain group is no `switch`. -/
theorem is_switch_of_isPlainGroup {e : Element} (h : isPlainGroup e = true) :
    e.is "switch" = false := by
  rw [isPlainGroup, Bool.and_eq_true, Element.is, beq_iff_eq] at h
  rw [Element.is, h.1]
  decide

theorem settled_of_keepsAll (h : keepsAll jobs data = true) :
    ∀ job ∈ jobs.map Job.rested, job.Settled (rewriteAll jobs data) := by
  intro job hjob
  obtain ⟨job, hmem, rfl⟩ := List.mem_map.mp hjob
  exact Job.settled_rested.mpr (settled_rewriteAll h job hmem)

mutual

theorem calm_sweep (fixed : Bool) (jobs : List Job) :
    ∀ t : Tree, ∀ t' ∈ (sweep fixed jobs t).2, Calm (jobs.map Job.rested) fixed t'
  | .node id data children => by
    intro t' ht'
    obtain ⟨hkeeps, hcases⟩ := mem_sweep ht'
    have hsettled := settled_of_keepsAll hkeeps
    rcases hcases with ⟨hkind, rfl⟩ | ⟨e, hrewrite, hleft⟩
    · rw [rewriteAll_of_not_element jobs hkind] at hsettled
      exact .leaf hkind hsettled
    · rw [hrewrite] at hsettled
      have hbelow := calm_sweepAll (e.is "switch") (turnAll jobs data) children
      rw [rested_turnAll] at hbelow
      rcases mem_leaveAll hleft with ⟨rfl, hplain, hleft⟩ | ⟨hgives, hpruned, rfl⟩
      · -- the children stand where the group stood, and neither place keeps groups
        rw [← is_switch_of_isPlainGroup hplain]
        exact hbelow t' hleft
      · rw [← givesWay_rested] at hgives
        rw [← isPruned_rested] at hpruned
        exact .element hsettled hgives hpruned hbelow

/-- **What a sweep leaves is calm.** -/
theorem calm_sweepAll (fixed : Bool) (jobs : List Job) :
    ∀ trees : List Tree, ∀ t' ∈ (sweepAll fixed jobs trees).2, Calm (jobs.map Job.rested) fixed t'
  | [] => nofun
  | t :: others => by
    intro t' ht'
    unfold sweepAll at ht'
    rcases List.mem_append.mp ht' with ht' | ht'
    · exact calm_sweep fixed jobs t t' ht'
    · rw [← rested_sweep fixed jobs t]
      exact calm_sweepAll fixed (sweep fixed jobs t).1 others t' ht'

end

mutual

theorem sweep_of_calm {fixed : Bool} : ∀ {t : Tree}, Calm (jobs.map Job.rested) fixed t →
    sweep fixed (jobs.map Job.rested) t = (jobs.map Job.rested, [t])
  | .node id data children, h => by
    have hsettled : ∀ job ∈ jobs, job.Settled data := fun job hjob =>
      Job.settled_rested.mp (h.settled _ (List.mem_map_of_mem hjob))
    obtain ⟨hkeeps, hrewrite, hturn⟩ := enterAll_of_settled hsettled
    unfold sweep
    rw [if_pos hkeeps, hrewrite, hturn]
    cases h with
    | leaf hkind _ =>
      cases data with
      | element e => exact absurd rfl hkind
      | _ => rfl
    | element _ hgives hpruned hbelow =>
      simp only [sweepAll_of_calm hbelow]
      rw [leaveAll, if_neg (by rw [hgives]; exact Bool.false_ne_true),
        if_neg (by rw [hpruned]; exact Bool.false_ne_true)]

/-- **A sweep over calm trees changes nothing.** -/
theorem sweepAll_of_calm {fixed : Bool} : ∀ {trees : List Tree},
    (∀ t ∈ trees, Calm (jobs.map Job.rested) fixed t) →
    sweepAll fixed (jobs.map Job.rested) trees = (jobs.map Job.rested, trees)
  | [], _ => rfl
  | t :: others, h => by
    simp only [sweepAll, sweep_of_calm (h t List.mem_cons_self),
      sweepAll_of_calm fun x hx => h x (List.mem_cons_of_mem _ hx), List.singleton_append]

end

end Cleanup

end SvgTidy
