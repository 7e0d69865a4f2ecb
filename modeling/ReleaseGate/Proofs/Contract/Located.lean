import ReleaseGate.Proofs.Contract.Failed
import ReleaseGate.Proofs.Text.Quoted

/-!
# Places of reports

Each report names the place of its check by the path that leads there from the root. As long as no
step of a path can be taken for two, no two failed checks have one report.
-/
namespace ReleaseGate.Contract

open Json Text

def MetricDefect.steps : MetricDefect → List String
  | .notRecord | .missingField _ => []
  | .label => ["granularity_label"]
  | .value => ["value"]
  | .provenance => ["tool_provenance"]
  | .provenanceField name => ["tool_provenance", name]

def metricStep (index : Nat) : String :=
  "metrics[" ++ String.ofList (natDigits index) ++ "]"

/-- The steps from the taxonomy to the place of a check. -/
def Check.steps : Check → List String
  | .artifact => []
  | .schema => ["schema"]
  | .dimensions => ["dimensions"]
  | .dimension name | .labels name => ["dimensions", name]
  | .metrics name => ["dimensions", name, "metrics"]
  | .metric name index defect => "dimensions" :: name :: metricStep index :: defect.steps

def pathOf (root : String) (steps : List String) : String :=
  steps.foldl (fun path step => path ++ "." ++ step) root

theorem toList_pathOf (root : String) (steps : List String) :
    (pathOf root steps).toList = root.toList ++ steps.flatMap fun step => '.' :: step.toList := by
  induction steps generalizing root with
  | nil => simp [pathOf]
  | cons step steps ih =>
    rw [pathOf, List.foldl_cons, ← pathOf, ih]
    simp

/-- A name that a path can be cut at the end of. Names of letters, digits, underscores and hyphens
are of this kind. -/
def IsStep (name : String) : Prop :=
  ∀ ch ∈ name.toList, ¬ (ch = '.' ∨ ch = ' ')

instance (name : String) : Decidable (IsStep name) :=
  List.decidableBAll _ name.toList

theorem isStep_metricStep (index : Nat) : IsStep (metricStep index) := by
  intro ch hch
  have hhex : ∀ d < 16, ¬ (Nat.digitChar d = '.' ∨ Nat.digitChar d = ' ') := by decide
  simp only [metricStep, String.toList_append, String.toList_ofList, String.reduceToList,
    List.mem_append, List.mem_singleton] at hch
  rcases hch with (hch | hch) | rfl
  · exact (by decide : IsStep "metrics[") ch hch
  · obtain ⟨d, hd, rfl⟩ := exists_digitChar_of_mem_toDigits (by decide) (by decide) hch
    exact hhex d hd
  · decide

/-- Where a path of steps ends at a blank, it is read back step by step. -/
theorem steps_inj {steps others : List String} (hsteps : ∀ step ∈ steps, IsStep step)
    (hothers : ∀ step ∈ others, IsStep step) {said told : List Char}
    (h : (steps.flatMap fun step => '.' :: step.toList) ++ ' ' :: said =
      (others.flatMap fun step => '.' :: step.toList) ++ ' ' :: told) :
    steps = others := by
  -- What stands behind a step begins with a mark, and no step holds one: there the step ends.
  have hmark : ∀ (steps : List String) (said : List Char), ∃ ch rest, (ch = '.' ∨ ch = ' ') ∧
      (steps.flatMap fun step => '.' :: step.toList) ++ ' ' :: said = ch :: rest := by
    intro steps said
    cases steps with
    | nil => exact ⟨' ', said, .inr rfl, rfl⟩
    | cons step steps => exact ⟨'.', _, .inl rfl, rfl⟩
  induction steps generalizing others with
  | nil =>
    cases others with
    | nil => rfl
    | cons step others => exact absurd (List.cons.inj h).1 (by decide)
  | cons step steps ih =>
    cases others with
    | nil => exact absurd (List.cons.inj h).1 (by decide)
    | cons other others =>
      obtain ⟨x, s, hx, hs⟩ := hmark steps said
      obtain ⟨y, t, hy, ht⟩ := hmark others told
      rw [List.flatMap_cons, List.flatMap_cons, List.append_assoc, List.append_assoc, hs, ht] at h
      obtain ⟨hfirst, hrest⟩ := append_cons_inj (hsteps step List.mem_cons_self)
        (hothers other List.mem_cons_self) hx hy (List.cons.inj h).2
      rw [String.toList_inj.1 hfirst, ih (fun e he => hsteps e (List.mem_cons_of_mem _ he))
        (fun e he => hothers e (List.mem_cons_of_mem _ he)) (hs.trans (hrest.trans ht.symm))]

/-- A report of what is wrong at a place begins with the path of that place; that a dimension is
missing is said the other way round. -/
theorem exists_said (root : String) {v : Violation} (hartifact : v.check ≠ .artifact)
    (hdimension : ∀ name, v.check ≠ .dimension name) :
    ∃ said, (v.message root).toList = (pathOf root v.check.steps).toList ++ ' ' :: said := by
  unfold Violation.message
  cases v with
  | noTaxonomy => exact absurd rfl hartifact
  | dimension name => exact absurd rfl (hdimension name)
  | metric name index defect =>
    unfold MetricDefect.message
    cases defect <;>
      simp only [metricPath, dimensionPath, Violation.check, Check.steps, MetricDefect.steps,
        metricStep, toList_pathOf, String.toList_append, String.toList_ofList,
        String.reduceToList, List.flatMap_cons, List.flatMap_nil, List.append_assoc,
        List.cons_append, List.nil_append, List.append_nil, List.append_cancel_left_eq,
        List.cons.injEq, true_and, exists_eq']
  | schema | dimensions | metrics | labels =>
    simp only [dimensionPath, Violation.check, Check.steps, toList_pathOf, String.toList_append,
      String.reduceToList, List.flatMap_cons, List.flatMap_nil, List.append_assoc,
      List.cons_append, List.nil_append, List.append_nil, List.append_cancel_left_eq,
      List.cons.injEq, true_and, exists_eq']

theorem message_dimension (root name : String) :
    (Violation.dimension name).message root =
      "missing " ++ pathOf root (Check.dimension name).steps := by
  have hpath : pathOf root ["dimensions", name] = dimensionPath root name := by
    apply String.toList_inj.1
    simp only [toList_pathOf, dimensionPath, String.toList_append, String.reduceToList,
      List.flatMap_cons, List.flatMap_nil, List.append_assoc, List.cons_append, List.nil_append,
      List.append_nil]
  rw [Check.steps, hpath]
  rfl

/-- A word put in front of a text moves every mark that is not in the word. -/
theorem append_ne_append_cons {word text tail rest : List Char} {mark : Char} (hne : word ≠ [])
    (hmark : mark ∉ word) : word ++ (text ++ tail) ≠ text ++ mark :: rest := by
  induction text generalizing word with
  | nil =>
    obtain ⟨c, word, rfl⟩ := List.exists_cons_of_ne_nil hne
    intro h
    exact hmark ((List.cons.inj h).1 ▸ List.mem_cons_self)
  | cons t text ih =>
    obtain ⟨c, word, rfl⟩ := List.exists_cons_of_ne_nil hne
    intro h
    obtain ⟨rfl, htail⟩ := List.cons.inj h
    have hmoved : word ++ [c] ≠ [] := by simp
    refine ih hmoved ?_ (by simpa using htail)
    simpa [eq_comm, and_comm] using hmark

theorem message_notRecord_ne (path field : String) :
    MetricDefect.notRecord.message path ≠ (MetricDefect.missingField field).message path := by
  intro h
  have hlist := congrArg String.toList h
  unfold MetricDefect.message at hlist
  simp only [String.toList_append, String.reduceToList, List.append_assoc,
    List.append_cancel_left_eq, List.cons_append, List.cons.injEq] at hlist
  exact absurd hlist.2.2.1 (by decide)

/-- Only what is said of a metric as a whole is not told apart by its place. -/
theorem MetricDefect.eq_of_message {path : String} {defect other : MetricDefect}
    (hsteps : defect.steps = other.steps) (h : defect.message path = other.message path) :
    defect = other := by
  cases defect with
  | notRecord =>
    cases other with
    | notRecord => rfl
    | missingField field => exact absurd h (message_notRecord_ne path field)
    | label | value | provenance | provenanceField => cases hsteps
  | missingField field =>
    cases other with
    | notRecord => exact absurd h.symm (message_notRecord_ne path field)
    | missingField name =>
      have hquoted : quoted field = quoted name := (String.append_right_inj _).1 h
      rw [quoted_injective hquoted]
    | label | value | provenance | provenanceField => cases hsteps
  | label => cases other <;> simp [steps] at hsteps ⊢
  | value => cases other <;> simp [steps] at hsteps ⊢
  | provenance => cases other <;> simp [steps] at hsteps ⊢
  | provenanceField => cases other <;> simp_all [steps]

theorem metricStep_injective : Function.Injective metricStep := by
  intro m n h
  have hlist := congrArg String.toList h
  simp only [metricStep, String.toList_append, String.toList_ofList, List.append_assoc,
    List.append_cancel_left_eq] at hlist
  exact toDigits_injective (by decide) (by decide) (List.append_cancel_right hlist)

theorem metricStep_ne (index : Nat) : metricStep index ≠ "metrics" := by
  intro h
  have hlength := congrArg (List.length ∘ String.toList) h
  simp [metricStep] at hlength

/-- What is reported where something is found stands behind the root. -/
theorem exists_dotted (root : String) {v : Violation} (hartifact : v.check ≠ .artifact)
    (hdimension : ∀ name, v.check ≠ .dimension name) :
    ∃ rest, (v.message root).toList = root.toList ++ '.' :: rest := by
  obtain ⟨said, hsaid⟩ := exists_said root hartifact hdimension
  rw [toList_pathOf, List.append_assoc] at hsaid
  cases hsteps : v.check.steps with
  | nil => cases v <;> simp_all [Violation.check, Check.steps]
  | cons step steps =>
    rw [hsteps] at hsaid
    exact ⟨_, hsaid⟩

theorem message_dimension_ne {root name : String} {v : Violation} (hartifact : v.check ≠ .artifact)
    (hdimension : ∀ name, v.check ≠ .dimension name) :
    (Violation.dimension name).message root ≠ v.message root := by
  intro h
  obtain ⟨rest, hrest⟩ := exists_dotted root hartifact hdimension
  have hlist := congrArg String.toList h
  rw [message_dimension, String.toList_append, toList_pathOf, hrest] at hlist
  exact append_ne_append_cons (by decide) (by decide) hlist

theorem Violation.eq_dimension {v : Violation} {name : String} (h : v.check = .dimension name) :
    v = .dimension name := by
  cases v with
  | dimension other => rw [Check.dimension.inj h]
  | noTaxonomy | schema | dimensions | metrics | metric | labels => cases h

/-- What is said of two places that are one is said of one check. -/
theorem check_eq_of_steps {root : String} {v w : Violation} (hv : v.check ≠ .artifact)
    (hvd : ∀ name, v.check ≠ .dimension name) (hwd : ∀ name, w.check ≠ .dimension name)
    (hsteps : v.check.steps = w.check.steps) (h : v.message root = w.message root) :
    v.check = w.check := by
  cases v with
  | noTaxonomy => exact absurd rfl hv
  | dimension name => exact absurd rfl (hvd name)
  | schema => cases w <;> simp_all [Violation.check, Check.steps]
  | dimensions => cases w <;> simp_all [Violation.check, Check.steps]
  | labels name => cases w <;> simp_all [Violation.check, Check.steps]
  | metrics name =>
    cases w <;> simp_all [Violation.check, Check.steps, (metricStep_ne _).symm]
  | metric name index defect =>
    cases w with
    | metric other place flaw =>
      simp only [Violation.check, Check.steps, List.cons.injEq, true_and] at hsteps
      obtain ⟨rfl, hindex, hdefect⟩ := hsteps
      obtain rfl := metricStep_injective hindex
      rw [MetricDefect.eq_of_message hdefect h]
    | noTaxonomy | schema | dimensions | dimension | metrics | labels =>
      simp_all [Violation.check, Check.steps, metricStep_ne]

/-- Reports with one text are of one check, if no step of its path can be taken for two. -/
theorem check_eq_of_message {root : String} {v w : Violation}
    (hv : v.check ≠ .artifact) (hw : w.check ≠ .artifact)
    (hvsteps : ∀ step ∈ v.check.steps, IsStep step)
    (hwsteps : ∀ step ∈ w.check.steps, IsStep step)
    (h : v.message root = w.message root) : v.check = w.check := by
  -- Reports of missing dimensions begin with a word of their own, all others with the root.
  by_cases hvd : ∃ name, v.check = .dimension name
  · obtain ⟨name, hname⟩ := hvd
    obtain rfl := Violation.eq_dimension hname
    by_cases hwd : ∃ name, w.check = .dimension name
    · obtain ⟨other, hother⟩ := hwd
      obtain rfl := Violation.eq_dimension hother
      have hlist := congrArg String.toList h
      rw [message_dimension, message_dimension, String.toList_append, String.toList_append,
        toList_pathOf, toList_pathOf] at hlist
      have hpaths := List.append_cancel_left (List.append_cancel_left hlist)
      have hended := congrArg (· ++ [' ']) hpaths
      have hsteps := steps_inj hvsteps hwsteps hended
      rw [(List.cons.inj (List.cons.inj hsteps).2).1]
    · exact absurd h (message_dimension_ne hw (not_exists.1 hwd))
  · by_cases hwd : ∃ name, w.check = .dimension name
    · obtain ⟨other, hother⟩ := hwd
      obtain rfl := Violation.eq_dimension hother
      exact absurd h.symm (message_dimension_ne hv (not_exists.1 hvd))
    · obtain ⟨said, hsaid⟩ := exists_said root hv (not_exists.1 hvd)
      obtain ⟨told, htold⟩ := exists_said root hw (not_exists.1 hwd)
      rw [h, htold, toList_pathOf, toList_pathOf, List.append_assoc, List.append_assoc] at hsaid
      have hsteps := steps_inj hvsteps hwsteps (List.append_cancel_left hsaid.symm)
      exact check_eq_of_steps hv (not_exists.1 hvd) (not_exists.1 hwd) hsteps h

theorem MetricDefect.Holds.isStep {c : Contract} {metric : Value} {defect : MetricDefect}
    (hfields : ∀ name ∈ c.provenanceFields.names, IsStep name) (h : defect.Holds c metric) :
    ∀ step ∈ defect.steps, IsStep step := by
  cases defect with
  | notRecord | missingField => exact fun step hstep => absurd hstep List.not_mem_nil
  | label | value | provenance =>
    intro step hstep
    obtain rfl := List.mem_singleton.1 hstep
    decide
  | provenanceField name =>
    obtain ⟨-, -, hname, -⟩ := h
    intro step hstep
    rcases List.mem_pair.1 hstep with rfl | rfl
    · decide
    · exact hfields _ hname

/-- A check that fails lies on a path whose names are fixed or come from the contract. -/
theorem Check.Fails.isStep {c : Contract} {taxonomy : Value}
    (hdimensions : ∀ name ∈ c.dimensions.names, IsStep name)
    (hfields : ∀ name ∈ c.provenanceFields.names, IsStep name) {k : Check}
    (h : k.Fails c taxonomy) : ∀ step ∈ k.steps, IsStep step := by
  have hfixed : IsStep "schema" ∧ IsStep "dimensions" ∧ IsStep "metrics" := by decide
  cases k with
  | artifact => exact h.elim
  | schema => simpa [Check.steps] using hfixed.1
  | dimensions => simpa [Check.steps] using hfixed.2.1
  | dimension name =>
    have hname := hdimensions name (h.required rfl).1
    simpa [Check.steps] using ⟨hfixed.2.1, hname⟩
  | labels name =>
    have hname := hdimensions name (h.required rfl).1
    simpa [Check.steps] using ⟨hfixed.2.1, hname⟩
  | metrics name =>
    have hname := hdimensions name (h.required rfl).1
    simpa [Check.steps] using ⟨hfixed.2.1, hname, hfixed.2.2⟩
  | metric name index defect =>
    have hname := hdimensions name (h.required rfl).1
    obtain ⟨-, -, -, metric, -, hdefect⟩ := h
    simpa [Check.steps] using
      ⟨hfixed.2.1, hname, isStep_metricStep index, hdefect.isStep hfields⟩

theorem ne_artifact_of_mem {c : Contract} {taxonomy : Value} {v : Violation}
    (h : v ∈ c.taxonomyViolations taxonomy) : v.check ≠ .artifact := by
  intro he
  have hfails : v.check.Fails c taxonomy := mem_checks_iff.1 (List.mem_map_of_mem h)
  rw [he] at hfails
  exact hfails

theorem pathOf_infix_message {root : String} {v : Violation} (h : v.check ≠ .artifact) :
    (pathOf root v.check.steps).toList <:+: (v.message root).toList := by
  by_cases hdimension : ∃ name, v.check = .dimension name
  · obtain ⟨name, hname⟩ := hdimension
    obtain rfl := Violation.eq_dimension hname
    rw [message_dimension, String.toList_append]
    exact (List.suffix_append _ _).isInfix
  · obtain ⟨said, hsaid⟩ := exists_said root h (not_exists.1 hdimension)
    rw [hsaid]
    exact (List.prefix_append _ _).isInfix

/-- Every failed check is reported at its own place and there are no other reports: there are as
many reports as failed checks, and no two of them are the same. -/
theorem taxonomyReports_located {c : Contract}
    (hdimensions : ∀ name ∈ c.dimensions.names, IsStep name)
    (hfields : ∀ name ∈ c.provenanceFields.names, IsStep name) (root : String)
    (taxonomy : Value) :
    {k : Check | k.Fails c taxonomy}.encard = (c.taxonomyReports root taxonomy).length ∧
      (c.taxonomyReports root taxonomy).Nodup ∧
      ∀ k : Check, k.Fails c taxonomy ↔ ∃ v ∈ c.taxonomyViolations taxonomy, v.check = k ∧
        (pathOf root k.steps).toList <:+: (v.message root).toList := by
  have hsteps : ∀ v ∈ c.taxonomyViolations taxonomy, ∀ step ∈ v.check.steps, IsStep step :=
    fun v hv => (mem_checks_iff.1 (List.mem_map_of_mem hv)).isStep hdimensions hfields
  refine ⟨?_, ?_, fun k => ?_⟩
  · rw [encard_fails, taxonomyReports, List.length_map]
  · refine List.pairwise_map.2 ((List.pairwise_map.1 (nodup_checks c taxonomy)).imp_of_mem ?_)
    intro v w hv hw hne hmessage
    exact hne (check_eq_of_message (ne_artifact_of_mem hv) (ne_artifact_of_mem hw) (hsteps v hv)
      (hsteps w hw) hmessage)
  · rw [← mem_checks_iff, List.mem_map]
    constructor
    · rintro ⟨v, hv, rfl⟩
      exact ⟨v, hv, rfl, pathOf_infix_message (ne_artifact_of_mem hv)⟩
    · rintro ⟨v, hv, hk, -⟩
      exact ⟨v, hv, hk⟩

theorem taxonomyReports_located_defectiveTaxonomy :
    (∀ name ∈ detailedContract.dimensions.names, IsStep name) ∧
      (∀ name ∈ detailedContract.provenanceFields.names, IsStep name) ∧
      {k : Check | k.Fails detailedContract defectiveTaxonomy}.encard = 9 ∧
      (detailedContract.taxonomyReports "missing a" defectiveTaxonomy).Nodup := by
  have hdimensions : ∀ name ∈ detailedContract.dimensions.names, IsStep name := by decide
  have hfields : ∀ name ∈ detailedContract.provenanceFields.names, IsStep name := by decide
  obtain ⟨hcard, hnodup, -⟩ :=
    taxonomyReports_located hdimensions hfields "missing a" defectiveTaxonomy
  have hlength : (detailedContract.taxonomyReports "missing a" defectiveTaxonomy).length = 9 := by
    rw [taxonomyReports, List.length_map]
    decide
  rw [hlength] at hcard
  exact ⟨hdimensions, hfields, hcard, hnodup⟩

end ReleaseGate.Contract
