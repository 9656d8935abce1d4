import PosttrainPlatform.Properties.GateEngine

/-!
# What a gate means

The reference judges a leaf by the numbers that it needs: ERROR where one of them is missing or NaN.
The engine looks at the candidate only, so that a NaN on the side of the baseline counts as a failed
comparison (`gate_semantics_iff`).
-/

namespace PosttrainPlatform

open Doubles

namespace QualityGateEngine

/-! ### The reference -/

/-- A metric that is there, with a value other than NaN. -/
def usable (metrics : Metrics) (name : String) : Option Number :=
  (metrics.lookup name).filter fun value => decide (value ≠ .nan)

/-- The difference, where it is a number. -/
def difference (candidate baseline : Number) : Option Number :=
  (some (candidate.sub baseline)).filter fun delta => decide (delta ≠ .nan)

/-- The number that a rule is about, where every number that it needs is there. -/
def subjectOf (metrics : Metrics) (baselineMetrics : Option Metrics) (rule : Dict) (name : String) :
    Option Number := do
  let candidate ← usable metrics name
  if (rule.get? "baseline_delta").isSome then do
    let baseline ← baselineMetrics
    let value ← usable baseline name
    difference candidate value
  else some candidate

/-- The comparison that an operator stands for. -/
def holds (operator : Json) (lhs threshold : Number) : Bool :=
  match operator with
  | .str ">=" => threshold.le lhs
  | .str ">" => threshold.lt lhs
  | .str "<=" => lhs.le threshold
  | .str "<" => lhs.lt threshold
  | .str "==" =>
      match threshold with
      | .finite q => lhs.isClose eqTolerance eqTolerance (Number.round q)
      | threshold => lhs.isClose eqTolerance eqTolerance threshold
  | _ => false

/-- The status of a leaf with these fields. -/
def referenceStatus (operator : Json) (subject : Option Number) (threshold : Number) : GateStatus :=
  match isOperator operator, subject with
  | true, some lhs => if holds operator lhs threshold then .pass else .fail
  | _, _ => .error

/-- **The reference semantics of a leaf.** -/
def referenceLeaf (metrics : Metrics) (baselineMetrics : Option Metrics) : Json → GateStatus
  | .obj rule =>
      match Dict.getD rule "metric" .null, (thresholdOf rule).bind Json.number? with
      | .str name, some threshold => referenceStatus (Dict.getD rule "operator" .null)
          (subjectOf metrics baselineMetrics rule name) threshold
      | _, _ => .error
  | _ => .error

/-- **The reference semantics of a gate**: `all` has the worst status of its leaves, `any` passes with
one of them. -/
def referenceGate (logical : String) (statuses : List GateStatus) : GateStatus :=
  if logical = "all" then
    if .error ∈ statuses then .error else if .fail ∈ statuses then .fail else .pass
  else
    if .pass ∈ statuses then .pass else if .error ∈ statuses then .error else .fail

/-- A leaf with a text for its metric and for its operator, and a number to compare with. -/
def WellTyped : Json → Prop
  | .obj rule => ∃ name operator threshold, Dict.getD rule "metric" .null = .str name ∧
      Dict.getD rule "operator" .null = .str operator ∧
      (thresholdOf rule).bind Json.number? = some threshold
  | _ => False

/-- **The engine sees what is wrong with the leaf**: the comparison that it comes to has a number on
its left side, and can be made. -/
def Detected (metrics : Metrics) (baselineMetrics : Option Metrics) : Json → Prop
  | .obj rule => ∀ name candidate c, candidateOf metrics rule = some (name, candidate) →
      comparisonOf baselineMetrics rule name candidate = some c →
      isOperator (Dict.getD rule "operator" .null) = true →
        c.lhs ≠ .nan ∧ Orders (Dict.getD rule "operator" .null) c.threshold
  | _ => False

/-! ### Leaves -/

section Leaf

variable {metrics : Metrics} {baselineMetrics : Option Metrics} {rule : Dict} {r : RuleResult}

theorem usable_eq_some {name : String} {value : Number} :
    usable metrics name = some value ↔ metrics.lookup name = some value ∧ value ≠ .nan := by
  simp [usable, Option.filter_eq_some_iff]

theorem difference_eq_some {candidate baseline delta : Number} :
    difference candidate baseline = some delta ↔
      candidate.sub baseline = delta ∧ delta ≠ .nan := by
  simp [difference, Option.filter_eq_some_iff]

/-- The candidate of a rule with a text for its metric and for its operator. -/
theorem candidateOf_eq {name operator : String}
    (hmetric : Dict.getD rule "metric" .null = .str name)
    (hoperator : Dict.getD rule "operator" .null = .str operator) :
    candidateOf metrics rule = (usable metrics name).map fun candidate => (name, candidate) := by
  simp only [candidateOf, usable, hmetric, hoperator, Json.isNull, Bool.false_eq_true, if_false]
  cases metrics.lookup name with
  | none => rfl
  | some candidate => cases candidate <;> rfl

/-- **The subject of a rule is the left side of its comparison**, where that is a number. -/
theorem subjectOf_eq {name : String} {candidate : Number} (h : usable metrics name = some candidate)
    (hthreshold : (thresholdOf rule).isSome = true) :
    subjectOf metrics baselineMetrics rule name =
      (comparisonOf baselineMetrics rule name candidate).bind fun c =>
        if c.lhs = .nan then none else some c.lhs := by
  have hcandidate := (usable_eq_some.mp h).2
  unfold subjectOf comparisonOf
  simp only [h, bind, Option.bind_some]
  unfold thresholdOf at hthreshold
  cases hdelta : rule.get? "baseline_delta" with
  | none =>
      rw [hdelta] at hthreshold
      cases hvalue : rule.get? "value" with
      | none => simp [hvalue] at hthreshold
      | some threshold => simp [hcandidate]
  | some threshold =>
      cases baselineMetrics with
      | none => rfl
      | some baseline =>
          simp only [Option.isSome_some, if_true, Option.bind_some]
          unfold usable
          cases baseline.lookup name with
          | none => rfl
          | some value =>
              by_cases hvalue : value = .nan
              · subst hvalue
                simp
              · simp [hvalue, difference, Option.filter_some]

/-- A comparison that can be made has the outcome of the reference. -/
theorem compare_eq_holds {lhs x : Number} {operator threshold : Json}
    (hop : isOperator operator = true) (hx : threshold.number? = some x)
    (h : Orders operator threshold) :
    compare lhs operator threshold = .ok (some (holds operator lhs x)) := by
  obtain ⟨y, hy, hround⟩ := h
  rw [hx] at hy
  obtain rfl := Option.some.inj hy
  obtain rfl | rfl | rfl | rfl | rfl := isOperator_iff.mp hop
  case inr.inr.inr.inr =>
    simp only [compare, isClose, hx, holds]
    cases x with
    | nan | infinity b => rfl
    | finite q =>
        have hfinite := hround rfl q rfl
        cases hq : Number.round q with
        | nan | finite r => simp only [hq]
        | infinity b => simp [hq] at hfinite
  all_goals simp [compare, ordered, hx, holds]

/-- The status that a comparison leads to. -/
theorem status_of_compared (base reported : Dict) (lhs : Number) {x : Number}
    {operator threshold : Json} (hx : threshold.number? = some x)
    (horders : isOperator operator = true → Orders operator threshold) :
    ∃ r, compared base lhs operator threshold reported = .ok r ∧
      r.status = referenceStatus operator (some lhs) x := by
  unfold compared referenceStatus
  cases hop : isOperator operator with
  | false =>
      rw [compare_of_not_operator hop]
      exact ⟨_, rfl, rfl⟩
  | true =>
      rw [compare_eq_holds hop hx (horders hop)]
      exact ⟨_, rfl, rfl⟩

/-- NaN passes no comparison. -/
theorem holds_nan {operator : Json} {x : Number} : holds operator .nan x = false := by
  unfold holds
  split
  · exact Number.le_nan x
  · exact Number.lt_nan x
  · exact Number.nan_le x
  · exact Number.nan_lt x
  · split
    · exact Number.nan_isClose _ _ _
    · exact Number.nan_isClose _ _ _
  · rfl

/-- A comparison ends in the status of the reference exactly if it can be made, on a number. -/
theorem compared_agrees_iff {base reported : Dict} {c : Comparison} {x : Number} {operator : Json}
    (hx : c.threshold.number? = some x) :
    (∃ r, compared base c.lhs operator c.threshold reported = .ok r ∧
      r.status = referenceStatus operator (if c.lhs = .nan then none else some c.lhs) x) ↔
      (isOperator operator = true → c.lhs ≠ .nan ∧ Orders operator c.threshold) := by
  cases hop : isOperator operator with
  | false =>
      have horders : isOperator operator = true → Orders operator c.threshold := fun h => by
        rw [hop] at h
        cases h
      obtain ⟨r, hr, hstatus⟩ := status_of_compared base reported c.lhs hx horders
      refine iff_of_true ⟨r, hr, ?_⟩ fun h => by cases h
      rw [hstatus]
      simp only [referenceStatus, hop]
  | true =>
      by_cases horders : Orders operator c.threshold
      swap
      · refine iff_of_false ?_ fun h => horders (h rfl).2
        rintro ⟨r, hr, _⟩
        obtain ⟨outcome, hcompare, _⟩ := compared_eq_ok.mp hr
        exact horders ((compare_eq_ok hop).mp ⟨outcome, hcompare⟩)
      obtain ⟨r, hr, hstatus⟩ := status_of_compared base reported c.lhs hx fun _ => horders
      by_cases hnan : c.lhs = .nan
      · -- the engine compares the NaN, and the rule fails
        refine iff_of_false ?_ fun h => (h rfl).1 hnan
        rintro ⟨r', hr', hstatus'⟩
        obtain rfl : r = r' := Except.ok.inj (hr.symm.trans hr')
        rw [hstatus] at hstatus'
        simp [referenceStatus, hop, hnan, holds_nan] at hstatus'
      · refine iff_of_true ⟨r, hr, ?_⟩ fun _ => ⟨hnan, horders⟩
        rw [hstatus, if_neg hnan]

/-- **The engine agrees with the reference about a leaf exactly if it sees what is wrong with it.** -/
theorem leaf_agrees_iff {leaf : Json} (htyped : WellTyped leaf) :
    (∃ r, evaluateLeaf metrics baselineMetrics leaf = .ok r ∧
      r.status = referenceLeaf metrics baselineMetrics leaf) ↔
      Detected metrics baselineMetrics leaf := by
  cases leaf with
  | null | bool b | num q | nan | infinity b | str t | arr vs => exact absurd htyped id
  | obj rule =>
      obtain ⟨name, operator, x, hmetric, hoperator, hx⟩ := htyped
      obtain ⟨threshold, hthreshold, hnumber⟩ := Option.bind_eq_some_iff.mp hx
      have hcandidateOf : candidateOf metrics rule =
          (usable metrics name).map fun candidate => (name, candidate) :=
        candidateOf_eq hmetric hoperator
      have hreference : referenceLeaf metrics baselineMetrics (.obj rule) = referenceStatus
          (.str operator) (subjectOf metrics baselineMetrics rule name) x := by
        simp only [referenceLeaf, hmetric, hx, hoperator]
      unfold Detected
      simp only [hreference, hoperator]
      cases husable : usable metrics name with
      | none =>
          rw [husable] at hcandidateOf
          obtain ⟨reason, hr⟩ : ∃ reason, evaluateLeaf metrics baselineMetrics (.obj rule) =
              .ok (errorResult (leafBase rule) reason) :=
            evaluateLeaf_refused hcandidateOf fun _ => by rw [hmetric]; trivial
          refine iff_of_true ⟨_, hr, ?_⟩ fun name candidate c hc => ?_
          · unfold referenceStatus subjectOf
            rw [husable]
            cases isOperator (.str operator) <;> rfl
          · rw [hcandidateOf] at hc
            cases hc
      | some candidate =>
          rw [husable] at hcandidateOf
          have hsubject : subjectOf metrics baselineMetrics rule name =
              (comparisonOf baselineMetrics rule name candidate).bind fun c =>
                if c.lhs = .nan then none else some c.lhs :=
            subjectOf_eq husable (Option.isSome_of_eq_some hthreshold)
          rw [evaluateLeaf_candidate hcandidateOf, hoperator, hsubject, hcandidateOf]
          obtain ⟨c, key, reported, hc, hthreshold', heq, _⟩ | ⟨reported, reason, hc, heq, _⟩ :=
            @evaluateCandidate_cases baselineMetrics rule (leafBase rule) (.str operator) name
              candidate
          · obtain rfl : threshold = c.threshold := by
              rw [hthreshold] at hthreshold'
              exact Option.some.inj hthreshold'
            rw [heq, hc, Option.bind_some, compared_agrees_iff hnumber]
            constructor
            · intro h name' candidate' c' hc' hcomparison hop
              obtain ⟨rfl, rfl⟩ := Prod.mk.inj (Option.some.inj hc')
              rw [hc] at hcomparison
              obtain rfl := Option.some.inj hcomparison
              exact h hop
            · intro h hop
              exact h name candidate c rfl hc hop
          · rw [heq, hc]
            refine iff_of_true ⟨_, rfl, ?_⟩ fun name' candidate' c hc' hcomparison => ?_
            · unfold referenceStatus
              cases isOperator (.str operator) <;> rfl
            · obtain ⟨rfl, rfl⟩ := Prod.mk.inj (Option.some.inj hc')
              rw [hc] at hcomparison
              cases hcomparison

end Leaf

/-! ### Gates -/

/-- Rules with a single key. -/
def gateRules (logical : String) (leaves : List Json) : Dict := [(logical, .arr leaves)]

/-- The status that the engine answers with, if it answers. -/
def statusOf (rules : Dict) (metrics : Metrics) (baselineMetrics : Option Metrics) :
    Option GateStatus :=
  (evaluate rules metrics baselineMetrics).toOption.map Prod.fst

/-- **The engine has the reference semantics** for the leaves below a key: every leaf and the gate have
the status of the reference; the verdict depends on the set of the leaves only; and a further leaf turns
no verdict of `all` into PASS. -/
structure GateSemantics (metrics : Metrics) (baselineMetrics : Option Metrics) (logical : String)
    (leaves : List Json) : Prop where
  agrees : ∃ rs, leaves.mapM (evaluateLeaf metrics baselineMetrics) = .ok rs ∧
    rs.map RuleResult.status = leaves.map (referenceLeaf metrics baselineMetrics) ∧
    evaluate (gateRules logical leaves) metrics baselineMetrics =
      .ok (referenceGate logical (leaves.map (referenceLeaf metrics baselineMetrics)),
        rs.map RuleResult.json)
  invariant : ∀ leaves', (∀ leaf, leaf ∈ leaves' ↔ leaf ∈ leaves) →
    statusOf (gateRules logical leaves') metrics baselineMetrics =
      statusOf (gateRules logical leaves) metrics baselineMetrics
  monotone : logical = "all" → ∀ leaf status,
    statusOf (gateRules logical leaves) metrics baselineMetrics = some status → status ≠ .pass →
      statusOf (gateRules logical (leaf :: leaves)) metrics baselineMetrics ≠ some .pass

section Gate

variable {metrics : Metrics} {baselineMetrics : Option Metrics} {logical : String}
  {leaves : List Json}

theorem combine_eq_referenceGate (statuses : List GateStatus) :
    combine statuses logical = referenceGate logical statuses := rfl

/-- The verdict depends on the set of the statuses. -/
theorem combine_congr {statuses statuses' : List GateStatus}
    (h : ∀ status, status ∈ statuses' ↔ status ∈ statuses) :
    combine statuses' logical = combine statuses logical := by
  simp only [combine, h]

theorem combine_all_eq_pass {statuses : List GateStatus} :
    combine statuses "all" = .pass ↔ .error ∉ statuses ∧ .fail ∉ statuses := by
  unfold combine
  rw [if_pos rfl]
  split
  · simp [*]
  · split <;> simp [*]

/-- **What the engine answers for rules with a single key.** -/
theorem evaluate_gateRules (hlogical : logical = "all" ∨ logical = "any") (hne : leaves ≠ []) :
    evaluate (gateRules logical leaves) metrics baselineMetrics =
      (leaves.mapM (evaluateLeaf metrics baselineMetrics)).map fun rs =>
        (combine (rs.map RuleResult.status) logical, rs.map RuleResult.json) := by
  have hkey : leavesOf (gateRules logical leaves) = leaves ∧
      logicalOf (gateRules logical leaves) = logical := by
    obtain rfl | rfl := hlogical
    · exact ⟨rfl, rfl⟩
    · exact ⟨rfl, rfl⟩
  obtain ⟨hnil, _⟩ | ⟨_, heq⟩ :=
    @evaluate_cases metrics baselineMetrics (gateRules logical leaves)
  · rw [hkey.1] at hnil
    exact absurd hnil hne
  · rw [hkey.1, hkey.2] at heq
    exact heq

/-- The verdict of a gate, if every leaf has a result. -/
theorem statusOf_eq_some (hlogical : logical = "all" ∨ logical = "any") (hne : leaves ≠ [])
    {status : GateStatus} :
    statusOf (gateRules logical leaves) metrics baselineMetrics = some status ↔
      ∃ rs, leaves.mapM (evaluateLeaf metrics baselineMetrics) = .ok rs ∧
        combine (rs.map RuleResult.status) logical = status := by
  unfold statusOf
  rw [evaluate_gateRules hlogical hne]
  cases leaves.mapM (evaluateLeaf metrics baselineMetrics) <;> simp [Except.map, Except.toOption]

theorem mem_statuses {rs : List RuleResult} {status : GateStatus}
    (h : leaves.mapM (evaluateLeaf metrics baselineMetrics) = .ok rs) :
    status ∈ rs.map RuleResult.status ↔
      ∃ leaf ∈ leaves, ∃ r, evaluateLeaf metrics baselineMetrics leaf = .ok r ∧ r.status = status := by
  rw [List.mem_map]
  constructor
  · rintro ⟨r, hr, hstatus⟩
    obtain ⟨leaf, hleaf, heval⟩ := (mem_of_mapM h).mp hr
    exact ⟨leaf, hleaf, r, heval, hstatus⟩
  · rintro ⟨leaf, hleaf, r, heval, hstatus⟩
    exact ⟨r, (mem_of_mapM h).mpr ⟨leaf, hleaf, heval⟩, hstatus⟩

theorem mapM_isOk_iff : (∃ rs, leaves.mapM (evaluateLeaf metrics baselineMetrics) = .ok rs) ↔
    ∀ leaf ∈ leaves, ∃ r, evaluateLeaf metrics baselineMetrics leaf = .ok r := by
  simpa using exists_mapM_iff (f := evaluateLeaf metrics baselineMetrics) (P := fun _ => True) leaves

/-- **Leaves may be permuted and duplicated.** -/
theorem statusOf_congr (hlogical : logical = "all" ∨ logical = "any") (hne : leaves ≠ [])
    {leaves' : List Json} (h : ∀ leaf, leaf ∈ leaves' ↔ leaf ∈ leaves) :
    statusOf (gateRules logical leaves') metrics baselineMetrics =
      statusOf (gateRules logical leaves) metrics baselineMetrics := by
  have hne' : leaves' ≠ [] := by
    intro hnil
    obtain ⟨leaf, hleaf⟩ := List.exists_mem_of_ne_nil leaves hne
    rw [← h leaf, hnil] at hleaf
    exact absurd hleaf List.not_mem_nil
  ext status
  show statusOf _ _ _ = some status ↔ statusOf _ _ _ = some status
  rw [statusOf_eq_some hlogical hne', statusOf_eq_some hlogical hne]
  by_cases hok : ∀ leaf ∈ leaves, ∃ r, evaluateLeaf metrics baselineMetrics leaf = .ok r
  · have hok' : ∀ leaf ∈ leaves', ∃ r, evaluateLeaf metrics baselineMetrics leaf = .ok r :=
      fun leaf hleaf => hok leaf ((h leaf).mp hleaf)
    obtain ⟨rs, hrs⟩ := mapM_isOk_iff.mpr hok
    obtain ⟨rs', hrs'⟩ := mapM_isOk_iff.mpr hok'
    have hcombine : combine (rs'.map RuleResult.status) logical =
        combine (rs.map RuleResult.status) logical :=
      combine_congr fun status => by rw [mem_statuses hrs', mem_statuses hrs]; simp only [h]
    rw [hrs, hrs']
    simp [hcombine]
  · refine iff_of_false (fun ⟨rs, hrs, _⟩ => hok ?_) fun ⟨rs, hrs, _⟩ =>
      hok (mapM_isOk_iff.mp ⟨rs, hrs⟩)
    intro leaf hleaf
    exact mapM_isOk_iff.mp ⟨rs, hrs⟩ leaf ((h leaf).mpr hleaf)

/-- **A further leaf does not help an `all` gate.** -/
theorem statusOf_all_cons (hne : leaves ≠ []) {leaf : Json} {status : GateStatus}
    (h : statusOf (gateRules "all" leaves) metrics baselineMetrics = some status)
    (hstatus : status ≠ .pass) :
    statusOf (gateRules "all" (leaf :: leaves)) metrics baselineMetrics ≠ some .pass := by
  obtain ⟨rs, hrs, rfl⟩ := (statusOf_eq_some (Or.inl rfl) hne).mp h
  intro hpass
  obtain ⟨rs', hrs', hcombine⟩ := (statusOf_eq_some (Or.inl rfl) (List.cons_ne_nil _ _)).mp hpass
  have hsub : ∀ status, status ∈ rs.map RuleResult.status → status ∈ rs'.map RuleResult.status := by
    intro status hmem
    obtain ⟨leaf', hleaf', r, hr, hs⟩ := (mem_statuses hrs).mp hmem
    exact (mem_statuses hrs').mpr ⟨leaf', List.mem_cons_of_mem _ hleaf', r, hr, hs⟩
  obtain ⟨herror, hfail⟩ := combine_all_eq_pass.mp hcombine
  exact hstatus (combine_all_eq_pass.mpr ⟨fun hmem => herror (hsub _ hmem),
    fun hmem => hfail (hsub _ hmem)⟩)

/-- The results of all leaves have the statuses of the reference exactly if those of each leaf do. -/
theorem statuses_agree_iff :
    (∃ rs, leaves.mapM (evaluateLeaf metrics baselineMetrics) = .ok rs ∧
      rs.map RuleResult.status = leaves.map (referenceLeaf metrics baselineMetrics)) ↔
      ∀ leaf ∈ leaves, ∃ r, evaluateLeaf metrics baselineMetrics leaf = .ok r ∧
        r.status = referenceLeaf metrics baselineMetrics leaf := by
  simp only [mapM_eq_ok]
  induction leaves with
  | nil => exact iff_of_true ⟨[], .nil, rfl⟩ (by simp)
  | cons leaf rest ih =>
      rw [List.forall_mem_cons, ← ih]
      constructor
      · rintro ⟨_, h, hstatuses⟩
        cases h with
        | cons hr h =>
            rw [List.map_cons, List.map_cons, List.cons.injEq] at hstatuses
            exact ⟨⟨_, hr, hstatuses.1⟩, _, h, hstatuses.2⟩
      · rintro ⟨⟨r, hr, hstatus⟩, rs, h, hstatuses⟩
        refine ⟨r :: rs, .cons hr h, ?_⟩
        rw [List.map_cons, List.map_cons, hstatus, hstatuses]

theorem agrees_iff (hlogical : logical = "all" ∨ logical = "any") (hne : leaves ≠ []) :
    (∃ rs, leaves.mapM (evaluateLeaf metrics baselineMetrics) = .ok rs ∧
      rs.map RuleResult.status = leaves.map (referenceLeaf metrics baselineMetrics) ∧
      evaluate (gateRules logical leaves) metrics baselineMetrics =
        .ok (referenceGate logical (leaves.map (referenceLeaf metrics baselineMetrics)),
          rs.map RuleResult.json)) ↔
      ∀ leaf ∈ leaves, ∃ r, evaluateLeaf metrics baselineMetrics leaf = .ok r ∧
        r.status = referenceLeaf metrics baselineMetrics leaf := by
  rw [← statuses_agree_iff]
  constructor
  · rintro ⟨rs, hrs, hstatuses, _⟩
    exact ⟨rs, hrs, hstatuses⟩
  · rintro ⟨rs, hrs, hstatuses⟩
    refine ⟨rs, hrs, hstatuses, ?_⟩
    rw [evaluate_gateRules hlogical hne, hrs, ← hstatuses]
    rfl

end Gate

/-- **The engine has the reference semantics exactly if it sees what is wrong with every leaf**: no
comparison under a known operator has a NaN on its left side, which only the baseline can bring in, and
no `==` has a threshold that no double can hold. -/
theorem gate_semantics_iff (metrics : Metrics) (baselineMetrics : Option Metrics) (logical : String)
    (leaves : List Json) (hlogical : logical = "all" ∨ logical = "any") (hne : leaves ≠ [])
    (htyped : ∀ leaf ∈ leaves, WellTyped leaf) :
    GateSemantics metrics baselineMetrics logical leaves ↔
      ∀ leaf ∈ leaves, Detected metrics baselineMetrics leaf := by
  have hleaves : (∀ leaf ∈ leaves, ∃ r, evaluateLeaf metrics baselineMetrics leaf = .ok r ∧
      r.status = referenceLeaf metrics baselineMetrics leaf) ↔
      ∀ leaf ∈ leaves, Detected metrics baselineMetrics leaf :=
    forall₂_congr fun leaf hleaf => leaf_agrees_iff (htyped leaf hleaf)
  rw [← hleaves, ← agrees_iff hlogical hne]
  constructor
  · intro h
    exact h.agrees
  · intro h
    refine ⟨h, fun leaves' hsame => statusOf_congr hlogical hne hsame, ?_⟩
    intro hall leaf status hstatus hfail
    rw [hall] at hstatus ⊢
    exact statusOf_all_cons hne hstatus hfail

/-- "no worse than the baseline" -/
def noRegression : Json :=
  .obj [("metric", .str "exact_match"), ("operator", .str ">="), ("baseline_delta", .num 0)]

theorem noRegression_wellTyped : ∀ leaf ∈ [noRegression], WellTyped leaf := by
  intro leaf hleaf
  obtain rfl := List.mem_singleton.mp hleaf
  exact ⟨"exact_match", ">=", .finite 0, rfl, rfl, rfl⟩

/-- Against a NaN the rule fails, where the reference has an error. -/
theorem nan_baseline_fails :
    ¬ GateSemantics [("exact_match", .finite 1)] (some [("exact_match", .nan)]) "all"
      [noRegression] := by
  intro h
  obtain ⟨_, _, _, heval⟩ := h.agrees
  have hfail : statusOf (gateRules "all" [noRegression]) [("exact_match", .finite 1)]
      (some [("exact_match", .nan)]) = some .fail := rfl
  have herror : statusOf (gateRules "all" [noRegression]) [("exact_match", .finite 1)]
      (some [("exact_match", .nan)]) = some .error := by
    unfold statusOf
    rw [heval]
    rfl
  rw [hfail] at herror
  cases herror

theorem equal_baseline_judged :
    GateSemantics [("exact_match", .finite 1)] (some [("exact_match", .finite 1)]) "all"
      [noRegression] := by
  refine (gate_semantics_iff _ _ _ _ (Or.inl rfl) (List.cons_ne_nil _ _)
    noRegression_wellTyped).mpr fun leaf hleaf => ?_
  obtain rfl := List.mem_singleton.mp hleaf
  intro name candidate c hcandidate hc _
  cases hcandidate
  cases hc
  have hne : (">=" : String) ≠ "==" := by decide
  exact ⟨Number.round_ne_nan _, .finite 0, rfl, fun h => absurd (Json.str.inj h) hne⟩

end QualityGateEngine

end PosttrainPlatform
