import PosttrainPlatform.Properties.GateSemantics

/-!
# Constraints that a gate passes over

The engine looks below `all`, or else below `any`, and makes one comparison for a leaf: rules with both
keys and leaves with both thresholds have constraints that it does not look at.
-/

namespace PosttrainPlatform

open Doubles

namespace QualityGateEngine

/-- The leaves below a key. -/
def leavesBelow (rules : Dict) (key : String) : List Json :=
  match rules.get? key with
  | some (.arr leaves) => leaves
  | _ => []

/-- The rules have both keys. -/
def HasBothKeys (rules : Dict) : Prop :=
  (rules.get? "all").isSome = true ∧ (rules.get? "any").isSome = true

/-- The leaf has both thresholds. -/
def HasBothThresholds : Json → Prop
  | .obj rule => (Dict.get? rule "value").isSome = true ∧
      (Dict.get? rule "baseline_delta").isSome = true
  | _ => False

/-- The candidate value meets the absolute threshold of the leaf. -/
def MeetsValue (metrics : Metrics) : Json → Prop
  | .obj rule => ∃ name candidate threshold, candidateOf metrics rule = some (name, candidate) ∧
      Dict.get? rule "value" = some threshold ∧
      compare candidate (Dict.getD rule "operator" .null) threshold = .ok (some true)
  | _ => False

/-- The difference to the baseline meets the baseline delta of the leaf. -/
def MeetsDelta (metrics : Metrics) (baselineMetrics : Option Metrics) : Json → Prop
  | .obj rule => ∃ name candidate value threshold,
      candidateOf metrics rule = some (name, candidate) ∧
      (baselineMetrics.bind fun baseline => baseline.lookup name) = some value ∧
      Dict.get? rule "baseline_delta" = some threshold ∧
      compare (candidate.sub value) (Dict.getD rule "operator" .null) threshold = .ok (some true)
  | _ => False

/-- The leaf is one of the rules. -/
def WrittenIn (rules : Dict) (leaf : Json) : Prop :=
  leaf ∈ leavesBelow rules "all" ∨ leaf ∈ leavesBelow rules "any"

/-- **Every constraint of the rules is met**: of both keys, if both are there, and of both thresholds
of a passing leaf. -/
structure Honoured (rules : Dict) (metrics : Metrics) (baselineMetrics : Option Metrics) : Prop where
  keys : HasBothKeys rules →
    (∀ leaf ∈ leavesBelow rules "all", Passes metrics baselineMetrics leaf) ∧
      ∃ leaf ∈ leavesBelow rules "any", Passes metrics baselineMetrics leaf
  thresholds : ∀ leaf, WrittenIn rules leaf → Passes metrics baselineMetrics leaf →
    HasBothThresholds leaf → MeetsValue metrics leaf ∧ MeetsDelta metrics baselineMetrics leaf

/-- What the engine looks at is met: every leaf has a result, and those of the first key pass as that
key wants it. -/
structure Approved (rules : Dict) (metrics : Metrics) (baselineMetrics : Option Metrics) : Prop where
  nonempty : leavesOf rules ≠ []
  answered : ∀ leaf ∈ leavesOf rules, ∃ r, evaluateLeaf metrics baselineMetrics leaf = .ok r
  passed : if (rules.get? "all").isSome then
      ∀ leaf ∈ leavesOf rules, Passes metrics baselineMetrics leaf
    else ∃ leaf ∈ leavesOf rules, Passes metrics baselineMetrics leaf

/-- The leaves of `any` are passed over, and none of them passes. -/
def DropsAny (rules : Dict) (metrics : Metrics) (baselineMetrics : Option Metrics) : Prop :=
  HasBothKeys rules ∧
    ∀ leaf ∈ leavesBelow rules "any", ¬ Passes metrics baselineMetrics leaf

/-- The absolute threshold of a leaf that passes by its baseline delta is passed over, and is not
met. -/
def DropsValue (rules : Dict) (metrics : Metrics) (baselineMetrics : Option Metrics) : Prop :=
  ∃ leaf, WrittenIn rules leaf ∧ Passes metrics baselineMetrics leaf ∧ HasBothThresholds leaf ∧
    ¬ MeetsValue metrics leaf

section Dropped

variable {rules : Dict} {metrics : Metrics} {baselineMetrics : Option Metrics}

theorem leavesOf_of_all (h : (rules.get? "all").isSome = true) :
    leavesOf rules = leavesBelow rules "all" := by
  unfold leavesOf leavesBelow chosen
  cases hall : rules.get? "all" with
  | none => simp [hall] at h
  | some leaves => rfl

theorem combine_any_eq_pass {statuses : List GateStatus} :
    combine statuses "any" = .pass ↔ .pass ∈ statuses := by
  unfold combine
  rw [if_neg (by decide)]
  split
  · simp [*]
  · split <;> simp [*]

/-- The results that pass belong to the leaves that pass. -/
theorem pass_mem_statuses {leaves : List Json} {rs : List RuleResult}
    (h : leaves.mapM (evaluateLeaf metrics baselineMetrics) = .ok rs) :
    .pass ∈ rs.map RuleResult.status ↔ ∃ leaf ∈ leaves, Passes metrics baselineMetrics leaf := by
  rw [mem_statuses h]
  constructor
  · rintro ⟨leaf, hleaf, r, hr, hstatus⟩
    exact ⟨leaf, hleaf, (pass_iff hr).mp hstatus⟩
  · rintro ⟨leaf, hleaf, hpasses⟩
    obtain ⟨r, hr⟩ := mapM_isOk_iff.mp ⟨rs, h⟩ leaf hleaf
    exact ⟨leaf, hleaf, r, hr, (pass_iff hr).mpr hpasses⟩

/-- All statuses are PASS exactly if all leaves pass. -/
theorem all_pass_iff {leaves : List Json} {rs : List RuleResult}
    (h : leaves.mapM (evaluateLeaf metrics baselineMetrics) = .ok rs) :
    combine (rs.map RuleResult.status) "all" = .pass ↔
      ∀ leaf ∈ leaves, Passes metrics baselineMetrics leaf := by
  rw [combine_all_eq_pass]
  constructor
  · rintro ⟨herror, hfail⟩ leaf hleaf
    obtain ⟨r, hr⟩ := mapM_isOk_iff.mp ⟨rs, h⟩ leaf hleaf
    have hmem : r.status ∈ rs.map RuleResult.status :=
      (mem_statuses h).mpr ⟨leaf, hleaf, r, hr, rfl⟩
    cases hstatus : r.status with
    | pass => exact (pass_iff hr).mp hstatus
    | error =>
        rw [hstatus] at hmem
        exact absurd hmem herror
    | fail =>
        rw [hstatus] at hmem
        exact absurd hmem hfail
  · intro hpasses
    have hall : ∀ status ∈ rs.map RuleResult.status, status = .pass := by
      intro status hstatus
      obtain ⟨leaf, hleaf, r, hr, rfl⟩ := (mem_statuses h).mp hstatus
      exact (pass_iff hr).mpr (hpasses leaf hleaf)
    constructor
    · intro hmem
      cases hall _ hmem
    · intro hmem
      cases hall _ hmem

/-- **The engine answers PASS exactly if what it looks at is met.** -/
theorem evaluate_pass_iff :
    (∃ results, evaluate rules metrics baselineMetrics = .ok (.pass, results)) ↔
      Approved rules metrics baselineMetrics := by
  obtain ⟨hnil, reason, heq⟩ | ⟨hne, heq⟩ := @evaluate_cases metrics baselineMetrics rules
  · rw [heq]
    refine iff_of_false ?_ fun h => h.nonempty hnil
    rintro ⟨results, h⟩
    cases h
  rw [heq]
  cases hmap : (leavesOf rules).mapM (evaluateLeaf metrics baselineMetrics) with
  | error e =>
      refine iff_of_false ?_ fun h => ?_
      · rintro ⟨results, h⟩
        cases h
      · obtain ⟨rs, hrs⟩ := mapM_isOk_iff.mpr h.answered
        rw [hmap] at hrs
        cases hrs
  | ok rs =>
      have hanswered := mapM_isOk_iff.mp ⟨rs, hmap⟩
      have hpass : combine (rs.map RuleResult.status) (logicalOf rules) = .pass ↔
          if (rules.get? "all").isSome then
            ∀ leaf ∈ leavesOf rules, Passes metrics baselineMetrics leaf
          else ∃ leaf ∈ leavesOf rules, Passes metrics baselineMetrics leaf := by
        unfold logicalOf
        split
        · exact all_pass_iff hmap
        · rw [combine_any_eq_pass]
          exact pass_mem_statuses hmap
      constructor
      · rintro ⟨results, h⟩
        have hcombine := congrArg Prod.fst (Except.ok.inj h)
        exact ⟨hne, hanswered, hpass.mp hcombine⟩
      · intro h
        refine ⟨rs.map RuleResult.json, ?_⟩
        show Except.ok (combine (rs.map RuleResult.status) (logicalOf rules), _) = _
        rw [hpass.mpr h.passed]

/-- A leaf that passes meets its baseline delta, if it has one. -/
theorem meetsDelta_of_passes {leaf : Json} (h : Passes metrics baselineMetrics leaf)
    (hboth : HasBothThresholds leaf) : MeetsDelta metrics baselineMetrics leaf := by
  cases leaf with
  | null | bool b | num q | nan | infinity b | str t | arr vs => exact absurd h id
  | obj rule =>
      obtain ⟨name, candidate, c, hcandidate, hc, hcompare⟩ := h
      obtain ⟨threshold, hdelta⟩ := Option.isSome_iff_exists.mp hboth.2
      unfold comparisonOf at hc
      rw [hdelta] at hc
      obtain ⟨value, hvalue, rfl⟩ := Option.map_eq_some_iff.mp hc
      exact ⟨name, candidate, value, threshold, hcandidate, hvalue, hdelta, hcompare⟩

/-- **PASS means that every constraint is met exactly if none is passed over that is not met.** -/
theorem honoured_iff :
    (Approved rules metrics baselineMetrics → Honoured rules metrics baselineMetrics) ↔
    (Approved rules metrics baselineMetrics →
      ¬ DropsAny rules metrics baselineMetrics ∧ ¬ DropsValue rules metrics baselineMetrics) := by
  refine imp_congr_right fun happroved => ?_
  constructor
  · intro h
    constructor
    · rintro ⟨hkeys, hnone⟩
      obtain ⟨leaf, hleaf, hpasses⟩ := (h.keys hkeys).2
      exact hnone leaf hleaf hpasses
    · rintro ⟨leaf, hwritten, hpasses, hboth, hvalue⟩
      exact hvalue (h.thresholds leaf hwritten hpasses hboth).1
  · rintro ⟨hany, hvalue⟩
    constructor
    · intro hkeys
      constructor
      · have hpassed := happroved.passed
        rw [if_pos hkeys.1, leavesOf_of_all hkeys.1] at hpassed
        exact hpassed
      · by_contra hnone
        exact hany ⟨hkeys, fun leaf hleaf hpasses => hnone ⟨leaf, hleaf, hpasses⟩⟩
    · intro leaf hwritten hpasses hboth
      refine ⟨?_, meetsDelta_of_passes hpasses hboth⟩
      by_contra hmissed
      exact hvalue ⟨leaf, hwritten, hpasses, hboth, hmissed⟩

/-- Nothing is passed over in rules with one key and leaves with one threshold. -/
theorem nothing_dropped (hkeys : ¬ HasBothKeys rules)
    (hthresholds : ∀ leaf, WrittenIn rules leaf → ¬ HasBothThresholds leaf) :
    ¬ DropsAny rules metrics baselineMetrics ∧ ¬ DropsValue rules metrics baselineMetrics := by
  constructor
  · intro h
    exact hkeys h.1
  · rintro ⟨leaf, hwritten, _, hboth, _⟩
    exact hthresholds leaf hwritten hboth

end Dropped

/-- **When a PASS honours every constraint of the rules**: unless the engine approves of rules whose
`any` it passes over and would refuse, or of a leaf whose `value` it passes over and would refuse. -/
theorem no_constraint_dropped_iff (rules : Dict) (metrics : Metrics)
    (baselineMetrics : Option Metrics) :
    (∀ results, evaluate rules metrics baselineMetrics = .ok (.pass, results) →
      Honoured rules metrics baselineMetrics) ↔
    (Approved rules metrics baselineMetrics →
      ¬ DropsAny rules metrics baselineMetrics ∧ ¬ DropsValue rules metrics baselineMetrics) := by
  rw [← honoured_iff, ← evaluate_pass_iff]
  constructor
  · rintro h ⟨results, hpass⟩
    exact h results hpass
  · intro h results hpass
    exact h ⟨results, hpass⟩

/-- "exact_match >= threshold" -/
def atLeast (threshold : ℚ) : Json :=
  .obj [("metric", .str "exact_match"), ("operator", .str ">="), ("value", .num threshold)]

/-- All of a rule that holds, and any of a rule that does not. -/
theorem any_passed_over : ¬ ∀ results,
    evaluate [("all", .arr [atLeast 0]), ("any", .arr [atLeast 2])] [("exact_match", .finite 1)] none =
      .ok (.pass, results) →
    Honoured [("all", .arr [atLeast 0]), ("any", .arr [atLeast 2])] [("exact_match", .finite 1)]
      none := by
  intro h
  obtain ⟨leaf, hleaf, hpasses⟩ := ((h _ rfl).keys ⟨rfl, rfl⟩).2
  obtain rfl := List.mem_singleton.mp hleaf
  obtain ⟨name, candidate, c, hcandidate, hc, hcompare⟩ := hpasses
  cases hcandidate
  cases hc
  cases hcompare

end QualityGateEngine

end PosttrainPlatform
