import PosttrainPlatform.Services.Statements

/-!
# `app/evaluation/quality_gate_engine.py`, and the gates of `app/services/evaluations.py`

The engine decides over metrics that are already persisted.  Rules are JSON as it was stored, so a leaf
can have any shape: `evaluate` answers a status with the result of every rule, or raises.  The result of
a rule is the dict that the platform records.
-/

namespace PosttrainPlatform

open Doubles Service

namespace QualityGateEngine

/-- `_EQ_TOLERANCE`, and the default of `rel_tol`: the double that is written `1e-9`. -/
def eqTolerance : ℚ := 4835703278458517 / 4835703278458516698824704

/-- An ordering of a number and a threshold; Python orders numbers only. -/
def ordered (rhs : Json) (holds : Number → Bool) : Except Exn (Option Bool) :=
  match rhs.number? with
  | some threshold => .ok (some (holds threshold))
  | none => .error .typeError

/-- `math.isclose`, which converts the threshold to a double. -/
def isClose (lhs : Number) (rhs : Json) : Except Exn (Option Bool) :=
  match rhs.number? with
  | none => .error .typeError
  | some (.finite q) =>
      match Number.round q with
      | .infinity _ => .error .overflowError
      | threshold => .ok (some (lhs.isClose eqTolerance eqTolerance threshold))
  | some threshold => .ok (some (lhs.isClose eqTolerance eqTolerance threshold))

/-- `_compare`; `none` for an operator that is none of the five. -/
def compare (lhs : Number) (operator rhs : Json) : Except Exn (Option Bool) :=
  match operator with
  | .str ">=" => ordered rhs fun threshold => threshold.le lhs
  | .str ">" => ordered rhs fun threshold => threshold.lt lhs
  | .str "<=" => ordered rhs fun threshold => lhs.le threshold
  | .str "<" => ordered rhs fun threshold => lhs.lt threshold
  | .str "==" => isClose lhs rhs
  | _ => .ok none

/-- A structured rule result. -/
structure RuleResult where
  status : GateStatus
  fields : Dict

/-- The result as it is recorded. -/
def RuleResult.json (r : RuleResult) : Json := .obj (r.fields ++ [("status", .str r.status.value)])

def errorResult (base : Dict) (reason : String) : RuleResult :=
  { status := .error, fields := base ++ [("reason", .str reason)] }

/-- The result of a comparison with what it reports. -/
def comparedResult (base reported : Dict) : Option Bool → RuleResult
  | none => errorResult base "invalid operator"
  | some outcome => { status := if outcome then .pass else .fail, fields := base ++ reported }

/-- The baseline-delta rule of `_evaluate_leaf`. -/
def evaluateDelta (base : Dict) (operator threshold : Json) (candidate : Number)
    (baseline : Option (Option Number)) : Except Exn RuleResult :=
  let base := base ++ [("baseline_delta", threshold)]
  match baseline with
  | none =>
      .ok (errorResult base "baseline comparison requested but no compatible baseline metrics")
  | some none => .ok (errorResult base "baseline metric not present")
  | some (some value) => do
      let delta := candidate.sub value
      let outcome ← compare delta operator threshold
      pure (comparedResult base [("candidate", .ofNumber candidate), ("baseline", .ofNumber value),
        ("delta", .ofNumber delta)] outcome)

/-- The absolute-threshold rule of `_evaluate_leaf`. -/
def evaluateThreshold (base : Dict) (operator threshold : Json) (candidate : Number) :
    Except Exn RuleResult := do
  let outcome ← compare candidate operator threshold
  pure (comparedResult (base ++ [("value", threshold)]) [("candidate", .ofNumber candidate)] outcome)

/-- `_evaluate_leaf` for a candidate value. -/
def evaluateCandidate (baselineMetrics : Option Metrics) (rule base : Dict) (operator : Json)
    (name : String) (candidate : Number) : Except Exn RuleResult :=
  match rule.get? "baseline_delta" with
  | some threshold => evaluateDelta base operator threshold candidate
      (baselineMetrics.map fun baseline => baseline.lookup name)
  | none =>
      match rule.get? "value" with
      | some threshold => evaluateThreshold base operator threshold candidate
      | none => .ok (errorResult base "rule missing value/baseline_delta")

/-- `_evaluate_leaf` from the lookup of the metric on; a list or a dict cannot be looked up. -/
def evaluateMetric (metrics : Metrics) (baselineMetrics : Option Metrics) (rule base : Dict)
    (operator : Json) : Json → Except Exn RuleResult
  | .str name =>
      match metrics.lookup name with
      | none => .ok (errorResult base "metric not present in evaluation results")
      | some .nan => .ok (errorResult base "metric value is missing or invalid")
      | some candidate => evaluateCandidate baselineMetrics rule base operator name candidate
  | .arr _ | .obj _ => .error .typeError
  | .null | .bool _ | .num _ | .nan | .infinity _ =>
      .ok (errorResult base "metric not present in evaluation results")

/-- What every result of a rule begins with. -/
def leafBase (rule : Dict) : Dict :=
  [("metric", rule.getD "metric" .null), ("operator", rule.getD "operator" .null)]

/-- `_evaluate_leaf`; a leaf that is no dict has no `get`. -/
def evaluateLeaf (metrics : Metrics) (baselineMetrics : Option Metrics) :
    Json → Except Exn RuleResult
  | .obj rule =>
      let metricName := Dict.getD rule "metric" .null
      let operator := Dict.getD rule "operator" .null
      if metricName.isNull || operator.isNull then
        .ok (errorResult (leafBase rule) "rule missing metric/operator")
      else evaluateMetric metrics baselineMetrics rule (leafBase rule) operator metricName
  | .null | .bool _ | .num _ | .nan | .infinity _ | .str _ | .arr _ => .error .attributeError

/-- `_combine`. -/
def combine (childStatuses : List GateStatus) (logical : String) : GateStatus :=
  if logical = "all" then
    if .error ∈ childStatuses then .error
    else if .fail ∈ childStatuses then .fail
    else .pass
  else if .pass ∈ childStatuses then .pass
  else if .error ∈ childStatuses then .error
  else .fail

/-- The results for rules that are no rules. -/
def refused (reason : String) : GateStatus × List Json :=
  (.error, [.obj [("reason", .str reason)]])

/-- `evaluate` for the leaves below `logical`. -/
def evaluateLeaves (logical : String) (leaves : Json) (metrics : Metrics)
    (baselineMetrics : Option Metrics) : Except Exn (GateStatus × List Json) :=
  match leaves with
  | .arr (leaf :: rest) => do
      let ruleResults ← (leaf :: rest).mapM (evaluateLeaf metrics baselineMetrics)
      pure (combine (ruleResults.map RuleResult.status) logical, ruleResults.map RuleResult.json)
  | _ => .ok (refused ("'" ++ logical ++ "' must be a non-empty list of rules"))

/-- `evaluate`. -/
def evaluate (rules : Dict) (metrics : Metrics) (baselineMetrics : Option Metrics) :
    Except Exn (GateStatus × List Json) :=
  match rules.get? "all", rules.get? "any" with
  | some leaves, _ => evaluateLeaves "all" leaves metrics baselineMetrics
  | none, some leaves => evaluateLeaves "any" leaves metrics baselineMetrics
  | none, none => .ok (refused "rules must contain 'all' or 'any'")

end QualityGateEngine

/-! ### Baseline comparison -/

/-- `_config_compatible`. -/
def configCompatible (candidateConfigId baselineConfigId : ℕ) : Service Bool := do
  if candidateConfigId = baselineConfigId then pure true
  else do
    let cand ← exec (.getEvaluationConfig candidateConfigId)
    let base ← exec (.getEvaluationConfig baselineConfigId)
    match cand, base with
    | some cand, some base =>
        pure (cand.taskType == base.taskType &&
          (Json.obj cand.metricDefinitions).pyEq (.obj base.metricDefinitions))
    | _, _ => pure false

/-- The loop of `resolve_baseline_metrics` over the completed runs. -/
def firstComparable (run : EvaluationRun) :
    List (RunId × EvaluationRun) → Service (Option Metrics)
  | [] => pure none
  | (baseId, base) :: rest => do
      let datasetOk := decide (base.dataset = run.dataset)
      let configOk ← configCompatible run.evaluationConfigId base.evaluationConfigId
      if datasetOk && configOk then do
        let metrics ← exec (.metricMap baseId)
        pure (some metrics)
      else firstComparable run rest

/-- `resolve_baseline_metrics`, not strict.  The ORM object of the run keeps the row that it was loaded
with. -/
def resolveBaselineMetrics (runId : RunId) (run : EvaluationRun) : Service (Option Metrics) := do
  if run.baseline.1.isNone then pure none
  else do
    let candidates ← exec (.listForModelVersion run.baseline)
    firstComparable run ((candidates.map fun r => if r.1 = runId then (runId, run) else r).filter
      fun r => r.2.status = .succeeded)

/-- `resolve_baseline_metrics`, strict: without a baseline that can be compared it raises. -/
def resolveBaselineStrictly (runId : RunId) (run : EvaluationRun) : Service (Option Metrics) := do
  if run.baseline.1.isNone then pure none
  else do
    let candidates ← exec (.listForModelVersion run.baseline)
    let completed := (candidates.map fun r => if r.1 = runId then (runId, run) else r).filter
      fun r => r.2.status = .succeeded
    check (.http 409) (!completed.isEmpty)
    let metrics ← found (.http 409) (← firstComparable run completed)
    pure (some metrics)

/-- The part of `compute_baseline_deltas` that is computed. -/
structure BaselineComparison where
  candidateMetrics : Metrics
  baselineMetrics : Metrics
  deltas : Metrics

/-- The differences of the metrics that both maps have. -/
def metricDeltas (candidateMetrics baselineMetrics : Metrics) : Metrics :=
  candidateMetrics.filterMap fun m =>
    (baselineMetrics.lookup m.1).map fun value => (m.1, m.2.sub value)

/-- `compute_baseline_deltas`. -/
def computeBaselineDeltas (runId : RunId) (run : EvaluationRun) :
    Service (Option BaselineComparison) := do
  match ← resolveBaselineStrictly runId run with
  | none => pure none
  | some baselineMetrics => do
      let candidateMetrics ← exec (.metricMap runId)
      pure (some { candidateMetrics, baselineMetrics
                   deltas := metricDeltas candidateMetrics baselineMetrics })

/-! ### Quality gates -/

/-- What the engine returns, or the exception that it raises. -/
def ofEngine {α : Type} : Except Exn α → Service α
  | .ok a => pure a
  | .error e => raise e

/-- `evaluate_quality_gate`: the recorded result, and whether this call has recorded it. -/
def evaluateQualityGate (runId : RunId) (gate : ℕ) : Service (QualityGateResult × Bool) := do
  let run ← found (.http 404) (← exec (.getEvaluationRun runId))
  let rules ← found (.http 404) (← exec (.getQualityGate gate))
  check (.http 409) (run.status = .succeeded)
  let metrics ← exec (.metricMap runId)
  let baselineMetrics ← resolveBaselineMetrics runId run
  let (status, ruleResults) ←
    ofEngine (QualityGateEngine.evaluate rules metrics baselineMetrics)
  let inserted ← exec (.recordGateResult runId gate status ruleResults)
  let existing ← found (.http 409) (← exec (.getGateResult runId gate))
  pure (existing, inserted)

end PosttrainPlatform
