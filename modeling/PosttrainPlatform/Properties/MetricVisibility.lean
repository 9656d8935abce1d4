import PosttrainPlatform.Properties.BaselineRuns
import PosttrainPlatform.Properties.EvaluationRuns
import PosttrainPlatform.Properties.ToyEvaluations

/-!
# Recorded metrics and the metric map

The split of a configuration travels through the context of the subprocess and the events of the
evaluator into the key of a metric row.  The metric map of a run has the rows of one split only, which
no configuration decides.
-/

namespace PosttrainPlatform

open Doubles Programs Service Process QualityGateEngine

/-! ### The split of a row -/

section Split

variable {env : Env} {py : Python} {s : World} {h : Pasts} {runId : RunId} {run : EvaluationRun}
  {config : EvaluationConfig}

/-- The split that a configuration names. -/
def EvaluationConfig.split (config : EvaluationConfig) : Json :=
  Dict.getD config.metricDefinitions "split" (.str "all")

/-- A configuration whose runs are left to the toy evaluator. -/
def EvaluationConfig.IsToy (config : EvaluationConfig) : Prop :=
  Dict.getD config.metricDefinitions "evaluator_entrypoint" toyEvaluatorEntrypoint =
    toyEvaluatorEntrypoint

/-- **A metric row has the split of the configuration of its run.** -/
theorem Knows.split_of_row (hk : Knows env s h)
    (hprinted : ∀ p op a, History.Answered (h p) op a → PrintedByToyEvaluator env py op a)
    (hrun : s.db.evaluationRuns.lookup runId = some run)
    (hconfig : s.db.evaluationConfigs.lookup run.evaluationConfigId = some config)
    (htoy : config.IsToy) {name part : String} {row : EvaluationMetric}
    (hrow : s.db.evaluationMetrics.lookup (runId, name, part) = some row) :
    env.textColumn config.split = some part := by
  obtain ⟨p, j, w, metricName, split, count, _, hpart, _, he⟩ :=
    hk.sources.evaluationMetrics runId name part row hrow
  obtain ⟨event, ⟨run₀, context, files, hstart, before, after, hspawn, _⟩, hkind, _, _, hsplit, _⟩ :=
    hk.justified he
  obtain ⟨config?, resources, inputs, version, dataset, hread, _, _, _, _, hcontext, _⟩ :=
    hstart.prepared
  -- the run that the attempt has found is the stored one
  obtain ⟨_, run₁, hrun₁, hsame⟩ := hk.told p _ _ hstart.evaluates.found runId run₀ rfl
  rw [hrun] at hrun₁
  cases hrun₁
  have hconfig? : s.db.evaluationConfigs.lookup run₀.evaluationConfigId = config? :=
    hk.told p _ _ hread
  rw [← hsame.2.2.2.1, hconfig] at hconfig?
  subst hconfig? hcontext
  obtain ⟨i, hleaves, hlines⟩ := hprinted p _ _ hspawn (congrArg some htoy)
  have hline : .json (.obj event) ∈ i.lines := by
    rw [hlines]
    exact List.mem_append_right _ List.mem_cons_self
  rw [← hpart, hsplit, hleaves.split hline hkind]
  rfl

end Split

/-! ### The metric map -/

section Map

variable {env : Env} {s : World} {runId : RunId}

theorem mem_metricMap {db : Db} {m : String × Number} :
    m ∈ EvaluationMetricsRepo.metricMap env db runId ↔ ∃ row,
      db.evaluationMetrics.lookup (runId, m.1, "all") = some row ∧
        env.float8in row.metricValue = m.2 := by
  obtain ⟨name, value⟩ := m
  unfold EvaluationMetricsRepo.metricMap
  rw [List.mem_map]
  constructor
  · rintro ⟨⟨⟨run, name', part⟩, row⟩, hmem, heq⟩
    obtain ⟨hstored, hkey⟩ := List.mem_filter.mp hmem
    obtain ⟨rfl, rfl⟩ := of_decide_eq_true hkey
    cases heq
    exact ⟨row, Table.mem_rows.mp hstored, rfl⟩
  · rintro ⟨row, hstored, hvalue⟩
    refine ⟨((runId, name, "all"), row), ?_, Prod.ext rfl hvalue⟩
    exact List.mem_filter.mpr ⟨Table.mem_rows.mpr hstored, decide_eq_true ⟨rfl, rfl⟩⟩

/-- **The metric map has the value of the row of the split `all`.** -/
theorem lookup_metricMap {db : Db} {name : String} {value : Number} :
    (EvaluationMetricsRepo.metricMap env db runId).lookup name = some value ↔ ∃ row,
      db.evaluationMetrics.lookup (runId, name, "all") = some row ∧
        env.float8in row.metricValue = value := by
  constructor
  · intro h
    obtain ⟨before, after, hmap, _⟩ := List.lookup_eq_some_iff.mp h
    have hmem : (name, value) ∈ EvaluationMetricsRepo.metricMap env db runId := by
      rw [hmap]
      exact List.mem_append_right _ List.mem_cons_self
    exact mem_metricMap.mp hmem
  · intro h
    refine lookup_of_mem_of_unique (mem_metricMap.mpr h) fun v hv => ?_
    obtain ⟨row, hrow, rfl⟩ := h
    obtain ⟨row', hrow', rfl⟩ := mem_metricMap.mp hv
    rw [hrow] at hrow'
    cases hrow'
    rfl

end Map

/-! ### The reasons of the engine -/

section Reasons

/-- The reason that the engine gives for a metric that it does not find. -/
def metricAbsent : String := "metric not present in evaluation results"

/-- The reason of a result, when it is an error. -/
def QualityGateEngine.RuleResult.reason? (r : RuleResult) : Option Json := Dict.get? r.fields "reason"

theorem Dict.get?_append {base more : Dict} {key : String} (h : base.get? key = none) :
    Dict.get? (base ++ more) key = more.get? key := by
  show (base ++ more).lookup key = _
  rw [List.lookup_append, show base.lookup key = none from h]
  rfl

theorem reason_errorResult {base : Dict} (h : base.get? "reason" = none) (reason : String) :
    (errorResult base reason).reason? = some (.str reason) :=
  Dict.get?_append h

theorem reason_compared {base reported : Dict} {lhs : Number} {operator threshold : Json}
    {r : RuleResult} (hbase : base.get? "reason" = none) (hreported : reported.get? "reason" = none)
    (h : compared base lhs operator threshold reported = .ok r) :
    r.reason? ≠ some (.str metricAbsent) := by
  obtain ⟨outcome, _, rfl⟩ := compared_eq_ok.mp h
  cases outcome with
  | none =>
      rw [comparedResult, reason_errorResult hbase]
      exact fun heq => absurd (Json.str.inj (Option.some.inj heq)) (by decide)
  | some outcome =>
      have hnone : (comparedResult base reported (some outcome)).reason? = none :=
        (Dict.get?_append hbase).trans hreported
      rw [hnone]
      intro heq
      cases heq

/-- A refusal for another reason. -/
theorem reason_refused {base : Dict} (hbase : base.get? "reason" = none) {reason : String}
    (hreason : reason ≠ metricAbsent) {r : RuleResult}
    (h : Except.ok (ε := Exn) (errorResult base reason) = .ok r) :
    r.reason? ≠ some (.str metricAbsent) := by
  rw [← Except.ok.inj h, reason_errorResult hbase]
  exact fun heq => hreason (Json.str.inj (Option.some.inj heq))

theorem reason_of_candidate {baselineMetrics : Option Metrics} {rule base : Dict} {operator : Json}
    {name : String} {candidate : Number} {r : RuleResult} (hbase : base.get? "reason" = none)
    (h : evaluateCandidate baselineMetrics rule base operator name candidate = .ok r) :
    r.reason? ≠ some (.str metricAbsent) := by
  have hmore : ∀ key threshold, key ≠ "reason" →
      Dict.get? (base ++ [(key, threshold)]) "reason" = none := by
    intro key threshold hkey
    rw [Dict.get?_append hbase]
    show List.lookup "reason" [(key, threshold)] = none
    rw [List.lookup_cons, beq_eq_false_iff_ne.mpr hkey.symm]
    rfl
  unfold evaluateCandidate at h
  split at h
  · rename_i threshold _
    have hdelta := hmore "baseline_delta" threshold (by decide)
    generalize baselineMetrics.map (fun baseline => baseline.lookup name) = baseline at h
    obtain _ | _ | value := baseline
    · exact reason_refused hdelta (by decide) h
    · exact reason_refused hdelta (by decide) h
    · rw [evaluateDelta_eq] at h
      exact reason_compared hdelta rfl h
  · split at h
    · rw [evaluateThreshold_eq] at h
      exact reason_compared (hmore _ _ (by decide)) rfl h
    · exact reason_refused hbase (by decide) h

/-- **A metric that is in the map is never said to be absent.** -/
theorem reason_of_lookup {metrics : Metrics} {baselineMetrics : Option Metrics} {rule : Dict}
    {name : String} {value : Number} {r : RuleResult} (hvalue : metrics.lookup name = some value)
    (hmetric : rule.get? "metric" = some (.str name))
    (h : evaluateLeaf metrics baselineMetrics (.obj rule) = .ok r) :
    r.reason? ≠ some (.str metricAbsent) := by
  have hname : Dict.getD rule "metric" .null = .str name := by
    rw [Dict.getD, hmetric]
    rfl
  have hleaf : (leafBase rule).get? "reason" = none := rfl
  simp only [evaluateLeaf, hname] at h
  cases hop : (Dict.getD rule "operator" .null).isNull with
  | true =>
      rw [hop, Bool.or_true, if_pos rfl] at h
      exact reason_refused hleaf (by decide) h
  | false =>
      rw [hop, Bool.or_false, if_neg (show ¬ (Json.str name).isNull = true from Bool.false_ne_true),
        evaluateMetric, hvalue] at h
      split at h
      · rename_i heq
        cases heq
      · exact reason_refused hleaf (by decide) h
      · exact reason_of_candidate hleaf h

end Reasons

/-! ### Visibility -/

/-- **A metric is visible to policy**: the map that gates and baseline comparisons work with has its
value, and no rule on it is told that it is absent. -/
structure MetricVisible (env : Env) (s : World) (runId : RunId) (name : String) (value : Number) :
    Prop where
  listed : (EvaluationMetricsRepo.metricMap env s.db runId).lookup name = some value
  compared : ∀ p supply run comparison s', evalAlone env p supply (computeBaselineDeltas runId run) s =
    (.ok (some comparison), s') → comparison.candidateMetrics.lookup name = some value
  judged : ∀ baselineMetrics (rule : Dict) r, rule.get? "metric" = some (.str name) →
    evaluateLeaf (EvaluationMetricsRepo.metricMap env s.db runId) baselineMetrics (.obj rule) = .ok r →
      r.reason? ≠ some (.str metricAbsent)

section Visible

variable {env : Env} {py : Python} {s : World} {runId : RunId} {name : String} {value : Number}

theorem metricVisible_iff : MetricVisible env s runId name value ↔
    (EvaluationMetricsRepo.metricMap env s.db runId).lookup name = some value := by
  refine ⟨fun h => h.listed, fun h => ⟨h, fun p supply run comparison s' hdeltas => ?_,
    fun baselineMetrics rule r hmetric hr => reason_of_lookup h hmetric hr⟩⟩
  rw [(comparison_of_deltas hdeltas).1]
  exact h

variable {es : List (SysEvent env)} {c : System env} {run : EvaluationRun}
  {config : EvaluationConfig}

/-- **Recorded metrics are visible exactly if the configuration names the split `all`**, for every
metric row of a run of the toy evaluator. -/
theorem recorded_metric_visible_iff (h : Reaches s es c)
    (htoy : Runs.Always Config.step (Config.AtStep (RunsToyEvaluator env py))
      ({ shared := s } : System env) es)
    (hrun : c.shared.db.evaluationRuns.lookup runId = some run)
    (hconfig : c.shared.db.evaluationConfigs.lookup run.evaluationConfigId = some config)
    (hconfigured : config.IsToy) {part : String} {row : EvaluationMetric}
    (hrow : c.shared.db.evaluationMetrics.lookup (runId, name, part) = some row) :
    MetricVisible env c.shared runId name (env.float8in row.metricValue) ↔
      env.textColumn config.split = some "all" := by
  have hk := knows_of_reaches h
  have hprinted : ∀ p op a, History.Answered (pasts env s es p) op a →
      PrintedByToyEvaluator env py op a := fun p op a ha => printed_of_reaches h htoy ha
  have hsplit : ∀ {part' row'}, c.shared.db.evaluationMetrics.lookup (runId, name, part') = some row' →
      env.textColumn config.split = some part' := fun hrow' =>
    hk.split_of_row hprinted hrun hconfig hconfigured hrow'
  rw [metricVisible_iff, lookup_metricMap]
  constructor
  · intro hvisible
    obtain ⟨row', hrow', _⟩ := hvisible
    exact hsplit hrow'
  · intro hall
    have hpart : part = "all" := Option.some.inj ((hsplit hrow).symm.trans hall)
    subst hpart
    exact ⟨row, hrow, rfl⟩

end Visible

/-! ### Two splits -/

/-- A model with the parameter 1. -/
def modelFile : Bytes := Codec.dumps (.obj [("param", .num 1)])

/-- A dataset with one example, which the model answers. -/
def datasetFile : Bytes :=
  Codec.dumps (.obj [("examples", .arr [.obj [("id", .str "e1"), ("input", .str "a"),
    ("expected_output", .str "a")]])])

def splitConfig (split : String) : EvaluationConfig :=
  { taskType := "text", metricDefinitions := [("split", .str split)] }

/-- A platform with the two files. -/
def scoringStart (config : EvaluationConfig) : World :=
  World.evaluable .standard config modelFile datasetFile

theorem scoringStart_initial (config : EvaluationConfig) : (scoringStart config).Initial :=
  World.evaluable_initial _ _ _ _

/-- What the toy evaluator prints in the first attempt of job 1. -/
def scoringInput (config : EvaluationConfig) : Input :=
  let inputs : EvaluationInputs :=
    { model := (modelFile, Env.standard.sha256 modelFile)
      dataset := (datasetFile, Env.standard.sha256 datasetFile) }
  let context := evaluationContext ⟨1, 7, 1, 1⟩ (some config) [] inputs
  let files := evaluationFiles ⟨1, 7, 1, 1⟩ inputs
  let acts := (evaluationMain .standard (.steady 0) files context
    (ToyEvaluator.run .standard .standard (.steady 0) files context)).trace
  { now := 1, lines := (acts.filterMap Action.event?).map fun event => .json (.obj event) }

/-- A run of the platform in which an evaluation is created, admitted and executed. -/
def scoredJob (config : EvaluationConfig) : List (SysEvent Env.standard) :=
  session 0 (.createEvaluation evaluationPayload) 6 { uuid := 1 } ++
    session 1 .schedulerRunOnce 8 {} ++
    session 2 (.processJobMessage 1 7) 34 (scoringInput config)

/-- What the toy evaluator is given in that attempt. -/
def scoringPass (config : EvaluationConfig) : ToyEvaluator.Pass :=
  let inputs : EvaluationInputs :=
    { model := (modelFile, Env.standard.sha256 modelFile)
      dataset := (datasetFile, Env.standard.sha256 datasetFile) }
  { host := .steady 0
    context := evaluationContext ⟨1, 7, 1, 1⟩ (some config) [] inputs
    files := evaluationFiles ⟨1, 7, 1, 1⟩ inputs }

theorem scoredJob_prints (config : EvaluationConfig) : ∀ e ∈ scoredJob config,
    SuppliedWith (fun _ i => (scoringPass config).Prints .standard i) e := by
  unfold scoredJob
  simp only [List.forall_mem_append]
  exact ⟨⟨suppliedWith_session ⟨rfl, .inl rfl⟩, suppliedWith_session ⟨rfl, .inl rfl⟩⟩,
    suppliedWith_session ⟨rfl, .inr rfl⟩⟩

/-- With the split `all` the recorded accuracy is visible. -/
theorem accuracy_visible : ∃ c : System .standard,
    Reaches (scoringStart (splitConfig "all")) (scoredJob (splitConfig "all")) c ∧
      MetricVisible .standard c.shared 1 "exact_match" (.finite 1) := by
  obtain ⟨c, hc, run, hrun, hconfigId, row, hrow, hvalue⟩ := exists_reaches
    (scoringStart_initial (splitConfig "all")) (scoredJob (splitConfig "all"))
    (P := fun c : System .standard => ∃ run ∈ c.shared.db.evaluationRuns.lookup 1,
      run.evaluationConfigId = 1 ∧
        ∃ row ∈ c.shared.db.evaluationMetrics.lookup (1, "exact_match", "all"),
          Env.standard.float8in row.metricValue = .finite 1) (by decide +kernel)
  have hconfig : c.shared.db.evaluationConfigs.lookup run.evaluationConfigId =
      some (splitConfig "all") := by
    rw [hconfigId, evaluationConfigs_of_reaches hc]
    rfl
  have htoy := runsToyEvaluator_of_check (scoringStart (splitConfig "all")) _ _
    (scoredJob_prints (splitConfig "all")) (by decide +kernel)
  have hvisible := (recorded_metric_visible_iff hc htoy hrun hconfig rfl hrow).mpr rfl
  rw [hvalue] at hvisible
  exact ⟨c, hc, hvisible⟩

/-- **A recorded metric that policy does not see**: the evaluation succeeds, and the metric map is
empty. -/
theorem accuracy_hidden : ∃ c : System .standard,
    Reaches (scoringStart (splitConfig "test")) (scoredJob (splitConfig "test")) c ∧
      Runs.Always Config.step (Config.AtStep (RunsToyEvaluator .standard .standard))
        ({ shared := scoringStart (splitConfig "test") } : System .standard)
        (scoredJob (splitConfig "test")) ∧
      (∃ run ∈ c.shared.db.evaluationRuns.lookup 1, run.status = .succeeded) ∧
      ∃ row ∈ c.shared.db.evaluationMetrics.lookup (1, "exact_match", "test"),
        ¬ MetricVisible .standard c.shared 1 "exact_match"
          (Env.standard.float8in row.metricValue) := by
  obtain ⟨c, hc, hsucceeded, hrow, hempty⟩ := exists_reaches
    (scoringStart_initial (splitConfig "test")) (scoredJob (splitConfig "test"))
    (P := fun c : System .standard =>
      (∃ run ∈ c.shared.db.evaluationRuns.lookup 1, run.status = .succeeded) ∧
      (c.shared.db.evaluationMetrics.lookup (1, "exact_match", "test")).isSome = true ∧
      (EvaluationMetricsRepo.metricMap .standard c.shared.db 1).isEmpty = true) (by decide +kernel)
  obtain ⟨row, hrow⟩ := Option.isSome_iff_exists.mp hrow
  have htoy := runsToyEvaluator_of_check (scoringStart (splitConfig "test")) _ _
    (scoredJob_prints (splitConfig "test")) (by decide +kernel)
  refine ⟨c, hc, htoy, hsucceeded, row, hrow, fun hvisible => ?_⟩
  have hlisted := hvisible.listed
  rw [List.isEmpty_iff.mp hempty] at hlisted
  cases hlisted

end PosttrainPlatform
