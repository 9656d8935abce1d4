import PosttrainPlatform.Properties.CompletedRuns

/-!
# The examples behind a baseline comparison

`_config_compatible` compares the task type and the metric definitions.  How many examples a run scores
is decided by another field of its configuration.
-/

namespace PosttrainPlatform

open Programs ToyEvaluator

/-- The two runs have scored the same examples. -/
def ScoredAlike (db : Db) (a b : RunId) : Prop := ∀ id, id ∈ db.resultIds a ↔ id ∈ db.resultIds b

/-- Two cuts of a dataset have the same ids. -/
def SameIds (env : Env) (py : Python) (dataset : Bytes) (maxExamples maxExamples' : Json) : Prop :=
  ∃ ids ids', exampleIds env py dataset maxExamples = some ids ∧
    exampleIds env py dataset maxExamples' = some ids' ∧ ∀ id, id ∈ ids ↔ id ∈ ids'

section Alike

variable {env : Env} {py : Python} {s : World} {es : List (SysEvent env)} {c : System env}
  {runId b : RunId} {run base : EvaluationRun} {config baseConfig : EvaluationConfig}
  {dataset : Bytes}

/-- A baseline is stored, completed, and has the dataset of the candidate. -/
theorem baseline_of_run {db : Db} (hrun : db.evaluationRuns.lookup runId = some run)
    (h : baselineRun db runId run = some (b, base)) :
    db.evaluationRuns.lookup b = some base ∧ base.status = .succeeded ∧
      base.dataset = run.dataset := by
  have hbase : run.baseline.1.isSome = true := by
    cases hbase : run.baseline.1 with
    | none =>
        unfold baselineRun at h
        rw [hbase] at h
        cases h
    | some model => rfl
  rw [baselineRun_eq hrun hbase] at h
  obtain ⟨hstored, _⟩ := mem_listForModelVersion.mp (List.mem_of_find?_eq_some h)
  have heligible : eligible db run (b, base) = true := List.find?_some h
  simp only [eligible, comparable, Bool.and_eq_true, decide_eq_true_eq] at heligible
  exact ⟨hstored, heligible.1, heligible.2.1⟩

/-- **A completed run is compared with one that has scored the same examples exactly if their
configurations cut the dataset to the same ids.** -/
theorem scored_alike_iff (hplain : PlainTexts env) (h : Reaches s es c)
    (htoy : Runs.Always Config.step (Config.AtStep (RunsToyEvaluator env py))
      ({ shared := s } : System env) es)
    (hrun : c.shared.db.evaluationRuns.lookup runId = some run) (hs : run.status = .succeeded)
    (hconfig : c.shared.db.evaluationConfigs.lookup run.evaluationConfigId = some config)
    (hconfigured : config.IsToy) (hdata : c.shared.HasDataset env run dataset)
    (hbaseline : baselineRun c.shared.db runId run = some (b, base))
    (hbaseConfig : c.shared.db.evaluationConfigs.lookup base.evaluationConfigId = some baseConfig)
    (hbaseConfigured : baseConfig.IsToy) (p : ℕ) (supply : Supply) :
    evalAlone env p supply (resolveBaselineMetrics runId run) c.shared =
        (.ok (some (EvaluationMetricsRepo.metricMap env c.shared.db b)), c.shared) ∧
      (ScoredAlike c.shared.db b runId ↔
        SameIds env py dataset (.ofNat? baseConfig.maxExamples) (.ofNat? config.maxExamples)) := by
  constructor
  · rw [resolveBaselineMetrics_alone, baselineMetrics, hbaseline]
    rfl
  obtain ⟨hstored, hcompleted, hsame⟩ := baseline_of_run hrun hbaseline
  have hbaseData : c.shared.HasDataset env base dataset := by
    obtain ⟨a, ha, hfile⟩ := hdata
    exact ⟨a, by rw [hsame, ha], hfile⟩
  obtain ⟨ids, hids, hresults⟩ := completed_ids hplain h htoy hrun hs hconfig hconfigured hdata
  obtain ⟨baseIds, hbaseIds, hbaseResults⟩ :=
    completed_ids hplain h htoy hstored hcompleted hbaseConfig hbaseConfigured hbaseData
  constructor
  · intro halike
    refine ⟨baseIds, ids, hbaseIds, hids, fun id => ?_⟩
    rw [← hbaseResults, ← hresults]
    exact halike id
  · intro hcuts id
    obtain ⟨baseIds', ids', hbaseIds', hids', hequal⟩ := hcuts
    obtain rfl := Option.some.inj (hbaseIds.symm.trans hbaseIds')
    obtain rfl := Option.some.inj (hids.symm.trans hids')
    rw [hbaseResults, hresults]
    exact hequal id

end Alike

/-! ### Two configurations -/

/-- A configuration that takes the first examples only. -/
def firstConfig (n : ℕ) : EvaluationConfig := { splitConfig "all" with maxExamples := some n }

/-- A platform with two model versions, and with a second configuration. -/
def comparisonStart (n : ℕ) : World :=
  { completeStart twoExamples with
    db := { (completeStart twoExamples).db with
      evaluationConfigs := (completeStart twoExamples).db.evaluationConfigs.insert 2 (firstConfig n)
      modelVersions := (completeStart twoExamples).db.modelVersions.insert (2, 1) { artifactId := 1 } } }

theorem comparisonStart_initial (n : ℕ) : (comparisonStart n).Initial where
  total d := World.fresh_initial.total d
  db := rfl
  rest := rfl

/-- The baseline version is evaluated with the second configuration, in `k` statements, and then the
candidate with the first. -/
def comparedJobs (n k : ℕ) : List (SysEvent Env.digesting) :=
  session 0 (.createEvaluation { evaluationPayload with evaluationConfigId := 2 }) 6 { uuid := 1 } ++
    session 1 .schedulerRunOnce 8 {} ++
    session 2 (.processJobMessage 1 7) k
      { now := 1
        lines := toyLines .digesting (.steady 0) ⟨1, 7, 1, 1⟩ (firstConfig n) modelFile twoExamples } ++
    session 3 (.createEvaluation
      { evaluationPayload with model := (2, 1), baseline := (some 1, some 1) }) 7 { uuid := 2 } ++
    session 4 .schedulerRunOnce 8 { now := 2 } ++
    session 5 (.processJobMessage 2 7) 40
      { now := 3
        lines := toyLines .digesting (.steady 0) ⟨2, 7, 1, 2⟩ (splitConfig "all") modelFile
          twoExamples }

/-- Both runs print what the toy evaluator does. -/
theorem comparedJobs_prints (n k : ℕ) : ∀ e ∈ comparedJobs n k, SuppliedWith (fun p i =>
    (if p = 2 then
        toyPass .digesting (.steady 0) ⟨1, 7, 1, 1⟩ (firstConfig n) modelFile twoExamples
      else
        toyPass .digesting (.steady 0) ⟨2, 7, 1, 2⟩ (splitConfig "all") modelFile twoExamples).Prints
      .digesting i) e := by
  unfold comparedJobs
  simp only [List.forall_mem_append]
  exact ⟨⟨⟨⟨⟨suppliedWith_session ⟨rfl, .inl rfl⟩, suppliedWith_session ⟨rfl, .inl rfl⟩⟩,
    suppliedWith_session ⟨rfl, .inr rfl⟩⟩, suppliedWith_session ⟨rfl, .inl rfl⟩⟩,
    suppliedWith_session ⟨rfl, .inl rfl⟩⟩, suppliedWith_session ⟨rfl, .inr rfl⟩⟩

/-- What a comparison is about: the candidate, run 2, is compared with run 1. -/
structure Compared (c : System .digesting) (run base : EvaluationRun) : Prop where
  candidate : c.shared.db.evaluationRuns.lookup 2 = some run
  completed : run.status = .succeeded
  config : run.evaluationConfigId = 1
  dataset : run.dataset = (1, 1)
  baseline : baselineRun c.shared.db 2 run = some (1, base)
  baseConfig : base.evaluationConfigId = 2

theorem comparedJobs_reached (n k : ℕ)
    (h : ∃ c ∈ Runs.runFrom Config.step ({ shared := comparisonStart n } : System .digesting)
        (comparedJobs n k),
      ∃ run ∈ c.shared.db.evaluationRuns.lookup 2, run.status = .succeeded ∧
        run.evaluationConfigId = 1 ∧ run.dataset = (1, 1) ∧
        ∃ r ∈ baselineRun c.shared.db 2 run, r.1 = 1 ∧ r.2.evaluationConfigId = 2) :
    ∃ c run base, Reaches (comparisonStart n) (comparedJobs n k) c ∧ Compared c run base := by
  obtain ⟨c, hc, run, hrun, hs, hconfig, hdataset, r, hr, hid, hbase⟩ :=
    exists_reaches (comparisonStart_initial n) (comparedJobs n k) h
  obtain ⟨b, base⟩ := r
  obtain rfl : b = 1 := hid
  exact ⟨c, run, base, hc, hrun, hs, hconfig, hdataset, hr, hbase⟩

/-- Where both runs score both examples, the baseline has scored the same. -/
theorem both_examples_alike : ∃ c : System .digesting,
    Reaches (comparisonStart 2) (comparedJobs 2 36) c ∧ ScoredAlike c.shared.db 1 2 := by
  obtain ⟨c, run, base, hc, hcompared⟩ := comparedJobs_reached 2 36 (by decide +kernel)
  have htoy := runsToyEvaluator_of_check (comparisonStart 2) _ _ (comparedJobs_prints 2 36)
    (by decide +kernel)
  have hconfigs := evaluationConfigs_of_reaches hc
  have hdata : c.shared.HasDataset .digesting run twoExamples := by
    refine kept_of_reaches (P := fun s => s.HasDataset .digesting run twoExamples)
      (fun _ _ hgrow h => h.grow hgrow) hc List.nil_prefix rfl ?_
    refine ⟨2, ?_, ⟨_, rfl, fun d => Codec.digest_injective.eq_iff⟩⟩
    rw [hcompared.dataset]
    rfl
  have hconfig : c.shared.db.evaluationConfigs.lookup run.evaluationConfigId =
      some (splitConfig "all") := by
    rw [hcompared.config, hconfigs]
    rfl
  have hbaseConfig : c.shared.db.evaluationConfigs.lookup base.evaluationConfigId =
      some (firstConfig 2) := by
    rw [hcompared.baseConfig, hconfigs]
    rfl
  have halike := (scored_alike_iff plainTexts_digesting hc htoy hcompared.candidate
    hcompared.completed hconfig rfl hdata hcompared.baseline hbaseConfig rfl 0 fun _ _ => {}).2
  refine ⟨c, hc, halike.mpr ⟨["e1", "e2"], ["e1", "e2"], ?_, ?_, fun id => Iff.rfl⟩⟩
  · decide +kernel
  · decide +kernel

/-- **A comparison of unlike runs**: the baseline has scored one example, and the candidate two. -/
theorem first_example_unlike : ∃ c : System .digesting,
    Reaches (comparisonStart 1) (comparedJobs 1 34) c ∧
      Runs.Always Config.step (Config.AtStep (RunsToyEvaluator .digesting .standard))
        ({ shared := comparisonStart 1 } : System .digesting) (comparedJobs 1 34) ∧
      (∃ run ∈ c.shared.db.evaluationRuns.lookup 2, run.status = .succeeded ∧
        ∃ metrics, evalAlone .digesting 0 (fun _ _ => {}) (resolveBaselineMetrics 2 run) c.shared =
          (.ok (some metrics), c.shared) ∧
          metrics = EvaluationMetricsRepo.metricMap .digesting c.shared.db 1) ∧
      ¬ ScoredAlike c.shared.db 1 2 := by
  obtain ⟨c, hc, ⟨run, hrun, hs, r, hr, hid⟩, hbase, hcandidate⟩ :=
    exists_reaches (comparisonStart_initial 1) (comparedJobs 1 34)
    (P := fun c : System .digesting => (∃ run ∈ c.shared.db.evaluationRuns.lookup 2,
      run.status = .succeeded ∧ ∃ r ∈ baselineRun c.shared.db 2 run, r.1 = 1) ∧
      "e2" ∉ c.shared.db.resultIds 1 ∧ "e2" ∈ c.shared.db.resultIds 2) (by decide +kernel)
  have htoy := runsToyEvaluator_of_check (comparisonStart 1) _ _ (comparedJobs_prints 1 34)
    (by decide +kernel)
  refine ⟨c, hc, htoy,
    ⟨run, hrun, hs, _, ?_, rfl⟩, fun halike => hbase ((halike "e2").mpr hcandidate)⟩
  rw [resolveBaselineMetrics_alone, baselineMetrics, Option.mem_def.mp hr, Option.map_some, hid]

end PosttrainPlatform
