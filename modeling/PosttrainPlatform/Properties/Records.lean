import PosttrainPlatform.Properties.Effects

/-!
# What a statement can do to runs, artifacts and registries

`Records` holds the tables beside those that jobs are scheduled and executed with.  `RecordStep`
lists, for each statement, the change that it can make there; `perform_records` shows that the
statements do nothing else.  The fenced writers are described once, by what they leave behind when
their attempt is live.
-/

namespace PosttrainPlatform

/-- What a `NOT NULL INTEGER` column stores for a bound JSON value; `none` is an error. -/
def intColumn (env : Env) (v : Json) : Option ℤ := (sqlOperand env v).bind Operand.notNullInt

/-- A count is stored unchanged. -/
theorem intColumn_natCast {env : Env} {n : ℕ} {k : ℤ} (h : intColumn env (.num n) = some k) :
    k = n := by
  have hcolumn : int4Column ((n : ℤ) : ℚ) = some k := by
    rw [Int.cast_natCast]
    exact h
  rw [int4Column_eq_some hcolumn, roundHalfAway_intCast]

/-! ### The fenced writers -/

section Writers

variable {env : Env} {db : Db} {j : JobId} {w : WorkerId} {run : RunId} {k : ℕ} {r : Db × Bool}

/-- A fenced writer finds its attempt dead, or its attempt is live and it does what it is for. -/
theorem fenced_cases {write : Option (Db × Bool)} (h : db.fenced j w k write = some r) :
    (¬ db.Owns j w k ∧ r = (db, false)) ∨ (db.Owns j w k ∧ write = some r) := by
  by_cases howns : db.Owns j w k
  · exact Or.inr ⟨howns, by rwa [Db.fenced, if_pos howns] at h⟩
  · rw [Db.fenced_of_not_owns howns] at h
    exact Or.inl ⟨howns, (Option.some.inj h).symm⟩

theorem registerCheckpoint_cases {step : Json} {a : ArtifactId} {base : NullableVersionRef}
    {version : ℕ} {now : Time}
    (h : CheckpointsRepo.register env db j w run k step a base version now = some r) :
    (¬ db.Owns j w k ∧ r = (db, false)) ∨
      ∃ n, db.Owns j w k ∧ intColumn env step = some n ∧ db.checkpoints.lookup (run, k, n) = none ∧
        (∀ key row, db.checkpoints.lookup key = some row → row.artifactId ≠ a) ∧
        r = ({ db with
          checkpoints := db.checkpoints.insert (run, k, n)
            { artifactId := a, baseModel := base, checkpointFormatVersion := version,
              createdAt := now } }, true) := by
  unfold CheckpointsRepo.register at h
  split at h
  · cases h
  rename_i operand hoperand
  obtain h | ⟨howns, h⟩ := fenced_cases h
  · exact Or.inl h
  split at h
  · cases h
  rename_i n hn
  split at h
  · cases h
  rename_i hfree
  obtain ⟨checkpoints, hnew, rfl⟩ := Option.map_eq_some_iff.mp h
  obtain ⟨hnone, rfl⟩ := Table.insertNew_eq_some.mp hnew
  refine Or.inr ⟨n, howns, ?_, hnone, fun key row hrow ha => ?_, rfl⟩
  · rw [intColumn, hoperand]
    exact hn
  · exact hfree ⟨(key, row), Table.mem_rows.mpr hrow, ha⟩

theorem registerOutput_cases {a : ArtifactId}
    (h : TrainingRunOutputsRepo.register db j w run k a = some r) :
    (¬ db.Owns j w k ∧ r = (db, false)) ∨
      (db.Owns j w k ∧ db.trainingRunOutputs.lookup run = none ∧
        r = ({ db with
          trainingRunOutputs := db.trainingRunOutputs.insert run
            { finalArtifactId := a, attemptNumber := k } }, true)) := by
  obtain h | ⟨howns, h⟩ := fenced_cases h
  · exact Or.inl h
  split at h
  · cases h
  obtain ⟨outputs, hnew, rfl⟩ := Option.map_eq_some_iff.mp h
  obtain ⟨hnone, rfl⟩ := Table.insertNew_eq_some.mp hnew
  exact Or.inr ⟨howns, hnone, rfl⟩

theorem recordMetric_cases {step : Json} {reading : TrainingMetricsRepo.Reading}
    (h : TrainingMetricsRepo.record env db j w run k step reading = some r) :
    (¬ db.Owns j w k ∧ r = (db, false)) ∨
      ∃ n, db.Owns j w k ∧ intColumn env step = some n ∧
        r = ({ db with
          trainingMetrics := db.trainingMetrics ++
            [{ trainingRunId := run, attemptNumber := k, step := n }] }, true) := by
  unfold TrainingMetricsRepo.record at h
  split at h
  swap
  · cases h
  split at h
  swap
  · cases h
  rename_i operand gpu hoperand _
  obtain h | ⟨howns, h⟩ := fenced_cases h
  · exact Or.inl h
  split at h
  · cases h
  rename_i n hn
  split at h
  swap
  · cases h
  cases h
  refine Or.inr ⟨n, howns, ?_, rfl⟩
  rw [intColumn, hoperand]
  exact hn

theorem recordResumeDecision_cases {step : Option ℤ}
    (h : AttemptResumeDecisionsRepo.record db j w run k step = some r) :
    (¬ db.Owns j w k ∧ r = (db, false)) ∨
      (db.Owns j w k ∧ db.attemptResumeDecisions.lookup (run, k) = none ∧
        r = ({ db with
          attemptResumeDecisions := db.attemptResumeDecisions.insert (run, k) step }, true)) := by
  obtain h | ⟨howns, h⟩ := fenced_cases h
  · exact Or.inl h
  obtain ⟨decisions, hnew, rfl⟩ := Option.map_eq_some_iff.mp h
  obtain ⟨hnone, rfl⟩ := Table.insertNew_eq_some.mp hnew
  exact Or.inr ⟨howns, hnone, rfl⟩

theorem markStatus_cases {status : RunStatus} {completedAt : Option Time}
    (h : EvaluationRunsRepo.markStatus db run j w k status completedAt = some r) :
    (¬ db.Owns j w k ∧ r = (db, false)) ∨
      (db.Owns j w k ∧ db.evaluationRuns.lookup run = none ∧ r = (db, false)) ∨
      ∃ row, db.Owns j w k ∧ db.evaluationRuns.lookup run = some row ∧
        r = ({ db with
          evaluationRuns := db.evaluationRuns.insert run { row with status, completedAt } },
          true) := by
  obtain h | ⟨howns, h⟩ := fenced_cases h
  · exact Or.inl h
  split at h
  · rename_i hnone
    exact Or.inr (Or.inl ⟨howns, hnone, (Option.some.inj h).symm⟩)
  · rename_i row hrow
    exact Or.inr (Or.inr ⟨row, howns, hrow, (Option.some.inj h).symm⟩)

theorem recordResult_cases {exampleId : String} {prediction expectedOutput score latencyMs : Json}
    (h : EvaluationResultsRepo.record env db j w run k exampleId prediction expectedOutput score
      latencyMs = some r) :
    (¬ db.Owns j w k ∧ r = (db, false)) ∨
      (db.Owns j w k ∧ (db.evaluationResults.lookup (run, exampleId)).isSome ∧ r = (db, false)) ∨
      (db.Owns j w k ∧ db.evaluationResults.lookup (run, exampleId) = none ∧
        r = ({ db with
          evaluationResults := db.evaluationResults.insert (run, exampleId)
            { score, latencyMs, attemptNumber := k } }, true)) := by
  unfold EvaluationResultsRepo.record at h
  split at h
  swap
  · cases h
  obtain h | ⟨howns, h⟩ := fenced_cases h
  · exact Or.inl h
  cases hrow : db.evaluationResults.lookup (run, exampleId) with
  | none =>
      rw [Table.insertNew, hrow] at h
      exact Or.inr (Or.inr ⟨howns, rfl, (Option.some.inj h).symm⟩)
  | some row =>
      rw [Table.insertNew, hrow] at h
      exact Or.inr (Or.inl ⟨howns, rfl, (Option.some.inj h).symm⟩)

theorem recordEvaluationMetric_cases {metricName value split count : Json}
    (h : EvaluationMetricsRepo.record env db j w run k metricName value split count = some r) :
    (¬ db.Owns j w k ∧ r = (db, false)) ∨
      ∃ name part n, db.Owns j w k ∧ env.textColumn metricName = some name ∧
        env.textColumn split = some part ∧ intColumn env count = some n ∧
        (((db.evaluationMetrics.lookup (run, name, part)).isSome ∧ r = (db, false)) ∨
          (db.evaluationMetrics.lookup (run, name, part) = none ∧
            r = ({ db with
              evaluationMetrics := db.evaluationMetrics.insert (run, name, part)
                { metricValue := value, sampleCount := n, attemptNumber := k } }, true))) := by
  unfold EvaluationMetricsRepo.record at h
  split at h
  swap
  · cases h
  split at h
  · cases h
  rename_i operand hoperand
  obtain h | ⟨howns, h⟩ := fenced_cases h
  · exact Or.inl h
  split at h
  swap
  · cases h
  rename_i name part n hname hpart hn
  split at h
  · cases h
  have hcount : intColumn env count = some n := by
    rw [intColumn, hoperand]
    exact hn
  refine Or.inr ⟨name, part, n, howns, hname, hpart, hcount, ?_⟩
  cases hrow : db.evaluationMetrics.lookup (run, name, part) with
  | none =>
      rw [Table.insertNew, hrow] at h
      exact Or.inr ⟨rfl, (Option.some.inj h).symm⟩
  | some row =>
      rw [Table.insertNew, hrow] at h
      exact Or.inl ⟨rfl, (Option.some.inj h).symm⟩

end Writers

/-! ### The other writers -/

theorem createPending_cases {db db' : Db} {a : ArtifactId} {hash : Hash} {now : Time}
    (h : ArtifactsRepo.createPending db a hash now = some db') :
    ArtifactsRepo.getByHash db hash = none ∧ db.artifacts.lookup a = none ∧
      db' = { db with artifacts := db.artifacts.insert a { contentHash := hash, createdAt := now } } := by
  unfold ArtifactsRepo.createPending at h
  split at h
  · cases h
  · rename_i hfree
    obtain ⟨artifacts, hnew, rfl⟩ := Option.map_eq_some_iff.mp h
    obtain ⟨hnone, rfl⟩ := Table.insertNew_eq_some.mp hnew
    exact ⟨hfree, hnone, rfl⟩

/-- What an update of an artifact does. -/
theorem updateWhere_cases (db : Db) (a : ArtifactId) (cond : Artifact → Prop) [DecidablePred cond]
    (set : Artifact → Artifact) :
    (∃ row, db.artifacts.lookup a = some row ∧ cond row ∧
      ArtifactsRepo.updateWhere db a cond set =
        ({ db with artifacts := db.artifacts.insert a (set row) }, some (set row))) ∨
    ((∀ row, db.artifacts.lookup a = some row → ¬ cond row) ∧
      ArtifactsRepo.updateWhere db a cond set = (db, none)) := by
  unfold ArtifactsRepo.updateWhere
  cases hrow : db.artifacts.lookup a with
  | none => exact Or.inr ⟨fun row h => (by cases h), rfl⟩
  | some row =>
      by_cases hc : cond row
      · exact Or.inl ⟨row, rfl, hc, by simp [hc]⟩
      · refine Or.inr ⟨fun row' h => ?_, by simp [hc]⟩
        cases h
        exact hc

/-- **An update of an artifact matches nothing, or rewrites the one row that meets its condition.** -/
theorem updateArtifact_cases {db : Db} {a : ArtifactId} {cond : Artifact → Prop}
    [DecidablePred cond] {set : Artifact → Artifact} {r : Db × Option Artifact}
    (h : ArtifactsRepo.updateWhere db a cond set = r) :
    r = (db, none) ∨ ∃ row, db.artifacts.lookup a = some row ∧ cond row ∧
      r = ({ db with artifacts := db.artifacts.insert a (set row) }, some (set row)) := by
  subst h
  obtain hhit | ⟨_, hmiss⟩ := updateWhere_cases db a cond set
  · exact Or.inr hhit
  · exact Or.inl hmiss

theorem createModelVersion_cases {db db' : Db} {v : VersionRef} {row : ModelVersion}
    (h : ModelsRepo.createVersion db v row = some db') :
    db.modelVersions.lookup v = none ∧
      (∀ v' row', db.modelVersions.lookup v' = some row' → row'.artifactId ≠ row.artifactId) ∧
      (∀ run ∈ row.trainingRunId, ∃ r, db.trainingRuns.lookup run = some r) ∧
      db' = { db with modelVersions := db.modelVersions.insert v row } := by
  unfold ModelsRepo.createVersion at h
  split at h
  · cases h
  · rename_i hartifact
    split at h
    · cases h
    · rename_i hruns
      obtain ⟨table, hnew, rfl⟩ := Option.map_eq_some_iff.mp h
      obtain ⟨hnone, rfl⟩ := Table.insertNew_eq_some.mp hnew
      refine ⟨hnone, fun v' row' hrow' heq => ?_, fun run hrun => ?_, rfl⟩
      · refine List.find?_eq_none.mp hartifact (v', row') (Table.mem_rows.mpr hrow') ?_
        exact beq_iff_eq.mpr heq
      · exact Option.ne_none_iff_exists'.mp fun hnone => hruns ⟨run, hrun, hnone⟩

theorem recordGateResult_cases {db : Db} {run : RunId} {gate : ℕ} {status : GateStatus}
    {ruleResults : List Json} {now : Time} {r : Db × Bool}
    (h : QualityGateResultsRepo.record db run gate status ruleResults now = r) :
    r = (db, false) ∨ ∃ row, db.evaluationRuns.lookup run = some row ∧ row.status = .succeeded ∧
      db.qualityGateResults.lookup (run, gate) = none ∧
      r = ({ db with
        qualityGateResults := db.qualityGateResults.insert (run, gate)
          { status, ruleResults, evaluatedAt := now } }, true) := by
  subst h
  unfold QualityGateResultsRepo.record
  split
  · rename_i hrun
    obtain ⟨row, hrow, hs⟩ := hrun
    cases hres : db.qualityGateResults.lookup (run, gate) with
    | none =>
        rw [Table.insertNew, hres]
        exact Or.inr ⟨row, hrow, hs, rfl, rfl⟩
    | some _ =>
        rw [Table.insertNew, hres]
        exact Or.inl rfl
  · exact Or.inl rfl

/-! ### All statements -/

/-- The tables of runs, artifacts and registries. -/
structure Records where
  trainingRuns : Table RunId TrainingRun
  evaluationRuns : Table RunId EvaluationRun
  evaluationConfigs : Table ℕ EvaluationConfig
  qualityGates : Table ℕ Dict
  modelVersions : Table VersionRef ModelVersion
  datasetVersions : Table VersionRef ArtifactId
  artifacts : Table ArtifactId Artifact
  checkpoints : Table (RunId × ℕ × ℤ) Checkpoint
  trainingMetrics : List TrainingMetric
  trainingRunOutputs : Table RunId TrainingRunOutput
  attemptResumeDecisions : Table (RunId × ℕ) (Option ℤ)
  evaluationResults : Table (RunId × String) EvaluationResult
  evaluationMetrics : Table (RunId × String × String) EvaluationMetric
  qualityGateResults : Table (RunId × ℕ) QualityGateResult

def Db.records (db : Db) : Records where
  trainingRuns := db.trainingRuns
  evaluationRuns := db.evaluationRuns
  evaluationConfigs := db.evaluationConfigs
  qualityGates := db.qualityGates
  modelVersions := db.modelVersions
  datasetVersions := db.datasetVersions
  artifacts := db.artifacts
  checkpoints := db.checkpoints
  trainingMetrics := db.trainingMetrics
  trainingRunOutputs := db.trainingRunOutputs
  attemptResumeDecisions := db.attemptResumeDecisions
  evaluationResults := db.evaluationResults
  evaluationMetrics := db.evaluationMetrics
  qualityGateResults := db.qualityGateResults

/-- The statements that update an artifact: which one, and the status they leave it in. -/
def Op.settles : Op → Option (ArtifactId × ArtifactStatus)
  | .claimUploadLease a _ | .renewUploadLease a _ => some (a, .pending)
  | .markUploaded a _ | .reconcileToUploaded a => some (a, .uploaded)
  | .reconcileToFailed a => some (a, .failed)
  | _ => none

/-- **What a statement can do to the records.** -/
inductive RecordStep (env : Env) (db : Db) (i : Input) : Op → Records → Prop
  | skip (op : Op) : RecordStep env db i op db.records
  | createTrainingRun {row : TrainingRun} {run : RunId} (hfree : db.trainingRuns.lookup run = none) :
      RecordStep env db i (.createTrainingRun row)
        { db.records with trainingRuns := db.trainingRuns.insert run row }
  | createEvaluationRun {row : EvaluationRun} {run : RunId}
      (hfree : db.evaluationRuns.lookup run = none) :
      RecordStep env db i (.createEvaluationRun row)
        { db.records with
          evaluationRuns := db.evaluationRuns.insert run { row with createdAt := i.now } }
  | createPending {h : Hash} {a : ArtifactId} (hfree : db.artifacts.lookup a = none) :
      RecordStep env db i (.createPending h)
        { db.records with
          artifacts := db.artifacts.insert a { contentHash := h, createdAt := i.now } }
  | artifact {op : Op} {a : ArtifactId} {row row' : Artifact}
      (hrow : db.artifacts.lookup a = some row) (hpending : row.status = .pending)
      (hhash : row'.contentHash = row.contentHash)
      (hstatus : op.settles = some (a, row'.status)) :
      RecordStep env db i op { db.records with artifacts := db.artifacts.insert a row' }
  | createDatasetVersion {v : VersionRef} {a : ArtifactId}
      (hfree : db.datasetVersions.lookup v = none) :
      RecordStep env db i (.createDatasetVersion v a)
        { db.records with datasetVersions := db.datasetVersions.insert v a }
  | createModelVersion {v : VersionRef} {row : ModelVersion}
      (hfree : db.modelVersions.lookup v = none)
      (hnew : ∀ v' row', db.modelVersions.lookup v' = some row' → row'.artifactId ≠ row.artifactId)
      (hrun : ∀ run ∈ row.trainingRunId, ∃ r, db.trainingRuns.lookup run = some r) :
      RecordStep env db i (.createModelVersion v row)
        { db.records with modelVersions := db.modelVersions.insert v row }
  | registerCheckpoint {j : JobId} {w : WorkerId} {run : RunId} {k : ℕ} {step : Json}
      {a : ArtifactId} {base : NullableVersionRef} {n : ℤ} {row : Checkpoint}
      (howns : db.Owns j w k) (hstep : intColumn env step = some n)
      (hfree : db.checkpoints.lookup (run, k, n) = none) (ha : row.artifactId = a)
      (hnew : ∀ key row, db.checkpoints.lookup key = some row → row.artifactId ≠ a) :
      RecordStep env db i (.registerCheckpoint j w run k step a base)
        { db.records with checkpoints := db.checkpoints.insert (run, k, n) row }
  | registerOutput {j : JobId} {w : WorkerId} {run : RunId} {k : ℕ} {a : ArtifactId}
      (howns : db.Owns j w k) (hfree : db.trainingRunOutputs.lookup run = none) :
      RecordStep env db i (.registerOutput j w run k a)
        { db.records with
          trainingRunOutputs := db.trainingRunOutputs.insert run
            { finalArtifactId := a, attemptNumber := k } }
  | recordMetric {j : JobId} {w : WorkerId} {run : RunId} {k : ℕ} {step : Json}
      {reading : TrainingMetricsRepo.Reading} {n : ℤ} (howns : db.Owns j w k)
      (hstep : intColumn env step = some n) :
      RecordStep env db i (.recordMetric j w run k step reading)
        { db.records with
          trainingMetrics := db.trainingMetrics ++
            [{ trainingRunId := run, attemptNumber := k, step := n }] }
  | recordResumeDecision {j : JobId} {w : WorkerId} {run : RunId} {k : ℕ} {step : Option ℤ}
      (howns : db.Owns j w k) (hfree : db.attemptResumeDecisions.lookup (run, k) = none) :
      RecordStep env db i (.recordResumeDecision j w run k step)
        { db.records with
          attemptResumeDecisions := db.attemptResumeDecisions.insert (run, k) step }
  | markRunStatus {run : RunId} {j : JobId} {w : WorkerId} {k : ℕ} {status : RunStatus}
      {setCompleted : Bool} {row : EvaluationRun} {completedAt : Option Time}
      (howns : db.Owns j w k) (hrow : db.evaluationRuns.lookup run = some row) :
      RecordStep env db i (.markRunStatus run j w k status setCompleted)
        { db.records with
          evaluationRuns := db.evaluationRuns.insert run { row with status, completedAt } }
  | recordResult {j : JobId} {w : WorkerId} {run : RunId} {k : ℕ} {exampleId : String}
      {prediction expectedOutput score latencyMs : Json} (howns : db.Owns j w k)
      (hfree : db.evaluationResults.lookup (run, exampleId) = none) :
      RecordStep env db i
        (.recordResult j w run k exampleId prediction expectedOutput score latencyMs)
        { db.records with
          evaluationResults := db.evaluationResults.insert (run, exampleId)
            { score, latencyMs, attemptNumber := k } }
  | recordEvaluationMetric {j : JobId} {w : WorkerId} {run : RunId} {k : ℕ}
      {metricName value split count : Json} {name part : String} {n : ℤ} (howns : db.Owns j w k)
      (hname : env.textColumn metricName = some name) (hpart : env.textColumn split = some part)
      (hcount : intColumn env count = some n)
      (hfree : db.evaluationMetrics.lookup (run, name, part) = none) :
      RecordStep env db i (.recordEvaluationMetric j w run k metricName value split count)
        { db.records with
          evaluationMetrics := db.evaluationMetrics.insert (run, name, part)
            { metricValue := value, sampleCount := n, attemptNumber := k } }
  | recordGateResult {run : RunId} {gate : ℕ} {status : GateStatus} {ruleResults : List Json}
      {row : EvaluationRun}
      (hrow : db.evaluationRuns.lookup run = some row) (hs : row.status = .succeeded)
      (hfree : db.qualityGateResults.lookup (run, gate) = none) :
      RecordStep env db i (.recordGateResult run gate status ruleResults)
        { db.records with
          qualityGateResults := db.qualityGateResults.insert (run, gate)
            { status, ruleResults, evaluatedAt := i.now } }

theorem updateJobs_records (db : Db) (j : JobId) (cond : Job → Prop) [DecidablePred cond]
    (set : Job → Job) : (JobsRepo.updateWhere db j cond set).1.records = db.records := by
  rw [JobsRepo.updateWhere_frame]
  rfl

theorem release_records {db db' : Db} {j : JobId} {k : ℕ}
    (h : ReservationsRepo.release db j k = some db') : db'.records = db.records := by
  rw [ReservationsRepo.release_frame h]
  rfl

theorem cancelTx_records {db db' : Db} {j : JobId} {k : ℕ} {b : Bool}
    (h : cancelTx db j k = some (db', b)) : db'.records = db.records := by
  unfold cancelTx at h
  simp only at h
  split at h
  · obtain ⟨db₁, hrel, heq⟩ := Option.map_eq_some_iff.mp h
    cases heq
    rw [release_records hrel]
    exact updateJobs_records _ _ _ _
  · cases h
    rfl

theorem finalizeTx_records {env : Env} {db db' : Db} {j : JobId} {w : WorkerId} {k : ℕ}
    {ending : Ending} {now : Time} {b : Bool}
    (h : finalizeTx env db j w k ending now = some (db', b)) : db'.records = db.records := by
  unfold finalizeTx at h
  simp only at h
  split at h
  · cases h
  rename_i db₁ hfin
  split at h
  swap
  · cases h
    rfl
  split at h
  · cases h
  rename_i db₂ hdead
  obtain ⟨db₃, hrel, heq⟩ := Option.map_eq_some_iff.mp h
  cases heq
  rw [release_records hrel, deadLetter_frame hdead, AttemptsRepo.finalize_frame hfin]
  exact updateJobs_records _ _ _ _

theorem reclaimTx_records {env : Env} {db db' : Db} {j : JobId} {t now : Time} {b : Bool}
    (h : reclaimTx env db j t now = some (db', b)) : db'.records = db.records := by
  unfold reclaimTx at h
  simp only at h
  split at h
  · obtain ⟨db₁, hrel, heq⟩ := Option.map_eq_some_iff.mp h
    cases heq
    rw [release_records hrel]
    exact updateJobs_records _ _ _ _
  · cases h
    rfl

theorem admitTx_records {env : Env} {db db' : Db} {j : JobId} {k : ℕ} {request : Resources Json}
    {now : Time} {b : Bool} (h : admitTx env db j k request now = some (db', b)) :
    db'.records = db.records := by
  unfold admitTx at h
  split at h
  · cases h
  · cases h
    rfl
  · obtain ⟨db₁, hins, heq⟩ := Option.map_eq_some_iff.mp h
    cases heq
    unfold ReservationsRepo.insert at hins
    split at hins
    · cases hins
    · obtain ⟨reservations, _, rfl⟩ := Option.map_eq_some_iff.mp hins
      rfl

theorem RecordStep.of_eq {env : Env} {db : Db} {i : Input} {op : Op} {c : Records}
    (h : c = db.records) : RecordStep env db i op c := h ▸ .skip op

theorem tryWrite_records {env : Env} {i : Input} {op : Op} {β : Type} {s : World}
    {r : Option (Db × β)} (h : ∀ db b, r = some (db, b) → RecordStep env s.db i op db.records) :
    RecordStep env s.db i op (s.tryWrite r).1.db.records :=
  tryWrite_db (R := fun db => RecordStep env s.db i op db.records) (.skip op) h

/-- An update of a pending artifact that keeps its content. -/
theorem updateArtifact_records {env : Env} {db : Db} {i : Input} {op : Op} {a : ArtifactId}
    {cond : Artifact → Prop} [DecidablePred cond] {set : Artifact → Artifact}
    (hcond : ∀ row, cond row → row.status = .pending)
    (hset : ∀ row, cond row → (set row).contentHash = row.contentHash ∧
      op.settles = some (a, (set row).status)) :
    RecordStep env db i op (ArtifactsRepo.updateWhere db a cond set).1.records := by
  generalize hr : ArtifactsRepo.updateWhere db a cond set = r
  obtain rfl | ⟨row, hrow, hc, rfl⟩ := updateArtifact_cases hr
  · exact .skip op
  · exact .artifact hrow (hcond row hc) (hset row hc).1 (hset row hc).2

/-- **Every statement does to the records what `RecordStep` lists for it.** -/
theorem perform_records (env : Env) (p : ℕ) (i : Input) (s : World) (op : Op) :
    RecordStep env s.db i op (op.perform env p i s).1.db.records := by
  cases op
  case createJob origin jobType config priority =>
      obtain h | ⟨_, h⟩ := perform_createJob env p i s origin jobType config priority <;> rw [h]
      · exact .skip _
      · exact .skip _
  case transition =>
      simp only [Op.perform, World.write, transitionTx]
      split
      · exact .of_eq (updateJobs_records _ _ _ _)
      · exact .skip _
  case setCancelRequested | softDelete | clearRetryDispatched | claim =>
      exact .of_eq (updateJobs_records _ _ _ _)
  case updateConfig =>
      exact storing_fst (R := fun m => RecordStep env s.db i _ m.db.records) (.skip _)
        (.of_eq (updateJobs_records _ _ _ _))
  case cancel => exact tryWrite_records fun db b h => .of_eq (cancelTx_records h)
  case reserve => exact tryWrite_records fun db b h => .of_eq (admitTx_records h)
  case reclaim => exact tryWrite_records fun db b h => .of_eq (reclaimTx_records h)
  case finalize => exact tryWrite_records fun db b h => .of_eq (finalizeTx_records h)
  case insertDecision =>
      refine tryWrite_records fun db b h => ?_
      obtain ⟨db₁, hdb, heq⟩ := Option.map_eq_some_iff.mp h
      cases heq
      unfold DecisionsRepo.insert at hdb
      split at hdb
      · cases hdb
      · cases hdb
        exact .skip _
  case insertAttempt =>
      refine tryWrite_records fun db b h => ?_
      obtain ⟨db₁, hdb, heq⟩ := Option.map_eq_some_iff.mp h
      obtain ⟨attempts, _, rfl⟩ := Option.map_eq_some_iff.mp hdb
      cases heq
      exact .skip _
  case createTrainingRun =>
      refine storing_fst (R := fun m => RecordStep env s.db i _ m.db.records) (.skip _) ?_
      refine tryWrite_records fun db b h => ?_
      obtain ⟨db₁, hdb, heq⟩ := Option.map_eq_some_iff.mp h
      obtain ⟨table, hnew, rfl⟩ := Option.map_eq_some_iff.mp hdb
      obtain ⟨hfree, rfl⟩ := Table.insertNew_eq_some.mp hnew
      cases heq
      exact .createTrainingRun hfree
  case createEvaluationRun =>
      refine tryWrite_records fun db b h => ?_
      obtain ⟨db₁, hdb, heq⟩ := Option.map_eq_some_iff.mp h
      obtain ⟨table, hnew, rfl⟩ := Option.map_eq_some_iff.mp hdb
      obtain ⟨hfree, rfl⟩ := Table.insertNew_eq_some.mp hnew
      cases heq
      exact .createEvaluationRun hfree
  case createPending =>
      refine tryWrite_records fun db b h => ?_
      obtain ⟨db₁, hdb, heq⟩ := Option.map_eq_some_iff.mp h
      obtain ⟨_, hfree, rfl⟩ := createPending_cases hdb
      cases heq
      exact .createPending hfree
  case claimUploadLease =>
      exact updateArtifact_records (fun row h => h.1) fun row h => ⟨rfl, by simp [Op.settles, h.1]⟩
  case renewUploadLease =>
      exact updateArtifact_records (fun row h => h.1) fun row h => ⟨rfl, by simp [Op.settles, h.1]⟩
  case markUploaded => exact updateArtifact_records (fun row h => h.1) fun row h => ⟨rfl, rfl⟩
  case reconcileToUploaded => exact updateArtifact_records (fun row h => h) fun row h => ⟨rfl, rfl⟩
  case reconcileToFailed => exact updateArtifact_records (fun row h => h) fun row h => ⟨rfl, rfl⟩
  case createDataset =>
      refine tryWrite_records fun db b h => ?_
      obtain ⟨db₁, hdb, heq⟩ := Option.map_eq_some_iff.mp h
      cases heq
      rw [DatasetsRepo.create_frame hdb]
      exact .skip _
  case createModel =>
      refine tryWrite_records fun db b h => ?_
      obtain ⟨db₁, hdb, heq⟩ := Option.map_eq_some_iff.mp h
      cases heq
      rw [ModelsRepo.create_frame hdb]
      exact .skip _
  case createDatasetVersion =>
      refine tryWrite_records fun db b h => ?_
      obtain ⟨db₁, hdb, heq⟩ := Option.map_eq_some_iff.mp h
      obtain ⟨table, hnew, rfl⟩ := Option.map_eq_some_iff.mp hdb
      obtain ⟨hfree, rfl⟩ := Table.insertNew_eq_some.mp hnew
      cases heq
      exact .createDatasetVersion hfree
  case createModelVersion =>
      refine tryWrite_records fun db b h => ?_
      obtain ⟨db₁, hdb, heq⟩ := Option.map_eq_some_iff.mp h
      obtain ⟨hfree, hnew, hrun, rfl⟩ := createModelVersion_cases hdb
      cases heq
      exact .createModelVersion hfree hnew hrun
  case registerCheckpoint =>
      refine tryWrite_records fun db b h => ?_
      obtain ⟨_, heq⟩ | ⟨n, howns, hstep, hfree, hnew, heq⟩ := registerCheckpoint_cases h
      · cases heq
        exact .skip _
      · cases heq
        exact .registerCheckpoint howns hstep hfree rfl hnew
  case registerOutput =>
      refine tryWrite_records fun db b h => ?_
      obtain ⟨_, heq⟩ | ⟨howns, hfree, heq⟩ := registerOutput_cases h
      · cases heq
        exact .skip _
      · cases heq
        exact .registerOutput howns hfree
  case recordMetric =>
      refine tryWrite_records fun db b h => ?_
      obtain ⟨_, heq⟩ | ⟨n, howns, hstep, heq⟩ := recordMetric_cases h
      · cases heq
        exact .skip _
      · cases heq
        exact .recordMetric howns hstep
  case recordResumeDecision =>
      refine tryWrite_records fun db b h => ?_
      obtain ⟨_, heq⟩ | ⟨howns, hfree, heq⟩ := recordResumeDecision_cases h
      · cases heq
        exact .skip _
      · cases heq
        exact .recordResumeDecision howns hfree
  case markRunStatus =>
      refine tryWrite_records fun db b h => ?_
      obtain ⟨_, heq⟩ | ⟨_, _, heq⟩ | ⟨row, howns, hrow, heq⟩ := markStatus_cases h
      · cases heq
        exact .skip _
      · cases heq
        exact .skip _
      · cases heq
        exact .markRunStatus howns hrow
  case recordResult =>
      refine tryWrite_records fun db b h => ?_
      obtain ⟨_, heq⟩ | ⟨_, _, heq⟩ | ⟨howns, hfree, heq⟩ := recordResult_cases h
      · cases heq
        exact .skip _
      · cases heq
        exact .skip _
      · cases heq
        exact .recordResult howns hfree
  case recordEvaluationMetric =>
      refine tryWrite_records fun db b h => ?_
      obtain ⟨_, heq⟩ | ⟨name, part, n, howns, hname, hpart, hcount, ⟨_, heq⟩ | ⟨hfree, heq⟩⟩ :=
        recordEvaluationMetric_cases h
      · cases heq
        exact .skip _
      · cases heq
        exact .skip _
      · cases heq
        exact .recordEvaluationMetric howns hname hpart hcount hfree
  case recordGateResult run gate status ruleResults =>
      simp only [Op.perform, World.write]
      refine storing_fst (R := fun m => RecordStep env s.db i _ m.db.records) (.skip _) ?_
      generalize hr : QualityGateResultsRepo.record s.db run gate status ruleResults i.now = r
      obtain rfl | ⟨row, hrow, hs, hfree, rfl⟩ := recordGateResult_cases hr
      · exact .skip _
      · exact .recordGateResult hrow hs hfree
  case findTrainingRun | findEvaluationRun | download | readFile | objectSize =>
      simp only [Op.perform, World.readOne]
      split <;> exact .skip _
  all_goals exact .skip _

end PosttrainPlatform
