import PosttrainPlatform.Repository.Jobs

/-!
# The run tables and their fenced writers

`app/repository/training_runs.py`, `evaluation_runs.py`, `checkpoints.py`, `training_metrics.py`,
`training_run_outputs.py`, `attempt_resume_decisions.py`, `evaluation_results.py` and
`evaluation_metrics.py`.  A fenced writer is one statement with the clause
`WHERE EXISTS (the job is RUNNING under this owner and attempt number)`.  `none` is an error:
a bound value of the wrong type is one whatever the clause says, a violated constraint only when the
clause holds.
-/

namespace PosttrainPlatform

open Doubles

/-- The `EXISTS` clause of the fenced writers: the attempt is live. -/
def Db.Owns (db : Db) (j : JobId) (w : WorkerId) (k : ℕ) : Prop :=
  ∃ job ∈ db.jobs.lookup j, job.OwnedBy w k

instance (db : Db) (j : JobId) (w : WorkerId) (k : ℕ) : Decidable (db.Owns j w k) :=
  inferInstanceAs (Decidable (∃ job ∈ db.jobs.lookup j, job.OwnedBy w k))

/-- `INSERT ... SELECT ... WHERE EXISTS`, with the rowcount. -/
def Db.fenced (db : Db) (j : JobId) (w : WorkerId) (k : ℕ) (write : Option (Db × Bool)) :
    Option (Db × Bool) :=
  if db.Owns j w k then write else some (db, false)

theorem Db.fenced_of_not_owns {db : Db} {j : JobId} {w : WorkerId} {k : ℕ}
    (h : ¬ db.Owns j w k) (write : Option (Db × Bool)) :
    db.fenced j w k write = some (db, false) := if_neg h

/-- What a `NOT NULL INTEGER` column stores for a bound operand; `none` is an error. -/
def Operand.notNullInt (v : Operand) : Option ℤ := v.value?.bind int4Column

/-- A nullable integer column takes the operand. -/
def Operand.nullableInt : Operand → Bool
  | .null => true
  | .value q => (int4Column q).isSome

namespace TrainingRunsRepo

/-- `create`. -/
def create (db : Db) (run : RunId) (row : TrainingRun) : Option Db :=
  (db.trainingRuns.insertNew run row).map fun trainingRuns => { db with trainingRuns }

/-- `get_by_job_id`; `one_or_none` raises on a second row. -/
def getByJobId (db : Db) (j : JobId) : Option (Option (RunId × TrainingRun)) :=
  match db.trainingRuns.rows.filter fun r => r.2.jobId = j with
  | [] => some none
  | [r] => some (some r)
  | _ => none

theorem ne_of_getByJobId {db : Db} {j : JobId} (h : getByJobId db j = some none)
    {r : RunId × TrainingRun} (hr : r ∈ db.trainingRuns.rows) : r.2.jobId ≠ j := by
  intro hj
  unfold getByJobId at h
  split at h
  · rename_i hnil
    have hmem : r ∈ db.trainingRuns.rows.filter fun r => r.2.jobId = j :=
      List.mem_filter.mpr ⟨hr, decide_eq_true hj⟩
    rw [hnil] at hmem
    cases hmem
  · cases h
  · cases h

end TrainingRunsRepo

namespace CheckpointsRepo

/-- `register`; an artifact is registered at most once. -/
def register (env : Env) (db : Db) (j : JobId) (w : WorkerId) (run : RunId) (k : ℕ) (step : Json)
    (artifactId : ArtifactId) (baseModel : NullableVersionRef) (checkpointFormatVersion : ℕ)
    (now : Time) : Option (Db × Bool) :=
  match sqlOperand env step with
  | none => none
  | some step =>
      db.fenced j w k <|
        match step.notNullInt with
        | none => none
        | some step =>
            if ∃ r ∈ db.checkpoints.rows, r.2.artifactId = artifactId then none
            else
              (db.checkpoints.insertNew (run, k, step)
                { artifactId, baseModel, checkpointFormatVersion, createdAt := now }).map
                fun checkpoints => ({ db with checkpoints }, true)

end CheckpointsRepo

namespace TrainingRunOutputsRepo

/-- `register`: one row per run, one run per artifact. -/
def register (db : Db) (j : JobId) (w : WorkerId) (run : RunId) (k : ℕ)
    (finalArtifactId : ArtifactId) : Option (Db × Bool) :=
  db.fenced j w k <|
    if ∃ r ∈ db.trainingRunOutputs.rows, r.2.finalArtifactId = finalArtifactId then none
    else
      (db.trainingRunOutputs.insertNew run { finalArtifactId, attemptNumber := k }).map
        fun trainingRunOutputs => ({ db with trainingRunOutputs }, true)

/-- **A second row for the same run is an integrity error.** -/
theorem register_of_taken {db : Db} {j : JobId} {w : WorkerId} {run : RunId} {k : ℕ}
    {row : TrainingRunOutput} (a : ArtifactId) (howns : db.Owns j w k)
    (hrow : db.trainingRunOutputs.lookup run = some row) : register db j w run k a = none := by
  unfold register Db.fenced
  rw [if_pos howns]
  split
  · rfl
  · rw [Table.insertNew, hrow]
    rfl

end TrainingRunOutputsRepo

namespace TrainingMetricsRepo

/-- The values that `record` binds beside the step. -/
structure Reading where
  loss : Json
  learningRate : Json
  gpuMemoryAllocatedMb : Json

/-- `record`. -/
def record (env : Env) (db : Db) (j : JobId) (w : WorkerId) (run : RunId) (k : ℕ) (step : Json)
    (reading : Reading) : Option (Db × Bool) :=
  if env.floatColumn reading.loss && env.floatColumn reading.learningRate then
    match sqlOperand env step, sqlOperand env reading.gpuMemoryAllocatedMb with
    | some step, some gpu =>
        db.fenced j w k <|
          match step.notNullInt with
          | none => none
          | some step =>
              if gpu.nullableInt then
                some ({ db with
                  trainingMetrics := db.trainingMetrics ++
                    [{ trainingRunId := run, attemptNumber := k, step }] }, true)
              else none
    | _, _ => none
  else none

end TrainingMetricsRepo

namespace AttemptResumeDecisionsRepo

/-- `record`. -/
def record (db : Db) (j : JobId) (w : WorkerId) (run : RunId) (k : ℕ)
    (resumedFromStep : Option ℤ) : Option (Db × Bool) :=
  db.fenced j w k <|
    (db.attemptResumeDecisions.insertNew (run, k) resumedFromStep).map
      fun attemptResumeDecisions => ({ db with attemptResumeDecisions }, true)

end AttemptResumeDecisionsRepo

namespace EvaluationRunsRepo

/-- `create`. -/
def create (db : Db) (run : RunId) (row : EvaluationRun) (now : Time) : Option Db :=
  (db.evaluationRuns.insertNew run { row with createdAt := now }).map fun evaluationRuns =>
    { db with evaluationRuns }

/-- `list_for_model_version`: the latest created first. -/
def listForModelVersion (db : Db) (model : NullableVersionRef) : List (RunId × EvaluationRun) :=
  (db.evaluationRuns.rows.filter fun r => (some r.2.model.1, some r.2.model.2) = model).insertionSort
    fun a b => b.2.createdAt ≤ a.2.createdAt

/-- `get_by_job_id`. -/
def getByJobId (db : Db) (j : JobId) : Option (Option (RunId × EvaluationRun)) :=
  match db.evaluationRuns.rows.filter fun r => r.2.jobId = j with
  | [] => some none
  | [r] => some (some r)
  | _ => none

theorem ne_of_getByJobId {db : Db} {j : JobId} (h : getByJobId db j = some none)
    {r : RunId × EvaluationRun} (hr : r ∈ db.evaluationRuns.rows) : r.2.jobId ≠ j := by
  intro hj
  unfold getByJobId at h
  split at h
  · rename_i hnil
    have hmem : r ∈ db.evaluationRuns.rows.filter fun r => r.2.jobId = j :=
      List.mem_filter.mpr ⟨hr, decide_eq_true hj⟩
    rw [hnil] at hmem
    cases hmem
  · cases h
  · cases h

/-- `mark_status`: a status, and a completion time when the run is complete. -/
def markStatus (db : Db) (run : RunId) (j : JobId) (w : WorkerId) (k : ℕ) (status : RunStatus)
    (completedAt : Option Time) : Option (Db × Bool) :=
  db.fenced j w k <|
    match db.evaluationRuns.lookup run with
    | none => some (db, false)
    | some row =>
        some ({ db with
          evaluationRuns := db.evaluationRuns.insert run { row with status, completedAt } }, true)

end EvaluationRunsRepo

namespace EvaluationResultsRepo

/-- `record`, with `ON CONFLICT DO NOTHING`. -/
def record (env : Env) (db : Db) (j : JobId) (w : WorkerId) (run : RunId) (k : ℕ)
    (exampleId : String) (prediction expectedOutput score latencyMs : Json) : Option (Db × Bool) :=
  if env.storesText (.str exampleId) && env.storesText prediction &&
      env.storesText expectedOutput && env.floatColumn score && env.floatColumn latencyMs then
    db.fenced j w k <|
      match db.evaluationResults.insertNew (run, exampleId)
        { score, latencyMs, attemptNumber := k } with
      | none => some (db, false)
      | some evaluationResults => some ({ db with evaluationResults }, true)
  else none

end EvaluationResultsRepo

/-- A dict from metric names to values. -/
abbrev Metrics := List (String × Number)

namespace EvaluationMetricsRepo

/-- `metric_map`, for the split `all`. -/
def metricMap (env : Env) (db : Db) (run : RunId) : Metrics :=
  (db.evaluationMetrics.rows.filter fun r => r.1.1 = run ∧ r.1.2.2 = "all").map fun r =>
    (r.1.2.1, env.float8in r.2.metricValue)

/-- `record`, with `ON CONFLICT DO NOTHING`; every column is `NOT NULL`. -/
def record (env : Env) (db : Db) (j : JobId) (w : WorkerId) (run : RunId) (k : ℕ)
    (metricName metricValue split sampleCount : Json) : Option (Db × Bool) :=
  if env.storesText metricName && env.storesText split && env.floatColumn metricValue then
    match sqlOperand env sampleCount with
    | none => none
    | some count =>
        db.fenced j w k <|
          match env.textColumn metricName, env.textColumn split, count.notNullInt with
          | some name, some split, some sampleCount =>
              if metricValue.isNull then none
              else
                match db.evaluationMetrics.insertNew (run, name, split)
                  { metricValue, sampleCount, attemptNumber := k } with
                | none => some (db, false)
                | some evaluationMetrics => some ({ db with evaluationMetrics }, true)
          | _, _, _ => none
  else none

end EvaluationMetricsRepo

end PosttrainPlatform
