import PosttrainPlatform.Services.Statements

/-!
# `app/services/jobs.py`, `training_runs.py` and `evaluations.py`

The calls behind the HTTP routes.
-/

namespace PosttrainPlatform

open Service

/-- `JobCreate`, with the bounds that its fields declare. -/
structure JobCreate where
  jobType : String
  config : Option Dict := none
  priority : ℤ := 50
  jobType_length : 1 ≤ jobType.length ∧ jobType.length ≤ 128 := by decide
  priority_range : 0 ≤ priority ∧ priority ≤ 100 := by decide

/-- `TrainingRunCreate`: the payload of the job, and the fields of the run. -/
structure TrainingRunCreate where
  job : JobCreate
  dataset : VersionRef
  trainingConfig : Dict := []
  baseModel : NullableVersionRef := (none, none)

/-- `EvaluationCreate`. -/
structure EvaluationCreate where
  job : JobCreate
  model : VersionRef
  dataset : VersionRef
  evaluationConfigId : ℕ
  baseline : NullableVersionRef := (none, none)

/-- `get_job`. -/
def getJobOr404 (j : JobId) : Service Job := do found (.http 404) (← exec (.getJob j))

/-- `create_job`. -/
def createJob (origin : Origin) (payload : JobCreate) : Service JobId :=
  exec (.createJob origin payload.jobType payload.config payload.priority)

/-- `transition`. -/
def transition (j : JobId) (toStatus : String) : Service Job := do
  let matched ← exec (.transition j toStatus)
  match ← getIf matched j with
  | some job => pure job
  | none => do
      let _ ← getJobOr404 j
      raise (.http 409)

/-- `update_job`. -/
def updateJob (j : JobId) (status : Option String) (config : Option Dict) : Service Unit := do
  let _ ← status.elim (getJobOr404 j) (transition j)
  config.elim (pure ()) fun config => exec (.updateConfig j config)

/-- `cancel_job` for a job that was read as PENDING or QUEUED. -/
def cancelQueued (j : JobId) (current : Job) : Service Unit := do
  let matched ← exec (.cancel j current.attemptNumber)
  check (.http 409) matched

/-- `cancel_job` for a job that was read as RUNNING: a signal to the worker, and the job as it is
then.  Without a match the job has left RUNNING since it was read. -/
def cancelRunning (j : JobId) : Service Unit := do
  let matched ← exec (.setCancelRequested j)
  match ← getIf matched j with
  | some _ => pure ()
  | none => do
      let _ ← getJobOr404 j
      pure ()

/-- `cancel_job`. -/
def cancelJob (j : JobId) : Service Unit := do
  let current ← getJobOr404 j
  match current.status with
  | .pending | .queued => cancelQueued j current
  | .running => cancelRunning j
  | .succeeded | .failed | .cancelled => raise (.http 409)

/-- `delete_job`. -/
def deleteJob (j : JobId) : Service Unit := do
  let _ ← getJobOr404 j
  exec (.softDelete j)

/-- The check of an optional model version: a model without a version number is not found. -/
def checkNullableVersion : NullableVersionRef → Service Unit
  | (none, _) => pure ()
  | (some _, none) => raise (.http 404)
  | (some m, some n) => do
      let _ ← found (.http 404) (← exec (.getModelVersion (m, n)))

/-- The checks of `create_training_run`. -/
def checkTrainingRun (payload : TrainingRunCreate) : Service Unit := do
  let _ ← found (.http 404) (← exec (.getDatasetVersion payload.dataset))
  checkNullableVersion payload.baseModel

/-- `create_training_run`: the job and the run are inserted by separate commits. -/
def createTrainingRun (payload : TrainingRunCreate) : Service RunId := do
  checkTrainingRun payload
  let j ← createJob .trainingRun payload.job
  exec (.createTrainingRun
    { jobId := j, dataset := payload.dataset, baseModel := payload.baseModel,
      trainingConfig := payload.trainingConfig })

/-- The checks of `create_evaluation`. -/
def checkEvaluation (payload : EvaluationCreate) : Service Unit := do
  let _ ← found (.http 404) (← exec (.getEvaluationConfig payload.evaluationConfigId))
  let version ← found (.http 404) (← exec (.getModelVersion payload.model))
  let artifact ← found (.http 409) (← exec (.getArtifact version.artifactId))
  check (.http 409) (artifact.status = .uploaded)
  let _ ← found (.http 404) (← exec (.getDatasetVersion payload.dataset))
  checkNullableVersion payload.baseline

/-- `create_evaluation`: the job and the run are inserted by separate commits. -/
def createEvaluation (payload : EvaluationCreate) : Service RunId := do
  checkEvaluation payload
  let j ← createJob .evaluation payload.job
  exec (.createEvaluationRun
    { jobId := j, model := payload.model, dataset := payload.dataset,
      evaluationConfigId := payload.evaluationConfigId, baseline := payload.baseline })

end PosttrainPlatform
