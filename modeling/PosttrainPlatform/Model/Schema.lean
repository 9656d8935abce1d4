import PosttrainPlatform.Model.Values

/-!
# The database schema

One structure per table row and one field of `Db` per table, with the primary keys of the
migrations.  Columns that no modelled function reads are left out.  The initial database has no rows
and the capacity row that the migration seeds.
-/

namespace PosttrainPlatform

inductive JobStatus
  | pending
  | queued
  | running
  | succeeded
  | failed
  | cancelled
  deriving DecidableEq

/-- The text of a status in the database and in the API. -/
def JobStatus.value : JobStatus → String
  | .pending => "PENDING"
  | .queued => "QUEUED"
  | .running => "RUNNING"
  | .succeeded => "SUCCEEDED"
  | .failed => "FAILED"
  | .cancelled => "CANCELLED"

def JobStatus.all : List JobStatus := [.pending, .queued, .running, .succeeded, .failed, .cancelled]

/-- The status with a given text, if there is one. -/
def JobStatus.parse (text : String) : Option JobStatus := JobStatus.all.find? fun s => s.value == text

/-- A row of `jobs`. -/
structure Job where
  jobType : String
  status : JobStatus
  config : Option Dict
  cancelRequested : Bool := false
  claimedAt : Option Time := none
  attemptNumber : ℕ := 0
  leaseOwner : Option WorkerId := none
  leaseExpiresAt : Option Time := none
  nextRetryAt : Option Time := none
  priority : ℤ
  deletedAt : Option Time := none
  createdAt : Time

inductive ReservationStatus
  | active
  | released
  deriving DecidableEq

/-- A row of `reservations`, keyed by job and attempt number. -/
structure Reservation where
  amount : Resources ℤ
  status : ReservationStatus

/-- The singleton row of `capacity`. -/
structure Capacity where
  total : Resources ℤ
  allocated : Resources ℤ

inductive AttemptStatus
  | running
  | succeeded
  | failed
  | cancelled
  | lost
  deriving DecidableEq

/-- A row of `attempts`, keyed by job and attempt number. -/
structure Attempt where
  status : AttemptStatus
  startedAt : Time
  finishedAt : Option Time := none
  errorMessage : Option String := none
  errorClassification : Option String := none
  failureDomain : Option String := none

/-- A row of `dlq`, keyed by job. -/
structure DLQEntry where
  movedToDlqAt : Time
  lastAttemptNumber : ℕ
  lastErrorMessage : Option String
  lastErrorClassification : String
  totalAttempts : ℕ

/-- A row of `outbox`; every event type written is `job.queued`. -/
structure Outbox where
  jobId : JobId
  createdAt : Time
  publishedAt : Option Time := none

inductive DecisionKind
  | admitted
  | waiting
  deriving DecidableEq

/-- A row of `scheduling_decisions`. -/
structure SchedulingDecision where
  jobId : JobId
  decision : DecisionKind
  reason : String
  requested : Resources ℤ
  availableSnapshot : Resources ℤ
  effectivePriority : ℚ

/-- A model version or a dataset version: an id and a version number. -/
abbrev VersionRef := ℕ × ℕ

/-- An optional model version as two nullable columns. -/
abbrev NullableVersionRef := Option ℕ × Option ℕ

/-- A row of `training_runs`. -/
structure TrainingRun where
  jobId : JobId
  dataset : VersionRef
  baseModel : NullableVersionRef
  trainingConfig : Dict

inductive RunStatus
  | queued
  | running
  | succeeded
  | failed
  deriving DecidableEq

/-- The text of a status of a run. -/
def RunStatus.value : RunStatus → String
  | .queued => "QUEUED"
  | .running => "RUNNING"
  | .succeeded => "SUCCEEDED"
  | .failed => "FAILED"

/-- A row of `evaluation_runs`. -/
structure EvaluationRun where
  jobId : JobId
  model : VersionRef
  dataset : VersionRef
  evaluationConfigId : ℕ
  baseline : NullableVersionRef
  status : RunStatus := .queued
  createdAt : Time := 0
  completedAt : Option Time := none

inductive ArtifactStatus
  | pending
  | uploaded
  | failed
  deriving DecidableEq

/-- A row of `artifacts`; its storage key is derived from the content hash. -/
structure Artifact where
  contentHash : Hash
  status : ArtifactStatus := .pending
  uploaderId : Option WorkerId := none
  uploadLeaseExpiresAt : Option Time := none
  createdAt : Time

/-- A row of `model_versions`. -/
structure ModelVersion where
  artifactId : ArtifactId
  trainingRunId : Option RunId := none

/-- A row of `checkpoints`, keyed by run, attempt number and step. -/
structure Checkpoint where
  artifactId : ArtifactId
  baseModel : NullableVersionRef
  checkpointFormatVersion : ℕ
  createdAt : Time

/-- A row of `training_metrics`. -/
structure TrainingMetric where
  trainingRunId : RunId
  attemptNumber : ℕ
  step : ℤ

/-- A row of `training_run_outputs`, keyed by run. -/
structure TrainingRunOutput where
  finalArtifactId : ArtifactId
  attemptNumber : ℕ

/-- A row of `evaluation_configs`; there is no update of one. -/
structure EvaluationConfig where
  taskType : String
  metricDefinitions : Dict := []
  batchSize : ℕ := 1
  maxExamples : Option ℕ := none
  maxSequenceLength : Option ℕ := none
  randomSeed : Option ℤ := none

/-- A row of `evaluation_results`, keyed by run and example. -/
structure EvaluationResult where
  score : Json
  latencyMs : Json
  attemptNumber : ℕ

/-- A row of `evaluation_metrics`, keyed by run, metric name and split. -/
structure EvaluationMetric where
  metricValue : Json
  sampleCount : ℤ
  attemptNumber : ℕ

inductive GateStatus
  | pass
  | fail
  | error
  deriving DecidableEq

/-- The text of a status of a gate or a rule. -/
def GateStatus.value : GateStatus → String
  | .pass => "PASS"
  | .fail => "FAIL"
  | .error => "ERROR"

/-- A row of `quality_gate_results`, keyed by run and gate. -/
structure QualityGateResult where
  status : GateStatus
  ruleResults : List Json
  evaluatedAt : Time

/-- The committed state of the database. -/
structure Db where
  jobs : Table JobId Job := ∅
  reservations : Table (JobId × ℕ) Reservation := ∅
  capacity : Capacity
  attempts : Table (JobId × ℕ) Attempt := ∅
  dlq : Table JobId DLQEntry := ∅
  outbox : List Outbox := []
  schedulingDecisions : List SchedulingDecision := []
  trainingRuns : Table RunId TrainingRun := ∅
  evaluationRuns : Table RunId EvaluationRun := ∅
  evaluationConfigs : Table ℕ EvaluationConfig := ∅
  /-- The rules of every gate. -/
  qualityGates : Table ℕ Dict := ∅
  /-- The name of every model. -/
  models : Table ℕ String := ∅
  modelVersions : Table VersionRef ModelVersion := ∅
  /-- The name of every dataset. -/
  datasets : Table ℕ String := ∅
  datasetVersions : Table VersionRef ArtifactId := ∅
  artifacts : Table ArtifactId Artifact := ∅
  checkpoints : Table (RunId × ℕ × ℤ) Checkpoint := ∅
  trainingMetrics : List TrainingMetric := []
  trainingRunOutputs : Table RunId TrainingRunOutput := ∅
  attemptResumeDecisions : Table (RunId × ℕ) (Option ℤ) := ∅
  evaluationResults : Table (RunId × String) EvaluationResult := ∅
  evaluationMetrics : Table (RunId × String × String) EvaluationMetric := ∅
  qualityGateResults : Table (RunId × ℕ) QualityGateResult := ∅

/-- The database after the migrations, with the capacity that they seed. -/
def Db.initial : Db := { capacity := { total := Resources.of 16 65536 4, allocated := 0 } }

end PosttrainPlatform
