import PosttrainPlatform.Lib.Contract
import PosttrainPlatform.Lib.Sequential
import PosttrainPlatform.Services.Api
import PosttrainPlatform.Services.QualityGates
import PosttrainPlatform.Services.Registry
import PosttrainPlatform.Services.Worker

/-!
# The platform as a machine

Any number of API requests, schedulers, recovery and relay passes and workers run at once, each as a
thread over the shared world.  The only ambient event is a round of a worker's heartbeat thread,
which ends with its worker.
-/

namespace PosttrainPlatform

open Programs

inductive Call
  | createJob (payload : JobCreate)
  | updateJob (j : JobId) (status : Option String) (config : Option Dict)
  | cancelJob (j : JobId)
  | deleteJob (j : JobId)
  | createTrainingRun (payload : TrainingRunCreate)
  | createEvaluation (payload : EvaluationCreate)
  | schedulerRunOnce
  | recoveryRunOnce
  | relayOnce
  | processJobMessage (j : JobId) (w : WorkerId)
  | workerRunOnce (w : WorkerId)
  | uploadArtifact (data : Bytes) (uploader : WorkerId)
  | renewUploadLease (a : ArtifactId) (uploader : WorkerId)
  | reconcileOnce
  | createDataset (name : String)
  | createDatasetVersion (d : ℕ) (data : Bytes) (uploader : WorkerId)
  | createModel (name : String)
  | registerVersion (m : ℕ) (a : ArtifactId) (trainingRunId : Option RunId)
  | evaluateQualityGate (runId : RunId) (gate : ℕ)

inductive Reply
  | ok
  | worker (outcome : WorkerOutcome)
  deriving DecidableEq

/-- The program of a call. -/
def Call.program (env : Env) : Call → Service Reply
  | createJob payload => do
      let _ ← PosttrainPlatform.createJob .api payload
      pure .ok
  | updateJob j status config => do
      PosttrainPlatform.updateJob j status config
      pure .ok
  | cancelJob j => do
      PosttrainPlatform.cancelJob j
      pure .ok
  | deleteJob j => do
      PosttrainPlatform.deleteJob j
      pure .ok
  | createTrainingRun payload => do
      let _ ← PosttrainPlatform.createTrainingRun payload
      pure .ok
  | createEvaluation payload => do
      let _ ← PosttrainPlatform.createEvaluation payload
      pure .ok
  | schedulerRunOnce => do
      let _ ← PosttrainPlatform.schedulerRunOnce env
      pure .ok
  | recoveryRunOnce => do
      let _ ← PosttrainPlatform.recoveryRunOnce
      pure .ok
  | relayOnce => do
      let _ ← PosttrainPlatform.relayOnce
      pure .ok
  | processJobMessage j w => do
      let outcome ← PosttrainPlatform.processJobMessage env j w
      pure (.worker outcome)
  | workerRunOnce w => do
      PosttrainPlatform.workerRunOnce env w
      pure .ok
  | uploadArtifact data uploader => do
      let _ ← PosttrainPlatform.uploadArtifact env data uploader
      pure .ok
  | renewUploadLease a uploader => do
      let _ ← Service.exec (.renewUploadLease a uploader)
      pure .ok
  | reconcileOnce => do
      let _ ← reconcilePendingArtifacts
      pure .ok
  | createDataset name => do
      let _ ← PosttrainPlatform.createDataset name
      pure .ok
  | createDatasetVersion d data uploader => do
      let _ ← PosttrainPlatform.createDatasetVersion env d data uploader
      pure .ok
  | createModel name => do
      let _ ← PosttrainPlatform.createModel name
      pure .ok
  | registerVersion m a trainingRunId => do
      let _ ← PosttrainPlatform.registerVersion m a trainingRunId
      pure .ok
  | evaluateQualityGate runId gate => do
      let _ ← PosttrainPlatform.evaluateQualityGate runId gate
      pure .ok

/-- The platform; an ambient event is a heartbeat round of a thread at a time. -/
abbrev platform (env : Env) : Machine Op Op.Ret Exn Reply where
  State := World
  Call := Call
  Input := Input
  Ambient := ℕ × Time
  program := Call.program env
  perform p _ op i s := op.perform env p i s
  ambient a s := s.beat env a.1 a.2
  halt p s := s.stopHeartbeat p

/-- A configuration and an event of the platform. -/
abbrev System (env : Env) := Config (platform env)

abbrev SysEvent (env : Env) := Event (platform env)

/-- A world in which nothing has happened yet: no jobs, nothing allocated of a capacity that is not
negative, nothing published.  The registries of models, datasets, artifacts, quality gates and
evaluation configurations may be filled. -/
structure World.Initial (s : World) : Prop where
  total : ∀ d, 0 ≤ s.db.capacity.total d
  db : s.db =
    { capacity := { total := s.db.capacity.total, allocated := 0 }
      evaluationConfigs := s.db.evaluationConfigs
      qualityGates := s.db.qualityGates
      models := s.db.models
      modelVersions := s.db.modelVersions
      datasets := s.db.datasets
      datasetVersions := s.db.datasetVersions
      artifacts := s.db.artifacts }
  rest : s = { db := s.db, store := s.store }

/-- The world after the migrations. -/
def World.fresh : World := { db := Db.initial }

theorem World.fresh_initial : World.fresh.Initial where
  total d := by cases d <;> decide
  db := rfl
  rest := rfl

/-- The fresh world with one registered version of a dataset. -/
def World.registry : World where
  db := { Db.initial with datasetVersions := AList.insert (1, 1) 1 ∅ }

theorem World.registry_initial : World.registry.Initial where
  total d := by cases d <;> decide
  db := rfl
  rest := rfl

/-- The fresh world with one version of a model, one of a dataset, one evaluation configuration, and
one quality gate. -/
def World.evaluable (env : Env) (config : EvaluationConfig) (model dataset : Bytes) : World where
  db := { Db.initial with
    evaluationConfigs := AList.insert 1 config ∅
    qualityGates := AList.insert 1 [] ∅
    modelVersions := AList.insert (1, 1) { artifactId := 1 } ∅
    datasetVersions := AList.insert (1, 1) 2 ∅
    artifacts :=
      AList.insert 1 { contentHash := env.sha256 model, status := .uploaded, createdAt := 0 }
        (AList.insert 2 { contentHash := env.sha256 dataset, status := .uploaded, createdAt := 0 } ∅) }
  store := AList.insert (env.sha256 model) model (AList.insert (env.sha256 dataset) dataset ∅)

theorem World.evaluable_initial (env : Env) (config : EvaluationConfig) (model dataset : Bytes) :
    (World.evaluable env config model dataset).Initial where
  total d := World.fresh_initial.total d
  db := rfl
  rest := rfl

/-- The configuration `c` is reached from the world `s`, where no call has begun, by the events
`es`. -/
def Reaches {env : Env} (s : World) (es : List (SysEvent env)) (c : System env) : Prop :=
  s.Initial ∧ Runs.runFrom Config.step { shared := s } es = some c

/-- What executing the events shows is true of a configuration that is reached. -/
theorem exists_reaches {env : Env} {s : World} (hs : s.Initial) (es : List (SysEvent env))
    {P : System env → Prop}
    (h : ∃ c ∈ Runs.runFrom Config.step ({ shared := s } : System env) es, P c) :
    ∃ c, Reaches s es c ∧ P c := by
  obtain ⟨c, hc, hP⟩ := h
  exact ⟨c, ⟨hs, hc⟩, hP⟩

/-- `n` statements of a thread. -/
def proceed {env : Env} (p n : ℕ) (i : Input) : List (SysEvent env) := List.replicate n (.step p i)

/-- A call, and `n` statements of it. -/
def session {env : Env} (p : ℕ) (call : Call) (n : ℕ) (i : Input) : List (SysEvent env) :=
  .start p call :: proceed p n i

/-- A job that does nothing is enough for most runs. -/
def noop : JobCreate := { jobType := "noop" }

/-- A job whose attempts fail and are retried. -/
def flaky : JobCreate := { jobType := "simulate_failure" }

/-- A job whose first attempt fails for good. -/
def broken : JobCreate := { jobType := "simulate_permanent_failure" }

/-- A training run on the registered dataset. -/
def trainingPayload : TrainingRunCreate := { job := noop, dataset := (1, 1) }

/-- An evaluation of the registered model on the registered dataset. -/
def evaluationPayload : EvaluationCreate :=
  { job := noop, model := (1, 1), dataset := (1, 1), evaluationConfigId := 1 }

/-- Job 1 is created and admitted. -/
def admitJob (payload : JobCreate) : List (SysEvent Env.standard) :=
  session 0 (.createJob payload) 1 { uuid := 1 } ++ session 1 .schedulerRunOnce 8 {}

/-- A PATCH request. -/
def Call.IsPatch : Call → Prop
  | .updateJob .. => True
  | _ => False

instance : DecidablePred Call.IsPatch
  | .updateJob .. => isTrue trivial
  | .createJob _ | .cancelJob _ | .deleteJob _ | .createTrainingRun _ | .createEvaluation _
  | .schedulerRunOnce | .recoveryRunOnce | .relayOnce | .processJobMessage .. | .workerRunOnce _
  | .uploadArtifact .. | .renewUploadLease .. | .reconcileOnce | .createDataset _
  | .createDatasetVersion .. | .createModel _ | .registerVersion .. | .evaluateQualityGate .. =>
      isFalse id

/-- The event begins no PATCH request. -/
abbrev NoPatch {env : Env} : System env → SysEvent env → Prop :=
  Config.Begins fun call => ¬ call.IsPatch

/-- The statement that an event executes meets a condition on the database it is executed in. -/
abbrev Meets {env : Env} (φ : Op → Input → Db → Prop) : System env → SysEvent env → Prop :=
  Config.AtStep fun op i s => φ op i s.db

/-- The meaning of the statements for a program that runs alone, as thread `p`. -/
abbrev Op.alone (env : Env) (p : ℕ) : Prog.Meaning Op Op.Ret Exn World Input :=
  fun op i s => op.perform env p i s

/-- The service function, run alone, ends. -/
abbrev EndsAlone {α : Type} (env : Env) (p : ℕ) (prog : Service α) (s : World) (r : Except Exn α)
    (s' : World) : Prop :=
  Prog.Ends (Op.alone env p) (fun _ => True) prog s r s'

theorem exists_endsAlone {α : Type} (env : Env) (p : ℕ) (prog : Service α) (s : World) :
    ∃ r s', EndsAlone env p prog s r s' := by
  have i : Input := {}
  exact ⟨_, _, Prog.ends_eval (i := i) trivial prog s⟩

end PosttrainPlatform
