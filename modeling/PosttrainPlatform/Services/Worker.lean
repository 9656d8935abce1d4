import PosttrainPlatform.Services.Training

/-!
# `app/evaluation/executor.py`, `app/services/worker.py` and `worker/main.py`

The supervisor of an evaluation subprocess, the processing of one message, and the worker's loop
body.  The heartbeat thread that a call starts is `World.beat`.
-/

namespace PosttrainPlatform

open Programs Service

/-! ### The evaluation supervisor -/

/-- `_prepare_artifact`: the bytes of the artifact of a version, and the hash they should have, if
the artifact can be fetched. -/
def prepareArtifact : Option ArtifactId → Service (Option (Bytes × Hash))
  | none => pure none
  | some a => do
      match ← exec (.getArtifact a) with
      | none => pure none
      | some artifact =>
          if artifact.status ≠ .uploaded then pure none
          else do
            let data ← Prog.attempt (exec (.download artifact.contentHash))
            pure (data.toOption.map fun data => (data, artifact.contentHash))

/-- `mark_status` for the run of a ticket. -/
def markRun (t : Ticket) (status : RunStatus) (setCompleted : Bool) : Service Bool :=
  exec (.markRunStatus t.runId t.jobId t.workerId t.attemptNumber status setCompleted)

/-- Mark the run FAILED and fail the attempt. -/
def failRun (t : Ticket) (outcome : AttemptOutcome) : Service AttemptOutcome := do
  let _ ← markRun t .failed false
  pure outcome

/-- `_as_text`. -/
def asText (env : Env) : Json → Json
  | .null => .null
  | .str s => .str s
  | value => .str (env.jsonDumps value)

/-- `_handle_event` of the evaluation supervisor, and what its caller does with the result. -/
def handleEvaluationEvent (env : Env) (t : Ticket) (event : Dict) (progress : Progress) :
    Service Progress := do
  match event.get? "event" with
  | some (.str "gpu_check_failed") =>
      pure { progress with
        lastError :=
          some (.str "cuda_unavailable_or_insufficient", "transient", "INFRASTRUCTURE") }
  | some (.str "artifact_check_failed") =>
      pure { progress with
        lastError := some (.str ("artifact identity check failed: " ++
          env.pyStr (event.getD "artifact" .null)), "permanent", "DATA") }
  | some (.str "evaluation_error") => do
      logMessage env
      pure { progress with
        lastError := some (event.getD "message" (.str "evaluation error"), "permanent",
          "EVALUATION") }
  | some (.str "result") => do
      let exampleId ← field event "example_id"
      let _ ← exec (.recordResult t.jobId t.workerId t.runId t.attemptNumber
        (env.pyStr exampleId) (asText env (event.getD "prediction" .null))
        (asText env (event.getD "expected_output" .null)) (event.getD "score" .null)
        (event.getD "latency_ms" .null))
      pure progress
  | some (.str "metric") => do
      let metricName ← field event "metric_name"
      let metricValue ← field event "metric_value"
      let _ ← exec (.recordEvaluationMetric t.jobId t.workerId t.runId t.attemptNumber metricName
        metricValue (event.getD "split" (.str "all")) (event.getD "sample_count" (.num 0)))
      pure progress
  | some (.str "final") => pure { progress with producedFinal := true }
  | _ => pure progress

/-- The end of `run_evaluation_attempt`: the status of the run follows the outcome. -/
def concludeEvaluation (t : Ticket) (progress : Progress) : Service AttemptOutcome := do
  if progress.producedFinal then do
    if ← markRun t .succeeded true then pure .succeeded else pure fencedOutOutcome
  else failRun t (progress.outcome "subprocess exited without producing a final evaluation")

/-- The model and the dataset of an evaluation, each with the hash that it should have. -/
structure EvaluationInputs where
  model : Bytes × Hash
  dataset : Bytes × Hash

/-- The two downloads of `run_evaluation_attempt`, or the message of a failure. -/
def prepareInputs (run : EvaluationRun) : Service (Except String EvaluationInputs) := do
  let version ← exec (.getModelVersion run.model)
  match ← prepareArtifact (version.map fun version => version.artifactId) with
  | none => pure (.error "model artifact unavailable or not UPLOADED")
  | some model => do
      match ← prepareArtifact (← exec (.getDatasetVersion run.dataset)) with
      | none => pure (.error "dataset artifact unavailable or not UPLOADED")
      | some dataset => pure (.ok { model, dataset })

/-- The `work_dir` of an evaluation attempt. -/
def evaluationDir (t : Ticket) : String :=
  "evaluation-" ++ toString t.jobId ++ "-" ++ toString t.attemptNumber

def modelPath (t : Ticket) : String := pathIn (evaluationDir t) "model.bin"

def datasetPath (t : Ticket) : String := pathIn (evaluationDir t) "dataset.bin"

/-- An optional number as a JSON value. -/
def Json.ofNat? : Option ℕ → Json
  | some n => .num n
  | none => .null

/-- `metric_definitions`, which is empty without a config. -/
def metricDefinitions (config : Option EvaluationConfig) : Dict :=
  config.elim [] fun config => config.metricDefinitions

/-- The context of an evaluation subprocess. -/
def evaluationContext (t : Ticket) (config : Option EvaluationConfig) (resources : Dict)
    (inputs : EvaluationInputs) : Dict :=
  [("evaluation_run_id", .ofId t.runId),
    ("attempt_number", .num t.attemptNumber),
    ("work_dir", .str (evaluationDir t)),
    ("required_gpu", resources.getD "gpu" (.num 0)),
    ("required_memory_mb", resources.getD "memory_mb" (.num 0)),
    ("evaluator_entrypoint",
      (metricDefinitions config).getD "evaluator_entrypoint" (.str "app.evaluation.toy_evaluator")),
    ("task_type", .str (config.elim "text" fun config => config.taskType)),
    ("batch_size", .num (config.elim 1 fun config => config.batchSize)),
    ("max_examples", .ofNat? (config.bind fun config => config.maxExamples)),
    ("max_sequence_length", .ofNat? (config.bind fun config => config.maxSequenceLength)),
    ("random_seed", (config.bind fun config => config.randomSeed).elim .null fun n => .num n),
    ("split", (metricDefinitions config).getD "split" (.str "all")),
    ("model_path", .str (modelPath t)),
    ("model_expected_hash", .ofId inputs.model.2),
    ("dataset_path", .str (datasetPath t)),
    ("dataset_expected_hash", .ofId inputs.dataset.2)]

/-- The files that the supervisor leaves for an evaluation subprocess. -/
def evaluationFiles (t : Ticket) (inputs : EvaluationInputs) : List (String × Bytes) :=
  [(modelPath t, inputs.model.1), (datasetPath t, inputs.dataset.1)]

/-- `run_evaluation_attempt`. -/
def runEvaluationAttempt (env : Env) (t : Ticket) (run : EvaluationRun) :
    Service AttemptOutcome := do
  exec (.beginAttempt .evaluation t.jobId)
  let job ← refresh t.jobId none
  let config ← exec (.getEvaluationConfig run.evaluationConfigId)
  match ← prepareInputs run with
  | .error message => failRun t (.failed (some (.str message)) (some "permanent") (some "DATA"))
  | .ok inputs => do
      let resources ← found .attributeError (resourcesOf job.config)
      if ← markRun t .running false then do
        match ← supervise .evaluation (evaluationContext t config resources inputs)
            (evaluationFiles t inputs) (handleEvaluationEvent env t) with
        | none => pure fencedOutOutcome
        | some progress => concludeEvaluation t progress
      else pure fencedOutOutcome

/-! ### The worker -/

/-- Python's truth value of a decoded JSON value. -/
def Json.truthy : Json → Bool
  | .null => false
  | .bool b => b
  | .num q => q != 0
  | .nan | .infinity _ => true
  | .str s => s != ""
  | .arr xs => !xs.isEmpty
  | .obj kvs => !kvs.isEmpty

/-- `time.sleep(sleep_seconds)`, when there is anything to sleep. -/
def sleep (seconds : Json) : Service Unit :=
  if seconds.truthy then
    match CapacityRepo.pyNumber seconds with
    | none => raise .typeError
    | some q => check .valueError (0 ≤ q)
  else pure ()

/-- The result of `_run_executor` for a job type. -/
def simulatedOutcome (jobType : String) : AttemptOutcome :=
  if jobType = "simulate_failure" ∨ jobType = "simulate_transient_failure" then
    .failed (some (.str "simulated transient failure")) (some "transient") none
  else if jobType = "simulate_permanent_failure" then
    .failed (some (.str "simulated permanent failure")) (some "permanent") none
  else .succeeded

/-- `_run_executor`, with the row that the ORM object `job` carries at its end. -/
def runExecutor (j : JobId) : Service (AttemptOutcome × Option Job) := do
  exec (.beginAttempt .simulated j)
  let job ← refresh j none
  sleep ((job.config.getD []).getD "sleep_seconds" (.num 0))
  pure (simulatedOutcome job.jobType, some job)

/-- The choice of the executor: which kind of run the job belongs to, if any. -/
def runBody (env : Env) (j : JobId) (w : WorkerId) (k : ℕ) :
    Service (AttemptOutcome × Option Job) := do
  match ← exec (.findTrainingRun j) with
  | some (runId, run) =>
      runTrainingAttempt env { jobId := j, workerId := w, attemptNumber := k, runId } run
  | none => do
      match ← exec (.findEvaluationRun j) with
      | some (runId, run) => do
          let outcome ← runEvaluationAttempt env
            { jobId := j, workerId := w, attemptNumber := k, runId } run
          pure (outcome, none)
      | none => runExecutor j

inductive WorkerOutcome
  | claimed
  | notClaimed
  | fencedOut
  deriving DecidableEq

/-- Retry, dead letter or success, for an attempt that was not cancelled. -/
def endingOf (env : Env) (k : ℕ) : AttemptOutcome → Service Ending
  | .succeeded => pure .succeeded
  | .failed message classification domain =>
      if isRetryable (classification.getD "unknown") k env.settings.maxAttempts then do
        let nextRetryAt ← exec (.nextRetryAt k)
        pure (.retry nextRetryAt message (classification.getD "unknown") domain)
      else pure (.failed message (classification.getD "unknown") domain)

def finish (j : JobId) (w : WorkerId) (k : ℕ) (ending : Ending) : Service WorkerOutcome := do
  if ← exec (.finalize j w k ending) then pure .claimed else pure .fencedOut

/-- The cancel flag of the job that `repo.get` returns: the loaded row is not read again. -/
def cancelSeen (row loaded : Option Job) : Bool :=
  row.any fun row => (loaded.getD row).cancelRequested

/-- `process_job_message` after the body: the cancel check and the finalisation. -/
def conclude (env : Env) (j : JobId) (w : WorkerId) (k : ℕ) (outcome : AttemptOutcome)
    (loaded : Option Job) : Service WorkerOutcome := do
  if ← exec .abandoned then pure .fencedOut
  else do
    let row ← exec (.getJob j)
    if cancelSeen row loaded then finish j w k .cancelled
    else do
      let ending ← endingOf env k outcome
      finish j w k ending

/-- `process_job_message` from the attempt row on. -/
def runAttempt (env : Env) (j : JobId) (w : WorkerId) (k : ℕ) : Service WorkerOutcome := do
  exec (.insertAttempt j k)
  exec (.startHeartbeat j w k)
  let (outcome, loaded) ← Prog.ensuring (runBody env j w k) (exec .stopHeartbeat)
  conclude env j w k outcome loaded

/-- `process_job_message`. -/
def processJobMessage (env : Env) (j : JobId) (w : WorkerId) : Service WorkerOutcome := do
  let matched ← exec (.claim j w)
  match ← getIf matched j with
  | none => pure .notClaimed
  | some job => runAttempt env j w job.attemptNumber

/-- The loop body of `worker/main.py`: the offset is committed whatever came of the message. -/
def workerRunOnce (env : Env) (w : WorkerId) : Service Unit := do
  match ← exec .poll with
  | none => pure ()
  | some (offset, j) => do
      let _ ← Prog.attempt (processJobMessage env j w)
      exec (.commitOffset (offset + 1))

end PosttrainPlatform
