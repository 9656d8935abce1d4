import PosttrainPlatform.Services.Control

/-!
# `app/services/artifacts.py`, `app/training/checkpoint_discovery.py` and `app/training/executor.py`

The upload of an artifact, the choice of a resume checkpoint, and the supervisor of a training
subprocess.  The subprocess is opaque: `spawn` hands it a context and yields the lines it is going to
print, and `readFile` the file an event points to.  The progress of the supervisor carries the row of
the ORM object `job` while it is loaded, because the worker later reads its cancel flag.
-/

namespace PosttrainPlatform

open Programs Service

/-! ### Uploads -/

/-- `object_exists_with_hash`: an object that the store fails to hand out counts as missing. -/
def objectExistsWithHash (key expected : Hash) : Service Bool := do
  match ← Prog.attempt (exec (.objectExistsWithHash key expected)) with
  | .ok b => pure b
  | .error .clientError => pure false
  | .error e => raise e

/-- `upload_artifact` from the upload lease on. -/
def uploadTo (data : Bytes) (contentHash : Hash) (a : ArtifactId) (uploader : WorkerId) :
    Service (ArtifactId × Artifact) := do
  let claimed ← found (.http 409) (← exec (.claimUploadLease a uploader))
  exec (.upload claimed.contentHash data)
  let verified ← objectExistsWithHash claimed.contentHash contentHash
  check (.http 502) verified
  let finalized ← found (.http 409) (← exec (.markUploaded a uploader))
  pure (a, finalized)

/-- `upload_artifact`. -/
def uploadArtifact (env : Env) (data : Bytes) (uploader : WorkerId) :
    Service (ArtifactId × Artifact) := do
  match ← exec (.getArtifactByHash (env.sha256 data)) with
  | some (a, existing) =>
      if existing.status = .uploaded then pure (a, existing)
      else uploadTo data (env.sha256 data) a uploader
  | none => do
      let a ← exec (.createPending (env.sha256 data))
      uploadTo data (env.sha256 data) a uploader

/-! ### Checkpoint discovery -/

/-- The order of the candidates: step, attempt number and creation time, all descending. -/
def ResumesBefore (a b : (RunId × ℕ × ℤ) × Checkpoint) : Prop :=
  b.1.2.2 < a.1.2.2 ∨ (a.1.2.2 = b.1.2.2 ∧
    (b.1.2.1 < a.1.2.1 ∨ (a.1.2.1 = b.1.2.1 ∧ b.2.createdAt ≤ a.2.createdAt)))

instance : DecidableRel ResumesBefore := fun _ _ => inferInstanceAs (Decidable (_ ∨ _))

/-- `_is_compatible`. -/
def isCompatible (run : TrainingRun) (candidate : Checkpoint) : Service Bool := do
  match ← exec (.getArtifact candidate.artifactId) with
  | none => pure false
  | some artifact =>
      if artifact.status ≠ .uploaded then pure false
      else do
        let intact ← objectExistsWithHash artifact.contentHash artifact.contentHash
        pure (intact && decide (candidate.baseModel = run.baseModel) &&
          decide (candidate.checkpointFormatVersion = supportedCheckpointFormatVersion))

def firstCompatible (run : TrainingRun) :
    List ((RunId × ℕ × ℤ) × Checkpoint) → Service (Option (ℤ × Checkpoint))
  | [] => pure none
  | candidate :: rest => do
      if ← isCompatible run candidate.2 then pure (some (candidate.1.2.2, candidate.2))
      else firstCompatible run rest

/-- `find_resume_checkpoint`. -/
def findResumeCheckpoint (runId : RunId) (run : TrainingRun) :
    Service (Option (ℤ × Checkpoint)) := do
  let candidates ← exec (.listCheckpoints runId)
  firstCompatible run (candidates.insertionSort ResumesBefore)

/-- `_prepare_resume`: the step that the attempt resumes from, and the bytes of its checkpoint. -/
def prepareResume (runId : RunId) (run : TrainingRun) : Service (Option (ℤ × Bytes)) := do
  match ← findResumeCheckpoint runId run with
  | none => pure none
  | some (step, checkpoint) => do
      let artifact ← found .attributeError (← exec (.getArtifact checkpoint.artifactId))
      let data ← exec (.download artifact.contentHash)
      pure (some (step, data))

/-! ### The supervisor -/

/-- `TrainingOutcome`, `EvaluationOutcome` and the result of `_run_executor`. -/
inductive AttemptOutcome
  | succeeded
  | failed (errorMessage : Option Json) (errorClassification failureDomain : Option String)

/-- The outcome of an attempt that was abandoned while its subprocess ran. -/
def fencedOutOutcome : AttemptOutcome :=
  .failed (some (.str "fenced_out")) (some "transient") (some "INFRASTRUCTURE")

/-- What the supervisor has seen so far. -/
structure Progress where
  producedFinal : Bool := false
  lastError : Option (Json × String × String) := none
  /-- The row that the ORM object `job` carries, if it is not expired. -/
  loaded : Option Job := none

/-- The outcome at the end of the output, given the message for an output without a result. -/
def Progress.outcome (progress : Progress) (nothing : String) : AttemptOutcome :=
  if progress.producedFinal then .succeeded
  else
    match progress.lastError with
    | some (message, classification, domain) =>
        .failed (some message) (some classification) (some domain)
    | none => .failed (some (.str nothing)) (some "unknown") (some "INFRASTRUCTURE")

/-- Who the supervisor works for: the job, the worker and its attempt, and the run. -/
structure Ticket where
  jobId : JobId
  workerId : WorkerId
  attemptNumber : ℕ
  runId : RunId

/-- An identifier as the text that JSON values carry. -/
def Json.ofId (id : ℕ) : Json := .num id

/-- A file in the `work_dir` of an attempt. -/
def pathIn (workDir name : String) : String := workDir ++ "/" ++ name

/-- `event[key]`. -/
def field (event : Dict) (key : String) : Service Json := found .keyError (event.get? key)

/-- `_upload_and_register_checkpoint`. -/
def uploadAndRegisterCheckpoint (env : Env) (t : Ticket) (run : TrainingRun) (event : Dict) :
    Service Unit := do
  let path ← field event "local_path"
  let data ← exec (.readFile path)
  let (a, artifact) ← uploadArtifact env data t.workerId
  if artifact.status ≠ .uploaded then pure ()
  else do
    let step ← field event "step"
    let _ ← exec (.registerCheckpoint t.jobId t.workerId t.runId t.attemptNumber step a
      run.baseModel)

/-- `_upload_and_register_final`. -/
def uploadAndRegisterFinal (env : Env) (t : Ticket) (event : Dict) : Service Unit := do
  let path ← field event "local_path"
  let data ← exec (.readFile path)
  let (a, artifact) ← uploadArtifact env data t.workerId
  if artifact.status ≠ .uploaded then pure ()
  else do
    let _ ← exec (.registerOutput t.jobId t.workerId t.runId t.attemptNumber a)

/-- A `logger.info` whose `extra` has the key `message`: `logging` raises `KeyError` for it. -/
def logMessage (env : Env) : Service Unit := check .keyError (!env.settings.logInfo)

/-- `_handle_event` of the training supervisor, and what its caller does with the result. -/
def handleTrainingEvent (env : Env) (t : Ticket) (run : TrainingRun) (event : Dict)
    (progress : Progress) : Service Progress := do
  match event.get? "event" with
  | some (.str "gpu_check_failed") => do
      let job ← refresh t.jobId progress.loaded
      pure { progress with
        lastError := some (.str "cuda_unavailable_or_insufficient", "transient", "INFRASTRUCTURE")
        loaded := some job }
  | some (.str "training_error") => do
      let job ← refresh t.jobId progress.loaded
      logMessage env
      pure { progress with
        lastError := some (event.getD "message" (.str "training error"), "permanent", "TRAINING")
        loaded := some job }
  | some (.str "metric") => do
      let step ← field event "step"
      let _ ← exec (.recordMetric t.jobId t.workerId t.runId t.attemptNumber step
        { loss := event.getD "loss" .null
          learningRate := event.getD "learning_rate" .null
          gpuMemoryAllocatedMb := event.getD "gpu_memory_allocated_mb" .null })
      pure { progress with loaded := none }
  | some (.str "checkpoint") => do
      uploadAndRegisterCheckpoint env t run event
      pure { progress with loaded := none }
  | some (.str "final") => do
      uploadAndRegisterFinal env t event
      pure { progress with producedFinal := true, loaded := none }
  | _ => pure progress

/-- One line of output: text that is no JSON, and `null`, are skipped; a value that is no object has
no `get`. -/
def handleLine (handle : Dict → Progress → Service Progress) (line : Line)
    (progress : Progress) : Service Progress :=
  match line with
  | .text | .json .null => pure progress
  | .json (.obj event) => handle event progress
  | .json _ => raise .attributeError
  | .broken e => raise e

/-- The loop over the subprocess's output; `none` when the attempt was abandoned meanwhile. -/
def superviseLines (handle : Dict → Progress → Service Progress) :
    List Line → Progress → Service (Option Progress)
  | [], progress => pure (some progress)
  | line :: rest, progress => do
      if ← exec .abandoned then pure none
      else do
        let progress ← handleLine handle line progress
        superviseLines handle rest progress

/-- The subprocess from its start to its end; `none` when the attempt was abandoned meanwhile. -/
def supervise (executor : Executor) (context : Dict) (files : List (String × Bytes))
    (handle : Dict → Progress → Service Progress) : Service (Option Progress) := do
  let lines ← exec (.spawn executor context files)
  match ← superviseLines handle lines {} with
  | none => pure none
  | some progress => do
      if ← exec .abandoned then pure none else pure (some progress)

/-- The `work_dir` of a training attempt. -/
def trainingDir (t : Ticket) : String :=
  "training-" ++ toString t.jobId ++ "-" ++ toString t.attemptNumber

/-- The file that `_prepare_resume` writes. -/
def resumePath (t : Ticket) : String := pathIn (trainingDir t) "resume_checkpoint.json"

/-- What `_prepare_resume` returns to the context. -/
def resumeFrom (t : Ticket) : Option (ℤ × Bytes) → Json
  | none => .null
  | some (step, _) => .obj [("local_path", .str (resumePath t)), ("step", .num step)]

/-- The context of a training subprocess: a key of `training_config` takes the place of the
supervisor's value, except for the entrypoint. -/
def trainingContext (t : Ticket) (run : TrainingRun) (resources : Dict)
    (resumed : Option (ℤ × Bytes)) : Dict :=
  run.trainingConfig.filter (fun kv => kv.1 ≠ "training_entrypoint") ++
    [("training_run_id", .ofId t.runId),
      ("attempt_number", .num t.attemptNumber),
      ("work_dir", .str (trainingDir t)),
      ("required_gpu", resources.getD "gpu" (.num 0)),
      ("required_memory_mb", resources.getD "memory_mb" (.num 0)),
      ("training_entrypoint",
        run.trainingConfig.getD "training_entrypoint" (.str "app.training.toy_trainer")),
      ("resume_from", resumeFrom t resumed)]

/-- The files that the supervisor leaves for a training subprocess. -/
def trainingFiles (t : Ticket) : Option (ℤ × Bytes) → List (String × Bytes)
  | none => []
  | some (_, data) => [(resumePath t, data)]

/-- `run_training_attempt`, with the row that the ORM object `job` carries at its end. -/
def runTrainingAttempt (env : Env) (t : Ticket) (run : TrainingRun) :
    Service (AttemptOutcome × Option Job) := do
  exec (.beginAttempt .training t.jobId)
  let job ← refresh t.jobId none
  let resumed ← prepareResume t.runId run
  let resources ← found .attributeError (resourcesOf job.config)
  let _ ← exec (.recordResumeDecision t.jobId t.workerId t.runId t.attemptNumber
    (resumed.map Prod.fst))
  match ← supervise .training (trainingContext t run resources resumed) (trainingFiles t resumed)
      (handleTrainingEvent env t run) with
  | none => pure (fencedOutOutcome, none)
  | some progress =>
      pure (progress.outcome "subprocess exited without producing a final artifact",
        progress.loaded)

end PosttrainPlatform
