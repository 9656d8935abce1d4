import PosttrainPlatform.Lib.Programs
import PosttrainPlatform.Repository.Artifacts
import PosttrainPlatform.Repository.Registry
import PosttrainPlatform.Services.RetryPolicy
import PosttrainPlatform.Services.Transactions

/-!
# The atomic statements of the services

`Op` lists what the services do between two points where another process can run: one SQL statement
with its commit, one transaction, one read, one call of the object store or the broker, or one local
action that another thread can observe.  `Op.perform` says what each of them does to the world.
Clock readings, random draws, generated ids, and the output and the files of subprocesses come with the event that lets the statement run.
-/

namespace PosttrainPlatform

open Programs

/-- The exceptions that leave a service function. -/
inductive Exn
  | http (status : ℕ)
  | databaseError
  | multipleResultsFound
  | clientError
  | osError
  | typeError
  | valueError
  | attributeError
  | keyError
  | overflowError
  deriving DecidableEq

/-- A line of output as `_parse_event` reads it: text that is no JSON, a decoded value, or a line at
which the decoder raises something other than `JSONDecodeError`. -/
inductive Line
  | text
  | json (value : Json)
  | broken (e : Exn)

/-- What an event brings along for the statement it lets run. -/
structure Input where
  now : Time := 0
  draw : ℚ := 0
  uuid : ℕ := 0
  /-- The lines a subprocess is going to print. -/
  lines : List Line := []
  /-- The files that the subprocess writes. -/
  files : List (String × Bytes) := []
  /-- The content of a file that is no file of the subprocess. -/
  file : Option Bytes := none
  offset : ℕ := 0

/-- The heartbeat thread of a worker call. -/
structure Heartbeat where
  jobId : JobId
  workerId : WorkerId
  attemptNumber : ℕ
  running : Bool := true
  abandoned : Bool := false

/-- Who creates a job. -/
inductive Origin
  | api
  | trainingRun
  | evaluation
  deriving DecidableEq

/-- The bodies that `process_job_message` can run: `_run_executor`, `run_training_attempt` and
`run_evaluation_attempt`. -/
inductive Executor
  | simulated
  | training
  | evaluation
  deriving DecidableEq

/-- What the journal remembers of the statements executed so far. -/
inductive Obs
  | created (p : ℕ) (origin : Origin) (j : JobId)
  | attemptStarted (executor : Executor) (j : JobId)
  deriving DecidableEq

structure World where
  db : Db
  store : Store := ∅
  topic : List JobId := []
  /-- The offset that the consumer group has committed. -/
  committed : ℕ := 0
  heartbeats : ℕ → Option Heartbeat := fun _ => none
  journal : List Obs := []
  /-- The files that the subprocess of a worker call has written to its `work_dir`. -/
  disk : ℕ → List (String × Bytes) := fun _ => []

inductive Op
  | clock
  | nextRetryAt (attemptNumber : ℕ)
  | getJob (j : JobId)
  | loadJob (j : JobId)
  | createJob (origin : Origin) (jobType : String) (config : Option Dict) (priority : ℤ)
  | transition (j : JobId) (toStatus : String)
  | cancel (j : JobId) (readAttemptNumber : ℕ)
  | setCancelRequested (j : JobId)
  | updateConfig (j : JobId) (config : Dict)
  | softDelete (j : JobId)
  | listSchedulable
  | hasActive (j : JobId) (k : ℕ)
  | getCapacity
  | reserve (j : JobId) (k : ℕ) (request : Resources Json)
  | insertDecision (j : JobId) (decision : DecisionKind) (reason : String)
      (request : Resources Json) (effectivePriority : ℚ)
  | listStaleLeases
  | reclaim (j : JobId) (nextRetryAt : Time)
  | listRetryDue
  | insertEvent (j : JobId)
  | clearRetryDispatched (j : JobId)
  | listUnpublished
  | send (j : JobId)
  | markPublished (row : ℕ)
  | poll
  | commitOffset (offset : ℕ)
  | claim (j : JobId) (w : WorkerId)
  | insertAttempt (j : JobId) (k : ℕ)
  | startHeartbeat (j : JobId) (w : WorkerId) (k : ℕ)
  | stopHeartbeat
  | abandoned
  | findTrainingRun (j : JobId)
  | findEvaluationRun (j : JobId)
  | beginAttempt (executor : Executor) (j : JobId)
  | finalize (j : JobId) (w : WorkerId) (k : ℕ) (ending : Ending)
  | getDatasetVersion (v : VersionRef)
  | getModelVersion (v : VersionRef)
  | getEvaluationConfig (c : ℕ)
  | createTrainingRun (row : TrainingRun)
  | createEvaluationRun (row : EvaluationRun)
  | getArtifact (a : ArtifactId)
  | getArtifactByHash (h : Hash)
  | createPending (h : Hash)
  | claimUploadLease (a : ArtifactId) (uploader : WorkerId)
  | upload (key : Hash) (data : Bytes)
  | objectExistsWithHash (key expected : Hash)
  | download (key : Hash)
  | markUploaded (a : ArtifactId) (uploader : WorkerId)
  | spawn (executor : Executor) (context : Dict) (files : List (String × Bytes))
  | readFile (path : Json)
  | listCheckpoints (run : RunId)
  | recordResumeDecision (j : JobId) (w : WorkerId) (run : RunId) (k : ℕ) (step : Option ℤ)
  | recordMetric (j : JobId) (w : WorkerId) (run : RunId) (k : ℕ) (step : Json)
      (reading : TrainingMetricsRepo.Reading)
  | registerCheckpoint (j : JobId) (w : WorkerId) (run : RunId) (k : ℕ) (step : Json)
      (a : ArtifactId) (baseModel : NullableVersionRef)
  | registerOutput (j : JobId) (w : WorkerId) (run : RunId) (k : ℕ) (a : ArtifactId)
  | markRunStatus (run : RunId) (j : JobId) (w : WorkerId) (k : ℕ) (status : RunStatus)
      (setCompleted : Bool)
  | recordResult (j : JobId) (w : WorkerId) (run : RunId) (k : ℕ) (exampleId : String)
      (prediction expectedOutput score latencyMs : Json)
  | recordEvaluationMetric (j : JobId) (w : WorkerId) (run : RunId) (k : ℕ)
      (metricName metricValue split sampleCount : Json)
  | getEvaluationRun (run : RunId)
  | getQualityGate (gate : ℕ)
  | metricMap (run : RunId)
  | listForModelVersion (model : NullableVersionRef)
  | recordGateResult (run : RunId) (gate : ℕ) (status : GateStatus) (ruleResults : List Json)
  | getGateResult (run : RunId) (gate : ℕ)
  | createDataset (name : String)
  | getDataset (d : ℕ)
  | nextDatasetVersion (d : ℕ)
  | createDatasetVersion (v : VersionRef) (a : ArtifactId)
  | createModel (name : String)
  | getModel (m : ℕ)
  | getModelVersionByArtifact (a : ArtifactId)
  | nextModelVersion (m : ℕ)
  | createModelVersion (v : VersionRef) (row : ModelVersion)
  | renewUploadLease (a : ArtifactId) (uploader : WorkerId)
  | listReconcilable
  | objectSize (key : Hash)
  | reconcileToUploaded (a : ArtifactId)
  | reconcileToFailed (a : ArtifactId)

namespace Op

/-- What a statement answers. -/
@[reducible] def Ret : Op → Type
  | clock => Time
  | nextRetryAt _ => Time
  | getJob _ => Option Job
  | loadJob _ => Option Job
  | createJob .. => JobId
  | transition .. => Bool
  | cancel .. => Bool
  | setCancelRequested _ => Bool
  | updateConfig .. => Unit
  | softDelete _ => Unit
  | listSchedulable => List (JobId × Job)
  | hasActive .. => Bool
  | getCapacity => Capacity
  | reserve .. => Bool
  | insertDecision .. => Unit
  | listStaleLeases => List (JobId × Job)
  | reclaim .. => Bool
  | listRetryDue => List (JobId × Job)
  | insertEvent _ => Unit
  | clearRetryDispatched _ => Unit
  | listUnpublished => List (ℕ × JobId)
  | send _ => Unit
  | markPublished _ => Unit
  | poll => Option (ℕ × JobId)
  | commitOffset _ => Unit
  | claim .. => Bool
  | insertAttempt .. => Unit
  | startHeartbeat .. => Unit
  | stopHeartbeat => Unit
  | abandoned => Bool
  | findTrainingRun _ => Option (RunId × TrainingRun)
  | findEvaluationRun _ => Option (RunId × EvaluationRun)
  | beginAttempt .. => Unit
  | finalize .. => Bool
  | getDatasetVersion _ => Option ArtifactId
  | getModelVersion _ => Option ModelVersion
  | getEvaluationConfig _ => Option EvaluationConfig
  | createTrainingRun _ => RunId
  | createEvaluationRun _ => RunId
  | getArtifact _ => Option Artifact
  | getArtifactByHash _ => Option (ArtifactId × Artifact)
  | createPending _ => ArtifactId
  | claimUploadLease .. => Option Artifact
  | upload .. => Unit
  | objectExistsWithHash .. => Bool
  | download _ => Bytes
  | markUploaded .. => Option Artifact
  | spawn .. => List Line
  | readFile _ => Bytes
  | listCheckpoints _ => List ((RunId × ℕ × ℤ) × Checkpoint)
  | recordResumeDecision .. => Bool
  | recordMetric .. => Bool
  | registerCheckpoint .. => Bool
  | registerOutput .. => Bool
  | markRunStatus .. => Bool
  | recordResult .. => Bool
  | recordEvaluationMetric .. => Bool
  | getEvaluationRun _ => Option EvaluationRun
  | getQualityGate _ => Option Dict
  | metricMap _ => Metrics
  | listForModelVersion _ => List (RunId × EvaluationRun)
  | recordGateResult .. => Bool
  | getGateResult .. => Option QualityGateResult
  | createDataset _ => ℕ
  | getDataset _ => Bool
  | nextDatasetVersion _ => ℕ
  | createDatasetVersion .. => Unit
  | createModel _ => ℕ
  | getModel _ => Bool
  | getModelVersionByArtifact _ => Option (VersionRef × ModelVersion)
  | nextModelVersion _ => ℕ
  | createModelVersion .. => Unit
  | renewUploadLease .. => Option Artifact
  | listReconcilable => List (ArtifactId × Artifact)
  | objectSize _ => ℕ
  | reconcileToUploaded _ => Option Artifact
  | reconcileToFailed _ => Option Artifact

end Op

namespace World

/-- A statement that always goes through. -/
def write {β : Type} (s : World) (r : Db × β) : World × Except Exn β := ({ s with db := r.1 }, .ok r.2)

/-- A statement that the database can reject; it has no effect then. -/
def tryWrite {β : Type} (s : World) : Option (Db × β) → World × Except Exn β
  | some r => s.write r
  | none => (s, .error .databaseError)

/-- A statement that binds JSON for a column; it has no effect if the column does not take it. -/
def storing {β : Type} (s : World) (storable : Bool) (r : World × Except Exn β) :
    World × Except Exn β :=
  if storable then r else (s, .error .databaseError)

def read {β : Type} (s : World) (b : β) : World × Except Exn β := (s, .ok b)

/-- `one_or_none`. -/
def readOne {β : Type} (s : World) : Option β → World × Except Exn β
  | some b => s.read b
  | none => (s, .error .multipleResultsFound)

def log (s : World) (o : Obs) : World := { s with journal := o :: s.journal }

def setHeartbeat (s : World) (p : ℕ) (hb : Option Heartbeat) : World :=
  { s with heartbeats := Function.update s.heartbeats p hb }

/-- The heartbeat thread of `p`, if there is one, stops. -/
def stopHeartbeat (s : World) (p : ℕ) : World :=
  s.setHeartbeat p ((s.heartbeats p).map fun hb => { hb with running := false })

/-- One round of the heartbeat thread of `p`: renew the lease, or mark the attempt as abandoned. -/
def beat (env : Env) (s : World) (p : ℕ) (now : Time) : World :=
  match s.heartbeats p with
  | some { jobId, workerId, attemptNumber, running := true, abandoned := false } =>
      let r := JobsRepo.heartbeat s.db jobId workerId attemptNumber now
        env.settings.leaseDurationSeconds
      { s with db := r.1 }.setHeartbeat p
        (some { jobId, workerId, attemptNumber, abandoned := !r.2 })
  | _ => s

/-- The content of a file that the subprocess of `p` has written. -/
def fileOf (s : World) (p : ℕ) : Json → Option Bytes
  | .str path => (s.disk p).lookup path
  | _ => none

end World

/-- `SUPPORTED_CHECKPOINT_FORMAT_VERSION`. -/
def supportedCheckpointFormatVersion : ℕ := 1

/-- **What a statement does**, executed by thread `p`. -/
def Op.perform (env : Env) (p : ℕ) (i : Input) (s : World) :
    (op : Op) → World × Except Exn op.Ret
  | .clock => s.read i.now
  | .nextRetryAt k => s.read (computeNextRetryAt env.settings k i.now i.draw)
  | .getJob j => s.read (JobsRepo.get s.db j)
  | .loadJob j => s.read (s.db.jobs.lookup j)
  | .createJob origin jobType config priority =>
      s.storing (config.all Json.fieldsStorable) <|
      match JobsRepo.createAndEnqueue s.db i.uuid
        { jobType, status := .pending, config, priority, createdAt := i.now } .queued with
      | some db => ({ s with db }.log (.created p origin i.uuid), .ok i.uuid)
      | none => (s, .error .databaseError)
  | .transition j toStatus => s.write (transitionTx s.db j toStatus)
  | .cancel j readAttemptNumber => s.tryWrite (cancelTx s.db j readAttemptNumber)
  | .setCancelRequested j => s.write (JobsRepo.setCancelRequested s.db j)
  | .updateConfig j config =>
      s.storing (Json.fieldsStorable config)
        (s.write ((JobsRepo.updateConfig s.db j (some config)).1, ()))
  | .softDelete j => s.write ((JobsRepo.softDelete s.db j i.now).1, ())
  | .listSchedulable => s.read (JobsRepo.listSchedulable s.db i.now)
  | .hasActive j k => s.read (ReservationsRepo.hasActive s.db j k)
  | .getCapacity => s.read s.db.capacity
  | .reserve j k request => s.tryWrite (admitTx env s.db j k request i.now)
  | .insertDecision j decision reason request effectivePriority =>
      s.tryWrite ((DecisionsRepo.insert env s.db j decision reason request s.db.capacity
        effectivePriority).map fun db => (db, ()))
  | .listStaleLeases => s.read (JobsRepo.listStaleLeases s.db i.now)
  | .reclaim j t => s.tryWrite (reclaimTx env s.db j t i.now)
  | .listRetryDue => s.read (JobsRepo.listRetryDue s.db i.now)
  | .insertEvent j => s.write (OutboxRepo.insertEvent s.db j i.now, ())
  | .clearRetryDispatched j => s.write (clearRetryTx s.db j, ())
  | .listUnpublished => s.read (OutboxRepo.listUnpublished s.db)
  | .send j => ({ s with topic := s.topic ++ [j] }, .ok ())
  | .markPublished row => s.write (OutboxRepo.markPublished s.db row i.now, ())
  | .poll =>
      s.read (if s.committed ≤ i.offset then s.topic[i.offset]?.map fun j => (i.offset, j) else none)
  | .commitOffset offset => ({ s with committed := max s.committed offset }, .ok ())
  | .claim j w => s.write (JobsRepo.claim s.db j w i.now env.settings.leaseDurationSeconds)
  | .insertAttempt j k =>
      s.tryWrite ((AttemptsRepo.insert s.db j k i.now).map fun db => (db, ()))
  | .startHeartbeat j w k =>
      (s.setHeartbeat p (some { jobId := j, workerId := w, attemptNumber := k }), .ok ())
  | .stopHeartbeat => (s.stopHeartbeat p, .ok ())
  | .abandoned => s.read ((s.heartbeats p).any fun hb => hb.abandoned)
  | .findTrainingRun j => s.readOne (TrainingRunsRepo.getByJobId s.db j)
  | .findEvaluationRun j => s.readOne (EvaluationRunsRepo.getByJobId s.db j)
  | .beginAttempt executor j => (s.log (.attemptStarted executor j), .ok ())
  | .finalize j w k ending => s.tryWrite (finalizeTx env s.db j w k ending i.now)
  | .getDatasetVersion v => s.read (s.db.datasetVersions.lookup v)
  | .getModelVersion v => s.read (s.db.modelVersions.lookup v)
  | .getEvaluationConfig c => s.read (s.db.evaluationConfigs.lookup c)
  | .createTrainingRun row =>
      s.storing (Json.fieldsStorable row.trainingConfig) <| s.tryWrite ((TrainingRunsRepo.create s.db i.uuid row).map fun db => (db, i.uuid))
  | .createEvaluationRun row =>
      s.tryWrite ((EvaluationRunsRepo.create s.db i.uuid row i.now).map fun db => (db, i.uuid))
  | .getArtifact a => s.read (s.db.artifacts.lookup a)
  | .getArtifactByHash h => s.read (ArtifactsRepo.getByHash s.db h)
  | .createPending h =>
      s.tryWrite ((ArtifactsRepo.createPending s.db i.uuid h i.now).map fun db => (db, i.uuid))
  | .claimUploadLease a uploader =>
      s.write (ArtifactsRepo.claimUploadLease s.db a uploader i.now
        env.settings.uploadLeaseDurationSeconds)
  | .upload key data => ({ s with store := s.store.insert key data }, .ok ())
  | .objectExistsWithHash key expected => s.read (s.store.objectExistsWithHash env key expected)
  | .download key =>
      match s.store.lookup key with
      | some data => s.read data
      | none => (s, .error .clientError)
  | .markUploaded a uploader => s.write (ArtifactsRepo.markUploaded s.db a uploader)
  | .spawn .. => ({ s with disk := Function.update s.disk p i.files }, .ok i.lines)
  | .readFile path =>
      match s.fileOf p path <|> i.file with
      | some data => s.read data
      | none => (s, .error .osError)
  | .listCheckpoints run => s.read (s.db.checkpoints.rows.filter fun r => r.1.1 = run)
  | .recordResumeDecision j w run k step =>
      s.tryWrite (AttemptResumeDecisionsRepo.record s.db j w run k step)
  | .recordMetric j w run k step reading =>
      s.tryWrite (TrainingMetricsRepo.record env s.db j w run k step reading)
  | .registerCheckpoint j w run k step a baseModel =>
      s.tryWrite (CheckpointsRepo.register env s.db j w run k step a baseModel
        supportedCheckpointFormatVersion i.now)
  | .registerOutput j w run k a => s.tryWrite (TrainingRunOutputsRepo.register s.db j w run k a)
  | .markRunStatus run j w k status setCompleted =>
      s.tryWrite (EvaluationRunsRepo.markStatus s.db run j w k status
        (if setCompleted then some i.now else none))
  | .recordResult j w run k exampleId prediction expectedOutput score latencyMs =>
      s.tryWrite (EvaluationResultsRepo.record env s.db j w run k exampleId prediction expectedOutput
        score latencyMs)
  | .recordEvaluationMetric j w run k metricName metricValue split sampleCount =>
      s.tryWrite (EvaluationMetricsRepo.record env s.db j w run k metricName metricValue split
        sampleCount)
  | .getEvaluationRun run => s.read (s.db.evaluationRuns.lookup run)
  | .getQualityGate gate => s.read (s.db.qualityGates.lookup gate)
  | .metricMap run => s.read (EvaluationMetricsRepo.metricMap env s.db run)
  | .listForModelVersion model => s.read (EvaluationRunsRepo.listForModelVersion s.db model)
  | .recordGateResult run gate status ruleResults =>
      s.storing (Json.allStorable ruleResults)
        (s.write (QualityGateResultsRepo.record s.db run gate status ruleResults i.now))
  | .getGateResult run gate => s.read (s.db.qualityGateResults.lookup (run, gate))
  | .createDataset name =>
      s.tryWrite ((DatasetsRepo.create s.db i.uuid name).map fun db => (db, i.uuid))
  | .getDataset d => s.read (DatasetsRepo.get s.db d)
  | .nextDatasetVersion d => s.read (DatasetsRepo.nextVersion s.db d)
  | .createDatasetVersion v a =>
      s.tryWrite ((DatasetsRepo.createVersion s.db v a).map fun db => (db, ()))
  | .createModel name =>
      s.tryWrite ((ModelsRepo.create s.db i.uuid name).map fun db => (db, i.uuid))
  | .getModel m => s.read (ModelsRepo.get s.db m)
  | .getModelVersionByArtifact a => s.read (ModelsRepo.getVersionByArtifact s.db a)
  | .nextModelVersion m => s.read (ModelsRepo.nextVersion s.db m)
  | .createModelVersion v row =>
      s.tryWrite ((ModelsRepo.createVersion s.db v row).map fun db => (db, ()))
  | .renewUploadLease a uploader =>
      s.write (ArtifactsRepo.renewUploadLease s.db a uploader i.now
        env.settings.uploadLeaseDurationSeconds)
  | .listReconcilable =>
      s.read (ArtifactsRepo.listReconcilable s.db i.now
        env.settings.artifactPendingGracePeriodSeconds)
  | .objectSize key =>
      match s.store.lookup key with
      | some data => s.read data.length
      | none => (s, .error .clientError)
  | .reconcileToUploaded a => s.write (ArtifactsRepo.reconcileToUploaded s.db a)
  | .reconcileToFailed a => s.write (ArtifactsRepo.reconcileToFailed s.db a)

/-- The programs of the services. -/
abbrev Service := Prog Op Op.Ret Exn

namespace Service

/-- Execute one statement. -/
def exec (op : Op) : Service op.Ret := Prog.perform op

def raise {α : Type} (e : Exn) : Service α := Prog.raise e

/-- The value, or the exception where there is none. -/
def found {α : Type} (e : Exn) : Option α → Service α
  | some a => pure a
  | none => raise e

def check (e : Exn) (b : Bool) : Service Unit := if b then pure () else raise e

/-- What a repository function returns after an `UPDATE` and its commit: the row, read again, if one
was matched. -/
def getIf (matched : Bool) (j : JobId) : Service (Option Job) :=
  if matched then exec (.getJob j) else pure none

end Service

end PosttrainPlatform
