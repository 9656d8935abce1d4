import PosttrainPlatform.Lib.History
import PosttrainPlatform.System

/-!
# What a call knows

The services keep no state of their own: a call knows what its statements have answered.  This file
says which answers stand behind the statements that write runs, artifacts and registries
(`Past.Justifies`), and in which order a worker comes to its steps (`Past.InOrder`).
`Properties/Discipline.lean` checks the programs against both.
-/

namespace PosttrainPlatform

open Programs

/-- What a call has executed so far. -/
abbrev Past := History Op Op.Ret Exn

/-! ### The order of a worker's statements -/

/-- The place of a statement in an attempt; the other statements may come anywhere. -/
def Op.rank : Op → ℕ
  | .claim .. => 1
  | .insertAttempt .. => 2
  | .startHeartbeat .. => 3
  | .findTrainingRun _ => 4
  | .findEvaluationRun _ => 5
  | .recordResumeDecision .. => 6
  | .markRunStatus _ _ _ _ status _ => if status = .running then 6 else 8
  | .spawn .. => 7
  | .finalize .. => 9
  | _ => 0

namespace Past

/-- A statement with a rank comes once, after those of lower rank. -/
def InOrder (h : Past) (op : Op) : Prop := op.rank = 0 ∨ ∀ d ∈ h, d.1.rank < op.rank

/-- **Each step of an attempt is executed at most once.** -/
theorem InOrder.unique {h : Past} (horder : History.Orderly InOrder h) {d e : Done Op Op.Ret Exn}
    (hd : d ∈ h) (he : e ∈ h) (hrank : d.1.rank = e.1.rank) (hpos : d.1.rank ≠ 0) : d = e := by
  induction h with
  | nil => cases hd
  | cons x h ih =>
      -- an entry cannot come after one of the same rank
      have hnewest : ∀ y ∈ h, y.1.rank = x.1.rank → x.1.rank = 0 := fun y hy hxy => by
        obtain hzero | hless := horder.1
        · exact hzero
        · exact absurd hxy (Nat.ne_of_lt (hless y hy))
      obtain hdx | hdh := List.mem_cons.mp hd
      · obtain hex | heh := List.mem_cons.mp he
        · rw [hdx, hex]
        · rw [hdx] at hrank hpos
          exact absurd (hnewest e heh hrank.symm) hpos
      · obtain hex | heh := List.mem_cons.mp he
        · rw [hex] at hrank
          exact absurd (hrank.trans (hnewest d hdh hrank)) hpos
        · exact ih horder.2 hdh heh

/-! ### Artifacts -/

/-- The artifact is the one of the data. -/
def Holds (env : Env) (h : Past) (data : Bytes) (a : ArtifactId) : Prop :=
  (∃ row, h.Answered (.getArtifactByHash (env.sha256 data)) (some (a, row))) ∨
    h.Answered (.createPending (env.sha256 data)) a

/-- The artifact was read as UPLOADED, or has been marked so. -/
def SawUploaded (h : Past) (a : ArtifactId) : Prop :=
  ∃ row : Artifact, row.status = .uploaded ∧
    (h.Answered (.getArtifact a) (some row) ∨
      (∃ u, h.Answered (.markUploaded a u) (some row)) ∨
      ∃ hash, h.Answered (.getArtifactByHash hash) (some (a, row)))

/-- `mark_uploaded` has returned a row that is not UPLOADED, which it never does. -/
def Odd (h : Past) : Prop :=
  ∃ a u row, h.Answered (.markUploaded a u) (some row) ∧ row.status ≠ .uploaded

/-! ### Jobs and attempts -/

/-- The call has created the job. -/
def Creates (h : Past) (origin : Origin) (j : JobId) : Prop :=
  ∃ jobType config priority, h.Answered (.createJob origin jobType config priority) j

/-- The worker has claimed the job and inserted its attempt. -/
structure Attempts (h : Past) (j : JobId) (w : WorkerId) (k : ℕ) : Prop where
  claimed : h.Answered (.claim j w) true
  numbered : ∃ job, h.Answered (.getJob j) (some job) ∧ job.attemptNumber = k
  inserted : h.Answered (.insertAttempt j k) ()

/-- A call has one attempt. -/
theorem Attempts.unique {h : Past} (horder : History.Orderly InOrder h) {j j' : JobId}
    {w w' : WorkerId} {k k' : ℕ} (ha : h.Attempts j w k) (hb : h.Attempts j' w' k') :
    j = j' ∧ w = w' ∧ k = k' := by
  have hclaim := InOrder.unique horder ha.claimed hb.claimed rfl (by simp [Op.rank])
  have hinsert := InOrder.unique horder ha.inserted hb.inserted rfl (by simp [Op.rank])
  simp only [Sigma.mk.injEq, Op.claim.injEq, Op.insertAttempt.injEq] at hclaim hinsert
  exact ⟨hclaim.1.1, hclaim.1.2, hinsert.1.2⟩

/-- The attempt belongs to a training run. -/
structure Trains (h : Past) (t : Ticket) (run : TrainingRun) : Prop where
  attempts : h.Attempts t.jobId t.workerId t.attemptNumber
  found : h.Answered (.findTrainingRun t.jobId) (some (t.runId, run))

/-- The attempt belongs to an evaluation run. -/
structure Evaluates (h : Past) (t : Ticket) (run : EvaluationRun) : Prop where
  attempts : h.Attempts t.jobId t.workerId t.attemptNumber
  found : h.Answered (.findEvaluationRun t.jobId) (some (t.runId, run))

/-- The subprocess has printed the event, and what it printed before has been handled. -/
def Reports (h : Past) (handled : Dict → Prop) (executor : Executor) (context : Dict)
    (files : List (String × Bytes)) (event : Dict) : Prop :=
  ∃ before after,
    h.Answered (.spawn executor context files) (before ++ .json (.obj event) :: after) ∧
      ∀ e, .json (.obj e) ∈ before → handled e

/-- The event has a file, and its content has been read. -/
def Delivers (h : Past) (event : Dict) (data : Bytes) : Prop :=
  ∃ path, event.get? "local_path" = some path ∧ h.Answered (.readFile path) data

/-! ### Training -/

/-- A checkpoint to resume from was found in the table and the store. -/
def Resumes (h : Past) (runId : RunId) (resumed : Option (ℤ × Bytes)) : Prop :=
  ∀ step data, resumed = some (step, data) → ∃ rows key checkpoint artifact,
    h.Answered (.listCheckpoints runId) rows ∧ (key, checkpoint) ∈ rows ∧ key.2.2 = step ∧
      h.Answered (.getArtifact checkpoint.artifactId) (some artifact) ∧
      h.Answered (.download artifact.contentHash) data

/-- What a training subprocess is started with. -/
structure StartsTraining (h : Past) (t : Ticket) (run : TrainingRun) (context : Dict)
    (files : List (String × Bytes)) : Prop where
  trains : h.Trains t run
  prepared : ∃ resources resumed b, h.Resumes t.runId resumed ∧
    h.Answered (.recordResumeDecision t.jobId t.workerId t.runId t.attemptNumber
      (resumed.map Prod.fst)) b ∧
    context = trainingContext t run resources resumed ∧ files = trainingFiles t resumed

/-- The event has been handled: what it reports has been recorded, or recording it was refused. -/
structure HandledTraining (h : Past) (t : Ticket) (event : Dict) : Prop where
  metric : event.get? "event" = some (.str "metric") → ∃ step reading b,
    event.get? "step" = some step ∧
      h.Answered (.recordMetric t.jobId t.workerId t.runId t.attemptNumber step reading) b
  final : event.get? "event" = some (.str "final") → h.Odd ∨ ∃ a b,
    h.Answered (.registerOutput t.jobId t.workerId t.runId t.attemptNumber a) b

/-- The training subprocess has reported the event. -/
def TrainingEvent (h : Past) (t : Ticket) (event : Dict) : Prop :=
  ∃ run context files, h.StartsTraining t run context files ∧
    h.Reports (h.HandledTraining t) .training context files event

/-- The training subprocess has reported an event with a file, and the artifact of the file is
uploaded. -/
def TrainingFile (env : Env) (h : Past) (t : Ticket) (event : Dict) (a : ArtifactId) : Prop :=
  h.TrainingEvent t event ∧ ∃ data, h.Delivers event data ∧ h.Holds env data a ∧ h.SawUploaded a

/-! ### Evaluation -/

/-- The artifact of a version has been fetched. -/
def Fetched (h : Past) (a : ArtifactId) (file : Bytes × Hash) : Prop :=
  ∃ artifact, h.Answered (.getArtifact a) (some artifact) ∧ artifact.status = .uploaded ∧
    h.Answered (.download artifact.contentHash) file.1 ∧ file.2 = artifact.contentHash

/-- What an evaluation subprocess is started with. -/
structure StartsEvaluation (h : Past) (t : Ticket) (run : EvaluationRun) (context : Dict)
    (files : List (String × Bytes)) : Prop where
  evaluates : h.Evaluates t run
  prepared : ∃ config resources inputs version dataset,
    h.Answered (.getEvaluationConfig run.evaluationConfigId) config ∧
    h.Answered (.getModelVersion run.model) (some version) ∧
    h.Answered (.getDatasetVersion run.dataset) (some dataset) ∧
    h.Fetched version.artifactId inputs.model ∧ h.Fetched dataset inputs.dataset ∧
    context = evaluationContext t config resources inputs ∧ files = evaluationFiles t inputs

/-- The event has been handled. -/
structure HandledEvaluation (env : Env) (h : Past) (t : Ticket) (event : Dict) : Prop where
  result : event.get? "event" = some (.str "result") → ∃ exampleId b,
    event.get? "example_id" = some exampleId ∧
      h.Answered (.recordResult t.jobId t.workerId t.runId t.attemptNumber (env.pyStr exampleId)
        (asText env (event.getD "prediction" .null))
        (asText env (event.getD "expected_output" .null)) (event.getD "score" .null)
        (event.getD "latency_ms" .null)) b
  metric : event.get? "event" = some (.str "metric") → ∃ metricName metricValue b,
    event.get? "metric_name" = some metricName ∧ event.get? "metric_value" = some metricValue ∧
      h.Answered (.recordEvaluationMetric t.jobId t.workerId t.runId t.attemptNumber metricName
        metricValue (event.getD "split" (.str "all")) (event.getD "sample_count" (.num 0))) b

/-- The evaluation subprocess has reported the event. -/
def EvaluationEvent (env : Env) (h : Past) (t : Ticket) (event : Dict) : Prop :=
  ∃ run context files, h.StartsEvaluation t run context files ∧
    h.Reports (h.HandledEvaluation env t) .evaluation context files event

/-- The output of the evaluation subprocess has been handled to its end, with a final event. -/
def Evaluated (env : Env) (h : Past) (t : Ticket) : Prop :=
  ∃ run context files lines, h.StartsEvaluation t run context files ∧
    h.Answered (.spawn .evaluation context files) lines ∧
    (∀ e, .json (.obj e) ∈ lines → h.HandledEvaluation env t e) ∧
    ∃ e : Dict, .json (.obj e) ∈ lines ∧ e.get? "event" = some (.str "final")

/-! ### Outcomes -/

/-- The attempt was told that it is no longer live. -/
def FencedOut (h : Past) (t : Ticket) : Prop :=
  (∃ status setCompleted, h.Answered
    (.markRunStatus t.runId t.jobId t.workerId t.attemptNumber status setCompleted) false) ∨
  h.Answered .abandoned true

/-- The status of the run of a ticket has been set. -/
def Marked (h : Past) (t : Ticket) (status : RunStatus) : Prop :=
  ∃ setCompleted, h.Answered
    (.markRunStatus t.runId t.jobId t.workerId t.attemptNumber status setCompleted) true

/-- What a body has done when it comes to an outcome. -/
inductive Concludes (h : Past) (j : JobId) (w : WorkerId) (k : ℕ) (outcome : AttemptOutcome) : Prop
  | training {runId : RunId} {run : TrainingRun}
      (found : h.Answered (.findTrainingRun j) (some (runId, run)))
      (final : outcome = .succeeded → h.Odd ∨ ∃ a b, h.Answered (.registerOutput j w runId k a) b)
  | evaluation {runId : RunId} {run : EvaluationRun}
      (notTraining : h.Answered (.findTrainingRun j) none)
      (found : h.Answered (.findEvaluationRun j) (some (runId, run)))
      (succeeded : outcome = .succeeded → h.Marked ⟨j, w, k, runId⟩ .succeeded)
      (failed : outcome ≠ .succeeded →
        h.Marked ⟨j, w, k, runId⟩ .failed ∨ h.FencedOut ⟨j, w, k, runId⟩)
  | simulated (notTraining : h.Answered (.findTrainingRun j) none)
      (notEvaluation : h.Answered (.findEvaluationRun j) none)

/-! ### The discipline -/

/-- The version that a nullable reference names has been found. -/
def FoundVersion (h : Past) (v : NullableVersionRef) : Prop :=
  ∀ m, v.1 = some m → ∃ n row, v.2 = some n ∧ h.Answered (.getModelVersion (m, n)) (some row)

/-- **What stands behind a statement.** -/
def Justifies (env : Env) (h : Past) : Op → Prop
  | .insertAttempt j k => ∃ w job, h.Answered (.claim j w) true ∧
      h.Answered (.getJob j) (some job) ∧ job.attemptNumber = k
  | .startHeartbeat j w k => h.Attempts j w k
  | .recordResumeDecision j w run k step => ∃ row resumed, h.Trains ⟨j, w, k, run⟩ row ∧
      h.Resumes run resumed ∧ step = resumed.map Prod.fst
  | .spawn executor context files =>
      (executor = .training → ∃ t run, h.StartsTraining t run context files) ∧
        (executor = .evaluation → ∃ t run, h.StartsEvaluation t run context files)
  | .recordMetric j w run k step _ => ∃ event, h.TrainingEvent ⟨j, w, k, run⟩ event ∧
      event.get? "event" = some (.str "metric") ∧ event.get? "step" = some step
  | .registerCheckpoint j w run k step a _ => ∃ event,
      h.TrainingFile env ⟨j, w, k, run⟩ event a ∧
        event.get? "event" = some (.str "checkpoint") ∧ event.get? "step" = some step
  | .registerOutput j w run k a => ∃ event, h.TrainingFile env ⟨j, w, k, run⟩ event a ∧
      event.get? "event" = some (.str "final")
  | .markRunStatus run j w k status _ => (∃ row, h.Evaluates ⟨j, w, k, run⟩ row) ∧
      status ≠ .queued ∧ (status = .succeeded → h.Evaluated env ⟨j, w, k, run⟩)
  | .recordResult j w run k exampleId prediction expectedOutput score latencyMs => ∃ event value,
      h.EvaluationEvent env ⟨j, w, k, run⟩ event ∧ event.get? "event" = some (.str "result") ∧
        event.get? "example_id" = some value ∧ exampleId = env.pyStr value ∧
        prediction = asText env (event.getD "prediction" .null) ∧
        expectedOutput = asText env (event.getD "expected_output" .null) ∧
        score = event.getD "score" .null ∧ latencyMs = event.getD "latency_ms" .null
  | .recordEvaluationMetric j w run k metricName metricValue split sampleCount => ∃ event,
      h.EvaluationEvent env ⟨j, w, k, run⟩ event ∧ event.get? "event" = some (.str "metric") ∧
        event.get? "metric_name" = some metricName ∧
        event.get? "metric_value" = some metricValue ∧ split = event.getD "split" (.str "all") ∧
        sampleCount = event.getD "sample_count" (.num 0)
  | .upload key data => ∃ a u row, h.Holds env data a ∧
      h.Answered (.claimUploadLease a u) (some row) ∧ row.contentHash = key
  | .markUploaded a u => ∃ row data, h.Holds env data a ∧
      h.Answered (.claimUploadLease a u) (some row) ∧
      h.Answered (.objectExistsWithHash row.contentHash (env.sha256 data)) true
  | .reconcileToUploaded a => ∃ rows row, h.Answered .listReconcilable rows ∧ (a, row) ∈ rows ∧
      h.Answered (.objectExistsWithHash row.contentHash row.contentHash) true
  | .createDatasetVersion _ a => h.SawUploaded a
  | .createModelVersion _ row => h.SawUploaded row.artifactId
  | .createTrainingRun row => h.Creates .trainingRun row.jobId ∧ h.FoundVersion row.baseModel
  | .createEvaluationRun row => row.status = .queued ∧ h.Creates .evaluation row.jobId
  | .readFile _ => ∃ executor context files lines, h.Answered (.spawn executor context files) lines
  | .finalize j w k ending => h.Attempts j w k ∧ ∃ outcome, h.Concludes j w k outcome ∧
      (ending = .succeeded → outcome = .succeeded) ∧
      ∀ message classification domain, ending = .failed message classification domain →
        outcome ≠ .succeeded
  | _ => True

/-! ### What is known stays known -/

section Mono

variable {env : Env} {h h' : Past} (hsub : h ⊆ h') {t : Ticket}

include hsub

theorem Holds.mono {data : Bytes} {a : ArtifactId} (hh : h.Holds env data a) :
    h'.Holds env data a := by
  obtain ⟨row, hrow⟩ | ha := hh
  · exact Or.inl ⟨row, hrow.mono hsub⟩
  · exact Or.inr (ha.mono hsub)

theorem SawUploaded.mono {a : ArtifactId} (hh : h.SawUploaded a) : h'.SawUploaded a := by
  obtain ⟨row, hs, hrow | ⟨u, hrow⟩ | ⟨hash, hrow⟩⟩ := hh
  · exact ⟨row, hs, Or.inl (hrow.mono hsub)⟩
  · exact ⟨row, hs, Or.inr (Or.inl ⟨u, hrow.mono hsub⟩)⟩
  · exact ⟨row, hs, Or.inr (Or.inr ⟨hash, hrow.mono hsub⟩)⟩

theorem FoundVersion.mono {v : NullableVersionRef} (hh : h.FoundVersion v) :
    h'.FoundVersion v := by
  intro m hm
  obtain ⟨n, row, hn, hrow⟩ := hh m hm
  exact ⟨n, row, hn, hrow.mono hsub⟩

theorem Odd.mono (hh : h.Odd) : h'.Odd := by
  obtain ⟨a, u, row, hrow, hs⟩ := hh
  exact ⟨a, u, row, hrow.mono hsub, hs⟩

theorem Creates.mono {origin : Origin} {j : JobId} (hh : h.Creates origin j) :
    h'.Creates origin j := by
  obtain ⟨jobType, config, priority, hcreated⟩ := hh
  exact ⟨jobType, config, priority, hcreated.mono hsub⟩

theorem Attempts.mono {j : JobId} {w : WorkerId} {k : ℕ} (hh : h.Attempts j w k) :
    h'.Attempts j w k := by
  obtain ⟨job, hjob, hk⟩ := hh.numbered
  exact ⟨hh.claimed.mono hsub, ⟨job, hjob.mono hsub, hk⟩, hh.inserted.mono hsub⟩

theorem Trains.mono {run : TrainingRun} (hh : h.Trains t run) : h'.Trains t run :=
  ⟨hh.attempts.mono hsub, hh.found.mono hsub⟩

theorem Evaluates.mono {run : EvaluationRun} (hh : h.Evaluates t run) : h'.Evaluates t run :=
  ⟨hh.attempts.mono hsub, hh.found.mono hsub⟩

theorem Reports.mono {handled handled' : Dict → Prop} (himp : ∀ e, handled e → handled' e)
    {executor : Executor} {context : Dict} {files : List (String × Bytes)} {event : Dict}
    (hh : h.Reports handled executor context files event) :
    h'.Reports handled' executor context files event := by
  obtain ⟨before, after, hspawn, hbefore⟩ := hh
  exact ⟨before, after, hspawn.mono hsub, fun e he => himp e (hbefore e he)⟩

theorem Delivers.mono {event : Dict} {data : Bytes} (hh : h.Delivers event data) :
    h'.Delivers event data := by
  obtain ⟨path, hpath, hread⟩ := hh
  exact ⟨path, hpath, hread.mono hsub⟩

theorem Resumes.mono {runId : RunId} {resumed : Option (ℤ × Bytes)}
    (hh : h.Resumes runId resumed) : h'.Resumes runId resumed := by
  intro step data heq
  obtain ⟨rows, key, checkpoint, artifact, hrows, hmem, hstep, ha, hdata⟩ := hh step data heq
  exact ⟨rows, key, checkpoint, artifact, hrows.mono hsub, hmem, hstep, ha.mono hsub,
    hdata.mono hsub⟩

theorem StartsTraining.mono {run : TrainingRun} {context : Dict} {files : List (String × Bytes)}
    (hh : h.StartsTraining t run context files) : h'.StartsTraining t run context files := by
  obtain ⟨resources, resumed, b, hresumed, hdecision, hcontext, hfiles⟩ := hh.prepared
  exact ⟨hh.trains.mono hsub, resources, resumed, b, hresumed.mono hsub, hdecision.mono hsub,
    hcontext, hfiles⟩

theorem HandledTraining.mono {event : Dict} (hh : h.HandledTraining t event) :
    h'.HandledTraining t event where
  metric hevent := by
    obtain ⟨step, reading, b, hstep, hrecord⟩ := hh.metric hevent
    exact ⟨step, reading, b, hstep, hrecord.mono hsub⟩
  final hevent := by
    obtain hodd | ⟨a, b, hregister⟩ := hh.final hevent
    · exact Or.inl (hodd.mono hsub)
    · exact Or.inr ⟨a, b, hregister.mono hsub⟩

theorem TrainingEvent.mono {event : Dict} (hh : h.TrainingEvent t event) :
    h'.TrainingEvent t event := by
  obtain ⟨run, context, files, hstart, hreports⟩ := hh
  exact ⟨run, context, files, hstart.mono hsub, hreports.mono hsub fun e he => he.mono hsub⟩

theorem TrainingFile.mono {event : Dict} {a : ArtifactId} (hh : h.TrainingFile env t event a) :
    h'.TrainingFile env t event a := by
  obtain ⟨hevent, data, hdata, hholds, huploaded⟩ := hh
  exact ⟨hevent.mono hsub, data, hdata.mono hsub, hholds.mono hsub, huploaded.mono hsub⟩

theorem Fetched.mono {a : ArtifactId} {file : Bytes × Hash} (hh : h.Fetched a file) :
    h'.Fetched a file := by
  obtain ⟨artifact, hartifact, hs, hdata, hhash⟩ := hh
  exact ⟨artifact, hartifact.mono hsub, hs, hdata.mono hsub, hhash⟩

theorem StartsEvaluation.mono {run : EvaluationRun} {context : Dict}
    {files : List (String × Bytes)} (hh : h.StartsEvaluation t run context files) :
    h'.StartsEvaluation t run context files := by
  obtain ⟨config, resources, inputs, version, dataset, hconfig, hversion, hdataset, hmodel, hdata,
    hcontext, hfiles⟩ := hh.prepared
  exact ⟨hh.evaluates.mono hsub, config, resources, inputs, version, dataset, hconfig.mono hsub,
    hversion.mono hsub, hdataset.mono hsub, hmodel.mono hsub, hdata.mono hsub, hcontext, hfiles⟩

theorem HandledEvaluation.mono {event : Dict} (hh : h.HandledEvaluation env t event) :
    h'.HandledEvaluation env t event where
  result hevent := by
    obtain ⟨exampleId, b, hid, hrecord⟩ := hh.result hevent
    exact ⟨exampleId, b, hid, hrecord.mono hsub⟩
  metric hevent := by
    obtain ⟨metricName, metricValue, b, hname, hvalue, hrecord⟩ := hh.metric hevent
    exact ⟨metricName, metricValue, b, hname, hvalue, hrecord.mono hsub⟩

theorem EvaluationEvent.mono {event : Dict} (hh : h.EvaluationEvent env t event) :
    h'.EvaluationEvent env t event := by
  obtain ⟨run, context, files, hstart, hreports⟩ := hh
  exact ⟨run, context, files, hstart.mono hsub, hreports.mono hsub fun e he => he.mono hsub⟩

theorem Evaluated.mono (hh : h.Evaluated env t) : h'.Evaluated env t := by
  obtain ⟨run, context, files, lines, hstart, hspawn, hlines, hfinal⟩ := hh
  exact ⟨run, context, files, lines, hstart.mono hsub, hspawn.mono hsub,
    fun e he => (hlines e he).mono hsub, hfinal⟩

theorem Marked.mono {status : RunStatus} (hh : h.Marked t status) : h'.Marked t status := by
  obtain ⟨setCompleted, hmark⟩ := hh
  exact ⟨setCompleted, hmark.mono hsub⟩

theorem FencedOut.mono (hh : h.FencedOut t) : h'.FencedOut t := by
  obtain ⟨status, setCompleted, hmark⟩ | habandoned := hh
  · exact Or.inl ⟨status, setCompleted, hmark.mono hsub⟩
  · exact Or.inr (habandoned.mono hsub)

theorem Concludes.mono {j : JobId} {w : WorkerId} {k : ℕ} {outcome : AttemptOutcome}
    (hh : h.Concludes j w k outcome) : h'.Concludes j w k outcome := by
  cases hh with
  | training found final =>
      refine .training (found.mono hsub) fun hs => ?_
      obtain hodd | ⟨a, b, hregister⟩ := final hs
      · exact Or.inl (hodd.mono hsub)
      · exact Or.inr ⟨a, b, hregister.mono hsub⟩
  | evaluation notTraining found succeeded failed =>
      refine .evaluation (notTraining.mono hsub) (found.mono hsub)
        (fun hs => (succeeded hs).mono hsub) fun hs => ?_
      exact (failed hs).imp (fun hmark => hmark.mono hsub) fun hfenced => hfenced.mono hsub
  | simulated notTraining notEvaluation =>
      exact .simulated (notTraining.mono hsub) (notEvaluation.mono hsub)

/-- **What stands behind a statement once stands behind it for good.** -/
theorem Justifies.mono {op : Op} (hh : h.Justifies env op) : h'.Justifies env op := by
  cases op
  case insertAttempt j k =>
      obtain ⟨w, job, hclaim, hjob, hk⟩ := hh
      exact ⟨w, job, hclaim.mono hsub, hjob.mono hsub, hk⟩
  case startHeartbeat => exact Attempts.mono hsub hh
  case recordResumeDecision =>
      obtain ⟨row, resumed, htrains, hresumed, hstep⟩ := hh
      exact ⟨row, resumed, htrains.mono hsub, hresumed.mono hsub, hstep⟩
  case spawn =>
      refine ⟨fun he => ?_, fun he => ?_⟩
      · obtain ⟨t, run, hstart⟩ := hh.1 he
        exact ⟨t, run, hstart.mono hsub⟩
      · obtain ⟨t, run, hstart⟩ := hh.2 he
        exact ⟨t, run, hstart.mono hsub⟩
  case recordMetric =>
      obtain ⟨event, hevent, hrest⟩ := hh
      exact ⟨event, hevent.mono hsub, hrest⟩
  case registerCheckpoint | registerOutput =>
      obtain ⟨event, hevent, hrest⟩ := hh
      exact ⟨event, hevent.mono hsub, hrest⟩
  case markRunStatus =>
      obtain ⟨⟨row, hrow⟩, hstatus, hdone⟩ := hh
      exact ⟨⟨row, hrow.mono hsub⟩, hstatus, fun hs => (hdone hs).mono hsub⟩
  case recordResult =>
      obtain ⟨event, value, hevent, hrest⟩ := hh
      exact ⟨event, value, hevent.mono hsub, hrest⟩
  case recordEvaluationMetric =>
      obtain ⟨event, hevent, hrest⟩ := hh
      exact ⟨event, hevent.mono hsub, hrest⟩
  case upload =>
      obtain ⟨a, u, row, hholds, hclaimed, hkey⟩ := hh
      exact ⟨a, u, row, hholds.mono hsub, hclaimed.mono hsub, hkey⟩
  case markUploaded =>
      obtain ⟨row, data, hholds, hclaimed, hexists⟩ := hh
      exact ⟨row, data, hholds.mono hsub, hclaimed.mono hsub, hexists.mono hsub⟩
  case reconcileToUploaded =>
      obtain ⟨rows, row, hrows, hmem, hexists⟩ := hh
      exact ⟨rows, row, hrows.mono hsub, hmem, hexists.mono hsub⟩
  case createTrainingRun => exact ⟨hh.1.mono hsub, hh.2.mono hsub⟩
  case createEvaluationRun => exact ⟨hh.1, hh.2.mono hsub⟩
  case createDatasetVersion => exact SawUploaded.mono hsub hh
  case createModelVersion => exact SawUploaded.mono hsub hh
  case readFile =>
      obtain ⟨executor, context, files, lines, hspawn⟩ := hh
      exact ⟨executor, context, files, lines, hspawn.mono hsub⟩
  case finalize =>
      obtain ⟨hattempts, outcome, hconcludes, hrest⟩ := hh
      exact ⟨hattempts.mono hsub, outcome, hconcludes.mono hsub, hrest⟩
  all_goals exact hh

end Mono

end Past

end PosttrainPlatform
