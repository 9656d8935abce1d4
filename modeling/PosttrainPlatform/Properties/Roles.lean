import PosttrainPlatform.System

/-!
# Which calls execute which statements

Only the scheduler admits, only workers execute attempts and write for them, only the creating calls
insert jobs and runs, only uploads write objects, and only a PATCH writes a status that its caller
chose.  Everything else is plain: any call may do it.
-/

namespace PosttrainPlatform

open Programs Service

inductive Role
  | plain
  | create
  | reserve
  | upload
  | registry
  | record
  | register
  | prepare
  | execute
  | patch
  deriving DecidableEq

def Op.role : Op → Role
  | .createJob .. | .createTrainingRun _ | .createEvaluationRun _ => .create
  | .reserve .. => .reserve
  | .upload .. | .markUploaded .. => .upload
  | .reconcileToUploaded _ | .reconcileToFailed _ | .createDatasetVersion ..
  | .createModelVersion .. => .registry
  | .readFile _ | .recordMetric .. | .registerCheckpoint .. | .recordResult ..
  | .recordEvaluationMetric .. => .record
  | .startHeartbeat .. | .findTrainingRun _ | .findEvaluationRun _ | .recordResumeDecision ..
  | .markRunStatus .. | .spawn .. => .prepare
  | .registerOutput .. => .register
  | .beginAttempt .. | .finalize .. => .execute
  | .transition .. => .patch
  | _ => .plain

/-- The one role of a call's statements beside the plain ones. -/
def Call.role : Call → Role
  | .createJob _ | .createTrainingRun _ | .createEvaluation _ => .create
  | .schedulerRunOnce => .reserve
  | .processJobMessage .. | .workerRunOnce _ => .execute
  | .updateJob .. => .patch
  | .uploadArtifact .. => .upload
  | .reconcileOnce | .createDatasetVersion .. | .registerVersion .. => .registry
  | _ => .plain

/-- The roles of the statements that belong to a role: whoever executes attempts prepares them,
records what they report and registers outputs, which takes uploads. -/
def Role.covers : Role → List Role
  | .execute => [.execute, .prepare, .register, .record, .upload]
  | .prepare => [.prepare, .register, .record, .upload]
  | .register => [.register, .record, .upload]
  | .record => [.record, .upload]
  | .registry => [.registry, .upload]
  | ρ => [ρ]

/-- The statement is plain, or belongs to the given role. -/
def Op.Within (ρ : Role) (op : Op) : Prop := op.role = .plain ∨ op.role ∈ ρ.covers

/-- The statements by which the relay publishes, by which workers take messages and begin attempts, and
by which gates are evaluated. -/
inductive Duty
  | any
  | relay
  | worker
  | gate
  deriving DecidableEq

def Op.duty : Op → Duty
  | .send _ | .markPublished _ => .relay
  | .poll | .commitOffset _ | .claim .. | .insertAttempt .. => .worker
  | .getEvaluationRun _ | .getQualityGate _ | .metricMap _ | .listForModelVersion _
  | .recordGateResult .. => .gate
  | _ => .any

def Call.duty : Call → Duty
  | .relayOnce => .relay
  | .processJobMessage .. | .workerRunOnce _ => .worker
  | .evaluateQualityGate .. => .gate
  | _ => .any

/-- The statement is one of the given role and duty. -/
def Op.Inside (ρ : Role) (δ : Duty) (op : Op) : Prop :=
  op.Within ρ ∧ (op.duty = .any ∨ op.duty = δ)

section Pieces

variable {φ : Op → Prop} {α : Type}

@[simp] theorem exec_eq (op : Op) : exec op = Prog.perform op := rfl

@[simp] theorem all_found (e : Exn) (o : Option α) : (found e o).All φ := by
  cases o <;> trivial

@[simp] theorem all_check (e : Exn) (b : Bool) : (check e b).All φ := by
  cases b <;> trivial

theorem all_getIf {matched : Bool} {j : JobId} (h : φ (.getJob j)) : (getIf matched j).All φ := by
  cases matched with
  | true => exact Prog.all_perform.mpr h
  | false => trivial

theorem all_refresh {j : JobId} {loaded : Option Job} (h : φ (.loadJob j)) :
    (refresh j loaded).All φ := by
  cases loaded with
  | some job => trivial
  | none => simp [refresh, h]

end Pieces

variable {ρ : Role} {δ : Duty}

theorem within_plain {op : Op} (h : op.role = .plain) : op.Within ρ := Or.inl h

theorem within_role {op : Op} (h : op.role = ρ) : op.Within ρ := by
  refine Or.inr ?_
  rw [h]
  cases ρ <;> decide

theorem inside_plain {op : Op} (h : op.role = .plain) (hd : op.duty = .any) : op.Inside ρ δ :=
  ⟨within_plain h, Or.inl hd⟩

theorem inside_role {op : Op} (h : op.role = ρ) (hd : op.duty = .any) : op.Inside ρ δ :=
  ⟨within_role h, Or.inl hd⟩

theorem inside_duty {op : Op} (h : op.role = .plain) (hd : op.duty = δ) : op.Inside ρ δ :=
  ⟨within_plain h, Or.inr hd⟩

theorem inside_of_plain {op : Op} (h : op.Inside .plain δ) : op.Inside ρ δ := by
  refine ⟨Or.inl ?_, h.2⟩
  simpa [Op.Within, Role.covers] using h.1

/-- A role does what the roles that it covers do. -/
theorem Op.Inside.mono {ρ' : Role} {op : Op} (hcovers : ρ'.covers ⊆ ρ.covers)
    (h : op.Inside ρ' δ) : op.Inside ρ δ :=
  ⟨h.1.imp_right fun hmem => hcovers hmem, h.2⟩

theorem inside_record {op : Op} (h : op.role = .record) (hd : op.duty = .any) :
    op.Inside .register δ :=
  Op.Inside.mono (by decide) (inside_role h hd)

theorem inside_prepare {op : Op} (h : op.role = .prepare) (hd : op.duty = .any) :
    op.Inside .prepare δ := inside_role h hd

/-- A program of one role has no statement of another that it does not cover. -/
theorem Op.Within.role_ne {ρ' : Role} {op : Op} (h : op.Within ρ) (hρ : ρ ≠ ρ')
    (hplain : ρ' ≠ .plain) (hcovered : ρ' ∉ [Role.prepare, .register, .record, .upload]) :
    op.role ≠ ρ' := by
  rintro rfl
  obtain h | h := h
  · exact hplain h
  · cases ρ <;> simp_all [Role.covers]

/-! ### API calls -/

theorem all_getJobOr404 (j : JobId) : (getJobOr404 j).All (Op.Inside ρ δ) := by
  simp [getJobOr404, Op.Inside, Op.Within, Op.role, Op.duty]

theorem all_transition (j : JobId) (toStatus : String) :
    (transition j toStatus).All (Op.Inside .patch δ) := by
  refine Prog.all_perform_bind.mpr ⟨inside_role rfl rfl, fun matched => ?_⟩
  refine Prog.all_bind (all_getIf (inside_plain rfl rfl)) fun job => ?_
  cases job with
  | some job => trivial
  | none => exact Prog.all_bind (all_getJobOr404 j) fun _ => trivial

theorem all_updateJob (j : JobId) (status : Option String) (config : Option Dict) :
    (updateJob j status config).All (Op.Inside .patch δ) := by
  refine Prog.all_bind ?_ fun _ => ?_
  · cases status with
    | none => exact all_getJobOr404 j
    | some toStatus => exact all_transition j toStatus
  · cases config with
    | none => trivial
    | some config => exact Prog.all_perform.mpr (inside_plain rfl rfl)

theorem all_cancelRunning (j : JobId) : (cancelRunning j).All (Op.Inside ρ δ) := by
  refine Prog.all_perform_bind.mpr ⟨inside_plain rfl rfl, fun matched => ?_⟩
  refine Prog.all_bind (all_getIf (inside_plain rfl rfl)) fun job => ?_
  cases job with
  | some job => trivial
  | none => exact Prog.all_bind (all_getJobOr404 j) fun _ => trivial

theorem all_cancelJob (j : JobId) : (cancelJob j).All (Op.Inside ρ δ) := by
  refine Prog.all_bind (all_getJobOr404 j) fun current => ?_
  cases current.status with
  | pending | queued =>
      exact Prog.all_perform_bind.mpr ⟨inside_plain rfl rfl, fun matched => all_check _ _⟩
  | running => exact all_cancelRunning j
  | succeeded | failed | cancelled => trivial

theorem all_deleteJob (j : JobId) : (deleteJob j).All (Op.Inside ρ δ) :=
  Prog.all_bind (all_getJobOr404 j) fun _ => Prog.all_perform.mpr (inside_plain rfl rfl)

theorem all_checkNullableVersion (v : NullableVersionRef) :
    (checkNullableVersion v).All (Op.Inside ρ δ) := by
  obtain ⟨m, n⟩ := v
  cases m with
  | none => trivial
  | some m =>
      cases n with
      | none => trivial
      | some n =>
          refine Prog.all_perform_bind.mpr ⟨inside_plain rfl rfl, fun v => ?_⟩
          exact Prog.all_bind (all_found _ _) fun _ => trivial

theorem all_checkTrainingRun (payload : TrainingRunCreate) :
    (checkTrainingRun payload).All (Op.Inside ρ δ) := by
  refine Prog.all_perform_bind.mpr ⟨inside_plain rfl rfl, fun v => ?_⟩
  exact Prog.all_bind (all_found _ _) fun _ => all_checkNullableVersion _

theorem all_checkEvaluation (payload : EvaluationCreate) :
    (checkEvaluation payload).All (Op.Inside ρ δ) := by
  refine Prog.all_perform_bind.mpr ⟨inside_plain rfl rfl, fun config => ?_⟩
  refine Prog.all_bind (all_found _ _) fun config => ?_
  refine Prog.all_perform_bind.mpr ⟨inside_plain rfl rfl, fun a => ?_⟩
  refine Prog.all_bind (all_found _ _) fun a => ?_
  refine Prog.all_perform_bind.mpr ⟨inside_plain rfl rfl, fun artifact => ?_⟩
  refine Prog.all_bind (all_found _ _) fun artifact => ?_
  refine Prog.all_bind (all_check _ _) fun _ => ?_
  refine Prog.all_perform_bind.mpr ⟨inside_plain rfl rfl, fun v => ?_⟩
  exact Prog.all_bind (all_found _ _) fun _ => all_checkNullableVersion _

theorem all_createTrainingRun (payload : TrainingRunCreate) :
    (createTrainingRun payload).All (Op.Inside .create δ) := by
  refine Prog.all_bind (all_checkTrainingRun payload) fun _ => ?_
  refine Prog.all_perform_bind.mpr ⟨inside_role rfl rfl, fun j => ?_⟩
  exact Prog.all_perform.mpr (inside_role rfl rfl)

theorem all_createEvaluation (payload : EvaluationCreate) :
    (createEvaluation payload).All (Op.Inside .create δ) := by
  refine Prog.all_bind (all_checkEvaluation payload) fun _ => ?_
  refine Prog.all_perform_bind.mpr ⟨inside_role rfl rfl, fun j => ?_⟩
  exact Prog.all_perform.mpr (inside_role rfl rfl)

/-! ### Scheduler, recovery and relay -/

theorem all_recordDecision (env : Env) (j : JobId) (job : Job) (request : Resources Json)
    (rejected : Option String) : (recordDecision env j job request rejected).All (Op.Inside ρ δ) := by
  cases rejected with
  | none | some reason =>
      refine Prog.all_perform_bind.mpr ⟨inside_plain rfl rfl, fun now => ?_⟩
      exact Prog.all_perform_bind.mpr ⟨inside_plain rfl rfl, fun _ => trivial⟩

theorem all_recheck (j : JobId) (job : Job) : (recheck j job).All (Op.Inside ρ δ) := by
  refine Prog.all_perform_bind.mpr ⟨inside_plain rfl rfl, fun row => ?_⟩
  split
  · trivial
  · refine Prog.all_perform_bind.mpr ⟨inside_plain rfl rfl, fun now => ?_⟩
    split
    · trivial
    · exact Prog.all_perform_bind.mpr ⟨inside_plain rfl rfl, fun reserved => trivial⟩

theorem all_reserve (j : JobId) (job : Job) (request : Resources Json) :
    (reserve j job request).All (Op.Inside .reserve δ) := by
  refine Prog.all_perform_bind.mpr ⟨inside_role rfl rfl, fun reserved => ?_⟩
  cases reserved with
  | true => trivial
  | false =>
      refine Prog.all_perform_bind.mpr ⟨inside_plain rfl rfl, fun cap => ?_⟩
      exact Prog.all_bind (all_found _ _) fun reason => trivial

theorem all_tryAdmit (env : Env) (j : JobId) (loaded : Option Job) :
    (tryAdmit env j loaded).All (Op.Inside .reserve δ) := by
  refine Prog.all_bind (all_refresh (inside_plain rfl rfl)) fun job => ?_
  refine Prog.all_bind (all_found _ _) fun request => ?_
  refine Prog.all_bind (all_recheck j job) fun rejected => ?_
  cases rejected with
  | some reason => exact all_recordDecision env j job request _
  | none =>
      exact Prog.all_bind (all_reserve j job request) fun rejected =>
        all_recordDecision env j job request rejected

theorem all_admitAll (env : Env) (items : List (JobId × Option Job)) (admitted waiting : ℕ) :
    (admitAll env items admitted waiting).All (Op.Inside .reserve δ) := by
  induction items generalizing admitted waiting with
  | nil => trivial
  | cons item rest ih =>
      unfold admitAll
      split
      · exact ih _ _
      · refine Prog.all_bind (all_tryAdmit env _ _) fun ok => ?_
        cases ok with
        | true => exact ih _ _
        | false => exact ih _ _

theorem all_schedulerRunOnce (env : Env) : (schedulerRunOnce env).All (Op.Inside .reserve δ) := by
  refine Prog.all_bind ?_ fun ranked => all_admitAll env _ 0 0
  refine Prog.all_perform_bind.mpr ⟨inside_plain rfl rfl, fun now => ?_⟩
  exact Prog.all_perform_bind.mpr ⟨inside_plain rfl rfl, fun candidates => trivial⟩

theorem all_reclaimAll (items : List (JobId × Option Job)) (reclaimed : ℕ) :
    (reclaimAll items reclaimed).All (Op.Inside ρ δ) := by
  induction items generalizing reclaimed with
  | nil => trivial
  | cons item rest ih =>
      refine Prog.all_bind (all_refresh (inside_plain rfl rfl)) fun job => ?_
      refine Prog.all_perform_bind.mpr ⟨inside_plain rfl rfl, fun t => ?_⟩
      exact Prog.all_perform_bind.mpr ⟨inside_plain rfl rfl, fun won => ih _⟩

theorem all_dispatchAll (jobs : List JobId) (dispatched : ℕ) :
    (dispatchAll jobs dispatched).All (Op.Inside ρ δ) := by
  induction jobs generalizing dispatched with
  | nil => trivial
  | cons j rest ih =>
      refine Prog.all_perform_bind.mpr ⟨inside_plain rfl rfl, fun _ => ?_⟩
      exact Prog.all_perform_bind.mpr ⟨inside_plain rfl rfl, fun _ => ih _⟩

theorem all_recoveryRunOnce : recoveryRunOnce.All (Op.Inside ρ δ) := by
  refine Prog.all_bind ?_ fun reclaimed => Prog.all_bind ?_ fun dispatched => trivial
  · exact Prog.all_perform_bind.mpr ⟨inside_plain rfl rfl, fun stale => all_reclaimAll _ 0⟩
  · exact Prog.all_perform_bind.mpr ⟨inside_plain rfl rfl, fun due => all_dispatchAll _ 0⟩

theorem all_publishAll (rows : List (ℕ × JobId)) (published : ℕ) :
    (publishAll rows published).All (Op.Inside ρ .relay) := by
  induction rows generalizing published with
  | nil => trivial
  | cons row rest ih =>
      refine Prog.all_perform_bind.mpr ⟨inside_duty rfl rfl, fun _ => ?_⟩
      exact Prog.all_perform_bind.mpr ⟨inside_duty rfl rfl, fun _ => ih _⟩

theorem all_relayOnce : relayOnce.All (Op.Inside ρ .relay) :=
  Prog.all_perform_bind.mpr ⟨inside_plain rfl rfl, fun rows => all_publishAll rows 0⟩

/-! ### Uploads and supervisors -/

theorem all_objectExistsWithHash {φ : Op → Prop} {key expected : Hash}
    (hop : φ (.objectExistsWithHash key expected)) : (objectExistsWithHash key expected).All φ := by
  refine Prog.all_bind (Prog.all_attempt (Prog.all_perform.mpr hop)) fun r => ?_
  split <;> trivial

theorem all_uploadTo (data : Bytes) (hash : Hash) (a : ArtifactId) (uploader : WorkerId) :
    (uploadTo data hash a uploader).All (Op.Inside .upload δ) := by
  refine Prog.all_perform_bind.mpr ⟨inside_plain rfl rfl, fun claimed => ?_⟩
  refine Prog.all_bind (all_found _ _) fun claimed => ?_
  refine Prog.all_perform_bind.mpr ⟨inside_role rfl rfl, fun _ => ?_⟩
  refine Prog.all_bind (all_objectExistsWithHash (inside_plain rfl rfl)) fun verified => ?_
  refine Prog.all_bind (all_check _ _) fun _ => ?_
  refine Prog.all_perform_bind.mpr ⟨inside_role rfl rfl, fun finalized => ?_⟩
  exact Prog.all_bind (all_found _ _) fun finalized => trivial

theorem all_uploadArtifact (env : Env) (data : Bytes) (uploader : WorkerId) :
    (uploadArtifact env data uploader).All (Op.Inside .upload δ) := by
  refine Prog.all_perform_bind.mpr ⟨inside_plain rfl rfl, fun existing => ?_⟩
  cases existing with
  | some existing =>
      simp only
      split
      · trivial
      · exact all_uploadTo _ _ _ _
  | none => exact Prog.all_perform_bind.mpr ⟨inside_plain rfl rfl, fun a => all_uploadTo _ _ _ _⟩

theorem all_isCompatible (run : TrainingRun) (candidate : Checkpoint) :
    (isCompatible run candidate).All (Op.Inside ρ δ) := by
  refine Prog.all_perform_bind.mpr ⟨inside_plain rfl rfl, fun artifact => ?_⟩
  cases artifact with
  | none => trivial
  | some artifact =>
      simp only
      split
      · trivial
      · exact Prog.all_bind (all_objectExistsWithHash (inside_plain rfl rfl)) fun intact => trivial

theorem all_firstCompatible (run : TrainingRun) (candidates : List ((RunId × ℕ × ℤ) × Checkpoint)) :
    (firstCompatible run candidates).All (Op.Inside ρ δ) := by
  induction candidates with
  | nil => trivial
  | cons candidate rest ih =>
      refine Prog.all_bind (all_isCompatible run _) fun ok => ?_
      cases ok with
      | true => trivial
      | false => exact ih

theorem all_prepareResume (runId : RunId) (run : TrainingRun) :
    (prepareResume runId run).All (Op.Inside ρ δ) := by
  refine Prog.all_bind ?_ fun found => ?_
  · exact Prog.all_perform_bind.mpr ⟨inside_plain rfl rfl, fun candidates => all_firstCompatible run _⟩
  · cases found with
    | none => trivial
    | some found =>
        refine Prog.all_perform_bind.mpr ⟨inside_plain rfl rfl, fun artifact => ?_⟩
        refine Prog.all_bind (all_found _ _) fun artifact => ?_
        exact Prog.all_perform_bind.mpr ⟨inside_plain rfl rfl, fun data => trivial⟩

theorem all_field (event : Dict) (key : String) {φ : Op → Prop} : (field event key).All φ :=
  all_found _ _

theorem all_uploadAndRegisterCheckpoint (env : Env) (t : Ticket) (run : TrainingRun)
    (event : Dict) : (uploadAndRegisterCheckpoint env t run event).All (Op.Inside .record δ) := by
  refine Prog.all_bind (all_field _ _) fun path => ?_
  refine Prog.all_perform_bind.mpr ⟨inside_role rfl rfl, fun data => ?_⟩
  refine Prog.all_bind (Prog.all_mono (fun _ => .mono (by decide)) (all_uploadArtifact env data _))
    fun uploaded => ?_
  simp only
  split
  · trivial
  · refine Prog.all_bind (all_field _ _) fun step => ?_
    exact Prog.all_perform_bind.mpr ⟨inside_role rfl rfl, fun registered => trivial⟩

theorem all_uploadAndRegisterFinal (env : Env) (t : Ticket) (event : Dict) :
    (uploadAndRegisterFinal env t event).All (Op.Inside .register δ) := by
  refine Prog.all_bind (all_field _ _) fun path => ?_
  refine Prog.all_perform_bind.mpr ⟨inside_record rfl rfl, fun data => ?_⟩
  refine Prog.all_bind (Prog.all_mono (fun _ => .mono (by decide)) (all_uploadArtifact env data _))
    fun uploaded => ?_
  simp only
  split
  · trivial
  · exact Prog.all_perform_bind.mpr ⟨inside_role rfl rfl, fun registered => trivial⟩

theorem all_handleTrainingEvent (env : Env) (t : Ticket) (run : TrainingRun) (event : Dict)
    (progress : Progress) :
    (handleTrainingEvent env t run event progress).All (Op.Inside .register δ) := by
  unfold handleTrainingEvent
  split
  · exact Prog.all_bind (all_refresh (inside_plain rfl rfl)) fun job => trivial
  · refine Prog.all_bind (all_refresh (inside_plain rfl rfl)) fun job => ?_
    exact Prog.all_bind (all_check _ _) fun _ => trivial
  · refine Prog.all_bind (all_field _ _) fun step => ?_
    exact Prog.all_perform_bind.mpr ⟨inside_record rfl rfl, fun recorded => trivial⟩
  · refine Prog.all_bind ?_ fun _ => trivial
    exact Prog.all_mono (fun _ => .mono (by decide)) (all_uploadAndRegisterCheckpoint env t run event)
  · exact Prog.all_bind (all_uploadAndRegisterFinal env t event) fun _ => trivial
  · trivial

section Supervise

variable {φ : Op → Prop} {handle : Dict → Progress → Service Progress}

theorem all_handleLine (hφ : ∀ event progress, (handle event progress).All φ)
    (line : Line) (progress : Progress) : (handleLine handle line progress).All φ := by
  unfold handleLine
  split
  · trivial
  · trivial
  · exact hφ _ _
  · trivial
  · trivial

theorem all_superviseLines (habandoned : φ .abandoned)
    (hφ : ∀ event progress, (handle event progress).All φ) (lines : List Line)
    (progress : Progress) : (superviseLines handle lines progress).All φ := by
  induction lines generalizing progress with
  | nil => trivial
  | cons line rest ih =>
      refine Prog.all_perform_bind.mpr ⟨habandoned, fun abandoned => ?_⟩
      cases abandoned with
      | true => trivial
      | false => exact Prog.all_bind (all_handleLine hφ line progress) fun progress => ih progress

theorem all_supervise {executor : Executor} {context : Dict} {files : List (String × Bytes)}
    (hspawn : φ (.spawn executor context files)) (habandoned : φ .abandoned)
    (hφ : ∀ event progress, (handle event progress).All φ) :
    (supervise executor context files handle).All φ := by
  refine Prog.all_perform_bind.mpr ⟨hspawn, fun lines => ?_⟩
  refine Prog.all_bind (all_superviseLines habandoned hφ lines _) fun progress => ?_
  cases progress with
  | none => trivial
  | some progress =>
      refine Prog.all_perform_bind.mpr ⟨habandoned, fun abandoned => ?_⟩
      cases abandoned <;> trivial

end Supervise

/-- A training attempt after its begin. -/
theorem all_trainingRest (env : Env) (t : Ticket) (run : TrainingRun) :
    ∃ rest, runTrainingAttempt env t run = (exec (.beginAttempt .training t.jobId) >>= rest) ∧
      ∀ u, (rest u).All (Op.Inside .prepare δ) := by
  refine ⟨_, rfl, fun _ => ?_⟩
  refine Prog.all_bind (all_refresh (inside_plain rfl rfl)) fun job => ?_
  refine Prog.all_bind (all_prepareResume _ run) fun resumed => ?_
  refine Prog.all_bind (all_found _ _) fun _ => ?_
  refine Prog.all_perform_bind.mpr ⟨inside_role rfl rfl, fun recorded => ?_⟩
  refine Prog.all_bind (all_supervise (inside_role rfl rfl) (inside_plain rfl rfl)
    fun event progress => Prog.all_mono (fun _ => .mono (by decide))
      (all_handleTrainingEvent env t run event progress)) fun progress => ?_
  cases progress <;> trivial

theorem all_prepareArtifact (a : Option ArtifactId) : (prepareArtifact a).All (Op.Inside ρ δ) := by
  cases a with
  | none => trivial
  | some a =>
      refine Prog.all_perform_bind.mpr ⟨inside_plain rfl rfl, fun artifact => ?_⟩
      cases artifact with
      | none => trivial
      | some artifact =>
          simp only
          split
          · trivial
          · refine Prog.all_bind (Prog.all_attempt ?_) fun data => trivial
            exact Prog.all_perform.mpr (inside_plain rfl rfl)

theorem all_prepareInputs (run : EvaluationRun) : (prepareInputs run).All (Op.Inside ρ δ) := by
  refine Prog.all_perform_bind.mpr ⟨inside_plain rfl rfl, fun version => ?_⟩
  refine Prog.all_bind (all_prepareArtifact _) fun model => ?_
  cases model with
  | none => trivial
  | some model =>
      refine Prog.all_perform_bind.mpr ⟨inside_plain rfl rfl, fun version => ?_⟩
      refine Prog.all_bind (all_prepareArtifact version) fun dataset => ?_
      cases dataset <;> trivial

theorem all_handleEvaluationEvent (env : Env) (t : Ticket) (event : Dict) (progress : Progress) :
    (handleEvaluationEvent env t event progress).All (Op.Inside .record δ) := by
  unfold handleEvaluationEvent
  split
  · trivial
  · trivial
  · exact Prog.all_bind (all_check _ _) fun _ => trivial
  · refine Prog.all_bind (all_field _ _) fun exampleId => ?_
    exact Prog.all_perform_bind.mpr ⟨inside_role rfl rfl, fun recorded => trivial⟩
  · refine Prog.all_bind (all_field _ _) fun metricName => ?_
    refine Prog.all_bind (all_field _ _) fun metricValue => ?_
    exact Prog.all_perform_bind.mpr ⟨inside_role rfl rfl, fun recorded => trivial⟩
  · trivial
  · trivial

section Evaluation

variable {φ : Op → Prop} {t : Ticket}
  (hmark : ∀ status setCompleted,
    φ (.markRunStatus t.runId t.jobId t.workerId t.attemptNumber status setCompleted))

include hmark

theorem all_markRun (status : RunStatus) (setCompleted : Bool) :
    (markRun t status setCompleted).All φ :=
  Prog.all_perform.mpr (hmark status setCompleted)

theorem all_failRun (outcome : AttemptOutcome) : (failRun t outcome).All φ :=
  Prog.all_bind (all_markRun hmark _ _) fun _ => trivial

theorem all_concludeEvaluation (progress : Progress) : (concludeEvaluation t progress).All φ := by
  unfold concludeEvaluation
  split
  · refine Prog.all_bind (all_markRun hmark _ _) fun marked => ?_
    cases marked <;> trivial
  · exact all_failRun hmark _

/-- An evaluation attempt after its begin spawns its subprocess, marks its run, and records. -/
theorem all_evaluationSteps (env : Env) (run : EvaluationRun)
    (hspawn : ∀ context files, φ (.spawn .evaluation context files))
    (hrecord : ∀ op, op.Inside .record .any → φ op) :
    ∃ rest, runEvaluationAttempt env t run =
      (exec (.beginAttempt .evaluation t.jobId) >>= rest) ∧ ∀ u, (rest u).All φ := by
  refine ⟨_, rfl, fun _ => ?_⟩
  refine Prog.all_bind (all_refresh (hrecord _ (inside_plain rfl rfl))) fun job => ?_
  refine Prog.all_perform_bind.mpr ⟨hrecord _ (inside_plain rfl rfl), fun config => ?_⟩
  refine Prog.all_bind (Prog.all_mono hrecord (all_prepareInputs run)) fun inputs => ?_
  cases inputs with
  | error message => exact all_failRun hmark _
  | ok inputs =>
      refine Prog.all_bind (all_found _ _) fun _ => ?_
      refine Prog.all_bind (all_markRun hmark _ _) fun marked => ?_
      cases marked with
      | false => trivial
      | true =>
          refine Prog.all_bind (all_supervise (hspawn _ _) (hrecord _ (inside_plain rfl rfl))
            fun event progress => Prog.all_mono hrecord
              (all_handleEvaluationEvent env t event progress)) fun progress => ?_
          cases progress with
          | none => trivial
          | some progress => exact all_concludeEvaluation hmark progress

end Evaluation

/-- An evaluation attempt after its begin. -/
theorem all_evaluationRest (env : Env) (t : Ticket) (run : EvaluationRun) :
    ∃ rest, runEvaluationAttempt env t run =
      (exec (.beginAttempt .evaluation t.jobId) >>= rest) ∧
      ∀ u, (rest u).All (Op.Inside .prepare δ) :=
  all_evaluationSteps (fun _ _ => inside_role rfl rfl) env run (fun _ _ => inside_role rfl rfl)
    fun _ hop => Op.Inside.mono (by decide) ⟨hop.1, hop.2.elim Or.inl Or.inl⟩

/-! ### Workers -/

theorem all_sleep (seconds : Json) {φ : Op → Prop} : (sleep seconds).All φ := by
  unfold sleep
  split
  · split
    · trivial
    · exact all_check _ _
  · trivial

/-- A simulated attempt after its begin. -/
theorem all_executorRest (j : JobId) :
    ∃ rest, runExecutor j = (exec (.beginAttempt .simulated j) >>= rest) ∧
      ∀ u, (rest u).All (Op.Inside ρ δ) := by
  refine ⟨_, rfl, fun _ => ?_⟩
  refine Prog.all_bind (all_refresh (inside_plain rfl rfl)) fun job => ?_
  exact Prog.all_bind (all_sleep _) fun _ => trivial

theorem all_begin {α : Type} {executor : Executor} {j : JobId} {p : Service α}
    (h : ∃ rest, p = (exec (.beginAttempt executor j) >>= rest) ∧
      ∀ u, (rest u).All (Op.Inside .prepare δ)) :
    p.All fun op => op.Inside .prepare δ ∨ ∃ executor, op = .beginAttempt executor j := by
  obtain ⟨rest, rfl, hrest⟩ := h
  refine Prog.all_perform_bind.mpr ⟨Or.inr ⟨executor, rfl⟩, fun u => ?_⟩
  exact Prog.all_mono (fun _ => Or.inl) (hrest u)

/-- The body of an attempt begins it, prepares it and registers outputs. -/
theorem all_runBody (env : Env) (j : JobId) (w : WorkerId) (k : ℕ) :
    (runBody env j w k).All fun op =>
      op.Inside .prepare δ ∨ ∃ executor, op = .beginAttempt executor j := by
  refine Prog.all_perform_bind.mpr ⟨Or.inl (inside_role rfl rfl), fun run => ?_⟩
  cases run with
  | some run =>
      obtain ⟨runId, run⟩ := run
      exact all_begin (all_trainingRest env
        { jobId := j, workerId := w, attemptNumber := k, runId } run)
  | none =>
      refine Prog.all_perform_bind.mpr ⟨Or.inl (inside_role rfl rfl),
        fun run => ?_⟩
      cases run with
      | some run =>
          obtain ⟨runId, run⟩ := run
          exact Prog.all_bind (all_begin (all_evaluationRest env
            { jobId := j, workerId := w, attemptNumber := k, runId } run)) fun _ => trivial
      | none => exact all_begin (all_executorRest j)

theorem all_endingOf (env : Env) (k : ℕ) (outcome : AttemptOutcome) :
    (endingOf env k outcome).All (Op.Inside ρ δ) := by
  cases outcome with
  | succeeded => trivial
  | failed message classification domain =>
      simp only [endingOf]
      split
      · exact Prog.all_perform_bind.mpr ⟨inside_plain rfl rfl, fun t => trivial⟩
      · trivial

/-- After the body a worker executes plain statements and finalisations of its attempt. -/
theorem all_conclude (env : Env) (j : JobId) (w : WorkerId) (k : ℕ) (outcome : AttemptOutcome)
    (loaded : Option Job) : (conclude env j w k outcome loaded).All fun op =>
      op.Inside .plain δ ∨ ∃ ending, op = .finalize j w k ending := by
  have hfinish : ∀ ending, (finish j w k ending).All fun op =>
      op.Inside .plain δ ∨ ∃ ending, op = .finalize j w k ending := by
    intro ending
    refine Prog.all_perform_bind.mpr ⟨Or.inr ⟨ending, rfl⟩, fun finalized => ?_⟩
    cases finalized <;> trivial
  refine Prog.all_perform_bind.mpr ⟨Or.inl (inside_plain rfl rfl), fun abandoned => ?_⟩
  cases abandoned with
  | true => trivial
  | false =>
      refine Prog.all_perform_bind.mpr ⟨Or.inl (inside_plain rfl rfl), fun row => ?_⟩
      split
      · exact hfinish _
      · refine Prog.all_bind ?_ fun ending => hfinish ending
        exact Prog.all_mono (fun _ => Or.inl) (all_endingOf env k outcome)

theorem all_runAttempt (env : Env) (j : JobId) (w : WorkerId) (k : ℕ) :
    (runAttempt env j w k).All (Op.Inside .execute .worker) := by
  refine Prog.all_perform_bind.mpr ⟨inside_duty rfl rfl, fun _ => ?_⟩
  refine Prog.all_perform_bind.mpr ⟨Op.Inside.mono (by decide) (inside_prepare rfl rfl),
    fun _ => ?_⟩
  refine Prog.all_bind ?_ fun result => ?_
  · refine Prog.all_ensuring (Prog.all_mono (fun op hop => ?_) (all_runBody (δ := .worker) env j w k))
      (Prog.all_perform.mpr (inside_plain rfl rfl))
    obtain hregister | ⟨executor, rfl⟩ := hop
    · exact hregister.mono (by decide)
    · exact inside_role rfl rfl
  · refine Prog.all_mono (fun op hop => ?_) (all_conclude (δ := .worker) env j w k _ _)
    obtain hplain | ⟨ending, rfl⟩ := hop
    · exact inside_of_plain hplain
    · exact inside_role rfl rfl

theorem all_processJobMessage (env : Env) (j : JobId) (w : WorkerId) :
    (processJobMessage env j w).All (Op.Inside .execute .worker) := by
  refine Prog.all_perform_bind.mpr ⟨inside_duty rfl rfl, fun matched => ?_⟩
  refine Prog.all_bind (all_getIf (inside_plain rfl rfl)) fun job => ?_
  cases job with
  | none => trivial
  | some job => exact all_runAttempt env j w _

theorem all_workerRunOnce (env : Env) (w : WorkerId) :
    (workerRunOnce env w).All (Op.Inside .execute .worker) := by
  refine Prog.all_perform_bind.mpr ⟨inside_duty rfl rfl, fun message => ?_⟩
  cases message with
  | none => trivial
  | some message =>
      refine Prog.all_bind (Prog.all_attempt (all_processJobMessage env _ w)) fun _ => ?_
      exact Prog.all_perform.mpr (inside_duty rfl rfl)

/-! ### Registries, reconciler and gates -/

theorem all_createDatasetVersion (env : Env) (d : ℕ) (data : Bytes) (uploader : WorkerId) :
    (createDatasetVersion env d data uploader).All (Op.Inside .registry δ) := by
  refine Prog.all_perform_bind.mpr ⟨inside_plain rfl rfl, fun known => ?_⟩
  refine Prog.all_bind (all_check _ _) fun _ => ?_
  refine Prog.all_bind (Prog.all_mono (fun _ => .mono (by decide)) (all_uploadArtifact env data uploader))
    fun uploaded => ?_
  refine Prog.all_bind (all_check _ _) fun _ => ?_
  refine Prog.all_perform_bind.mpr ⟨inside_plain rfl rfl, fun n => ?_⟩
  exact Prog.all_perform_bind.mpr ⟨inside_role rfl rfl, fun _ => trivial⟩

theorem all_registerVersion (m : ℕ) (a : ArtifactId) (trainingRunId : Option RunId) :
    (registerVersion m a trainingRunId).All (Op.Inside .registry δ) := by
  refine Prog.all_perform_bind.mpr ⟨inside_plain rfl rfl, fun known => ?_⟩
  refine Prog.all_bind (all_check _ _) fun _ => ?_
  refine Prog.all_perform_bind.mpr ⟨inside_plain rfl rfl, fun artifact => ?_⟩
  refine Prog.all_bind (all_found _ _) fun artifact => ?_
  refine Prog.all_bind (all_check _ _) fun _ => ?_
  refine Prog.all_perform_bind.mpr ⟨inside_plain rfl rfl, fun existing => ?_⟩
  refine Prog.all_bind (all_check _ _) fun _ => ?_
  refine Prog.all_perform_bind.mpr ⟨inside_plain rfl rfl, fun n => ?_⟩
  exact Prog.all_perform_bind.mpr ⟨inside_role rfl rfl, fun _ => trivial⟩

theorem all_reconcile (a : ArtifactId) (row : Artifact) :
    (reconcile a row).All (Op.Inside .registry δ) := by
  refine Prog.all_bind (all_objectExistsWithHash (inside_plain rfl rfl)) fun intact => ?_
  cases intact with
  | true =>
      refine Prog.all_perform_bind.mpr ⟨inside_plain rfl rfl, fun size => ?_⟩
      exact Prog.all_perform_bind.mpr ⟨inside_role rfl rfl, fun result => trivial⟩
  | false => exact Prog.all_perform_bind.mpr ⟨inside_role rfl rfl, fun result => trivial⟩

theorem all_reconcileAll (pending : List (ArtifactId × Artifact)) (healed failed : ℕ) :
    (reconcileAll pending healed failed).All (Op.Inside .registry δ) := by
  induction pending generalizing healed failed with
  | nil => trivial
  | cons item rest ih => exact Prog.all_bind (all_reconcile _ _) fun counts => ih _ _

theorem all_configCompatible (c₁ c₂ : ℕ) : (configCompatible c₁ c₂).All (Op.Inside ρ δ) := by
  unfold configCompatible
  split
  · trivial
  · refine Prog.all_perform_bind.mpr ⟨inside_plain rfl rfl, fun cand => ?_⟩
    refine Prog.all_perform_bind.mpr ⟨inside_plain rfl rfl, fun base => ?_⟩
    cases cand <;> cases base <;> trivial

theorem all_firstComparable (run : EvaluationRun) (completed : List (RunId × EvaluationRun)) :
    (firstComparable run completed).All (Op.Inside ρ .gate) := by
  induction completed with
  | nil => trivial
  | cons base rest ih =>
      refine Prog.all_bind (all_configCompatible _ _) fun configOk => ?_
      split
      · exact Prog.all_perform_bind.mpr ⟨inside_duty rfl rfl, fun metrics => trivial⟩
      · exact ih

theorem all_resolveBaselineMetrics (runId : RunId) (run : EvaluationRun) :
    (resolveBaselineMetrics runId run).All (Op.Inside ρ .gate) := by
  unfold resolveBaselineMetrics
  split
  · trivial
  · exact Prog.all_perform_bind.mpr ⟨inside_duty rfl rfl, fun runs => all_firstComparable _ _⟩

theorem all_ofEngine {α : Type} (r : Except Exn α) : (ofEngine r).All (Op.Inside ρ δ) := by
  cases r <;> trivial

theorem all_evaluateQualityGate (runId : RunId) (gate : ℕ) :
    (evaluateQualityGate runId gate).All (Op.Inside ρ .gate) := by
  refine Prog.all_perform_bind.mpr ⟨inside_duty rfl rfl, fun run => ?_⟩
  refine Prog.all_bind (all_found _ _) fun run => ?_
  refine Prog.all_perform_bind.mpr ⟨inside_duty rfl rfl, fun rules => ?_⟩
  refine Prog.all_bind (all_found _ _) fun rules => ?_
  refine Prog.all_bind (all_check _ _) fun _ => ?_
  refine Prog.all_perform_bind.mpr ⟨inside_duty rfl rfl, fun metrics => ?_⟩
  refine Prog.all_bind (all_resolveBaselineMetrics _ _) fun baseline => ?_
  refine Prog.all_bind (all_ofEngine _) fun verdict => ?_
  refine Prog.all_perform_bind.mpr ⟨inside_duty rfl rfl, fun inserted => ?_⟩
  refine Prog.all_perform_bind.mpr ⟨inside_plain rfl rfl, fun existing => ?_⟩
  exact Prog.all_bind (all_found _ _) fun existing => trivial

/-- **Every call keeps to its role and its duty.** -/
theorem inside_program (env : Env) (call : Call) :
    (call.program env).All (Op.Inside call.role call.duty) := by
  cases call with
  | createJob payload => exact Prog.all_perform_bind.mpr ⟨inside_role rfl rfl, fun _ => trivial⟩
  | updateJob j status config =>
      exact Prog.all_bind (all_updateJob j status config) fun _ => trivial
  | cancelJob j => exact Prog.all_bind (all_cancelJob j) fun _ => trivial
  | deleteJob j => exact Prog.all_bind (all_deleteJob j) fun _ => trivial
  | createTrainingRun payload =>
      exact Prog.all_bind (all_createTrainingRun payload) fun _ => trivial
  | createEvaluation payload =>
      exact Prog.all_bind (all_createEvaluation payload) fun _ => trivial
  | schedulerRunOnce => exact Prog.all_bind (all_schedulerRunOnce env) fun _ => trivial
  | recoveryRunOnce => exact Prog.all_bind all_recoveryRunOnce fun _ => trivial
  | relayOnce => exact Prog.all_bind all_relayOnce fun _ => trivial
  | processJobMessage j w => exact Prog.all_bind (all_processJobMessage env j w) fun _ => trivial
  | workerRunOnce w => exact Prog.all_bind (all_workerRunOnce env w) fun _ => trivial
  | uploadArtifact data uploader =>
      exact Prog.all_bind (all_uploadArtifact env data uploader) fun _ => trivial
  | renewUploadLease a uploader =>
      exact Prog.all_perform_bind.mpr ⟨inside_plain rfl rfl, fun _ => trivial⟩
  | reconcileOnce =>
      refine Prog.all_bind ?_ fun _ => trivial
      exact Prog.all_perform_bind.mpr ⟨inside_plain rfl rfl, fun pending => all_reconcileAll _ 0 0⟩
  | createDataset name => exact Prog.all_perform_bind.mpr ⟨inside_plain rfl rfl, fun _ => trivial⟩
  | createDatasetVersion d data uploader =>
      exact Prog.all_bind (all_createDatasetVersion env d data uploader) fun _ => trivial
  | createModel name => exact Prog.all_perform_bind.mpr ⟨inside_plain rfl rfl, fun _ => trivial⟩
  | registerVersion m a trainingRunId =>
      exact Prog.all_bind (all_registerVersion m a trainingRunId) fun _ => trivial
  | evaluateQualityGate runId gate =>
      exact Prog.all_bind (all_evaluateQualityGate runId gate) fun _ => trivial

theorem all_program (env : Env) (call : Call) : (call.program env).All (Op.Within call.role) :=
  Prog.all_mono (fun _ hop => hop.1) (inside_program env call)

/-- Without PATCH requests no statement sets a status that its caller chose. -/
theorem not_transition_of_noPatch {env : Env} {s : World} {es : List (SysEvent env)}
    (h : Runs.Always Config.step NoPatch ({ shared := s } : System env) es) :
    Runs.Always Config.step (Meets fun op _ _ => op.role ≠ .patch) ({ shared := s } : System env)
      es := by
  refine Config.atStep_of_begins (φ := fun op => op.role ≠ .patch) (fun call hcall => ?_) ?_ h
  · refine Prog.all_mono (fun op hop => ?_) (all_program env call)
    refine hop.role_ne ?_ (by decide) (by decide)
    cases call with
    | updateJob j status config => exact absurd trivial hcall
    | _ => simp [Call.role]
  · intro p t ht
    cases ht

end PosttrainPlatform
