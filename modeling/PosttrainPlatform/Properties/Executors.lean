import PosttrainPlatform.Properties.Acknowledgement
import PosttrainPlatform.Properties.Roles

/-!
# Which executor runs a job

`create_training_run` and `create_evaluation` commit the job, which can then be scheduled and claimed,
before the row that tells a worker what kind of job it is.  The contract `dispatching` says what holds
as long as no worker looks a job up in between and the creating call gets through: the simulated
executor never runs on the job of a run.
-/

namespace PosttrainPlatform

open Programs Service

/-! ### The journal -/

namespace World

/-- Thread `p` has created job `j`. -/
def Created (s : World) (p : ℕ) (origin : Origin) (j : JobId) : Prop :=
  Obs.created p origin j ∈ s.journal

def Started (s : World) (executor : Executor) (j : JobId) : Prop :=
  Obs.attemptStarted executor j ∈ s.journal

/-- Job `j` was created by `create_training_run` or `create_evaluation`. -/
def OfRun (s : World) (j : JobId) : Prop := ∃ p origin, s.Created p origin j ∧ origin ≠ .api

/-- `run_training_attempt` or `run_evaluation_attempt` has run for job `j`. -/
def Executed (s : World) (j : JobId) : Prop := s.Started .training j ∨ s.Started .evaluation j

end World

/-- **What a statement can write to the journal.** -/
theorem perform_journal (env : Env) (p : ℕ) (i : Input) (s : World) (op : Op) :
    (op.perform env p i s).1.journal = s.journal ∨
      (∃ origin jobType config priority, op = .createJob origin jobType config priority ∧
        s.db.jobs.lookup i.uuid = none ∧
        (∃ job, (op.perform env p i s).1.db.jobs.lookup i.uuid = some job ∧ job.New) ∧
        (op.perform env p i s).1.journal = .created p origin i.uuid :: s.journal) ∨
      ∃ executor j, op = .beginAttempt executor j ∧
        (op.perform env p i s).1.journal = .attemptStarted executor j :: s.journal := by
  cases op
  case createJob origin jobType config priority =>
      obtain h | ⟨hj, h⟩ := perform_createJob env p i s origin jobType config priority <;> rw [h]
      · exact Or.inl rfl
      · refine Or.inr (Or.inl ⟨origin, jobType, config, priority, rfl, hj, ?_, rfl⟩)
        exact ⟨_, AList.lookup_insert _, rfl, rfl, rfl, rfl, rfl, rfl, rfl⟩
  case beginAttempt executor j => exact Or.inr (Or.inr ⟨executor, j, rfl, rfl⟩)
  case cancel | reserve | insertDecision | reclaim | insertAttempt | finalize | createTrainingRun |
    createEvaluationRun | createPending | recordResumeDecision | recordMetric | updateConfig |
    registerCheckpoint | registerOutput | markRunStatus | recordResult | recordEvaluationMetric |
    createDataset | createDatasetVersion | createModel | createModelVersion | recordGateResult =>
      refine Or.inl ?_
      rw [perform_beside env p i s rfl]
  case findTrainingRun | findEvaluationRun | download | readFile | objectSize =>
      refine Or.inl ?_
      simp only [Op.perform, World.readOne]
      split <;> rfl
  all_goals exact Or.inl rfl

/-- **A job becomes SUCCEEDED by a finalisation**, or by a PATCH. -/
theorem JobStep.succeeded {env : Env} {c : Core} {i : Input} {op : Op} {j : JobId} {v v' : JobView}
    (h : JobStep env c i j op v v') (hrole : op.role ≠ .patch) (hs : v'.job.status = .succeeded) :
    v.job.status = .succeeded ∨ ∃ w k, op = .finalize j w k .succeeded := by
  cases h with
  | skip | setCancelRequested | updateConfig | softDelete | clearRetryDispatched | reserve =>
      exact Or.inl hs
  | transition => exact absurd rfl hrole
  | cancel | claim => cases hs
  | @finalize v w k ending rows' letter' hown =>
      cases ending with
      | succeeded => exact Or.inr ⟨w, k, rfl⟩
      | cancelled | retry | failed => cases hs
  | reclaim =>
      simp only [Job.reclaimed, JobsRepo.reclaimedStatus] at hs
      split at hs
      · cases hs
      · split at hs <;> cases hs

/-! ### The contract -/

/-- Jobs of runs are not simulated, and do not succeed without their own executor. -/
structure OwnExecutor (s : World) : Prop where
  created : ∀ p origin j, s.Created p origin j → s.db.Exists j
  started : ∀ executor j, s.Started executor j → s.db.Exists j
  notSimulated : ∀ j, s.OfRun j → ¬ s.Started .simulated j
  executed : ∀ j job, s.OfRun j → s.db.jobs.lookup j = some job → job.status = .succeeded →
    s.Executed j

/-- What the other threads do: jobs stay, nobody creates a job twice, the journal grows, and nobody
else creates jobs as thread `p`. -/
structure Dispatches (p : ℕ) (s s' : World) : Prop where
  persists : ∀ j, s.db.Exists j → s'.db.Exists j
  created : ∀ q origin j, s.db.Exists j → s'.Created q origin j → s.Created q origin j
  executed : ∀ j, s.Executed j → s'.Executed j
  own : ∀ origin j, s'.Created p origin j → s.Created p origin j

/-- A lookup of the run of a job comes after the commit of the run; the insert of a run row is not
rejected. -/
def LooksUpInTime : Op → Input → World → Prop
  | .findTrainingRun j, _, s => ∀ p, s.Created p .trainingRun j →
      ∃ r ∈ s.db.trainingRuns.rows, r.2.jobId = j
  | .findEvaluationRun j, _, s => ∀ p, s.Created p .evaluation j →
      ∃ r ∈ s.db.evaluationRuns.rows, r.2.jobId = j
  | .createTrainingRun row, i, s => s.db.trainingRuns.lookup i.uuid = none ∧
      Json.fieldsStorable row.trainingConfig = true
  | .createEvaluationRun _, i, s => s.db.evaluationRuns.lookup i.uuid = none
  | _, _, _ => True

/-- The statement is not the insert of a run row. -/
def Op.NotRunInsert : Op → Prop
  | .createTrainingRun _ => False
  | .createEvaluationRun _ => False
  | _ => True

section Decidable

instance (s : World) (p : ℕ) (origin : Origin) (j : JobId) : Decidable (s.Created p origin j) :=
  inferInstanceAs (Decidable (_ ∈ s.journal))

instance (s : World) (executor : Executor) (j : JobId) : Decidable (s.Started executor j) :=
  inferInstanceAs (Decidable (_ ∈ s.journal))

instance (s : World) (j : JobId) : Decidable (s.Executed j) :=
  inferInstanceAs (Decidable (_ ∨ _))

def Obs.creates (origin : Origin) (j : JobId) : Obs → Bool
  | .created _ o i => decide (o = origin ∧ i = j)
  | .attemptStarted .. => false

/-- A condition on everybody who has created a job. -/
instance (s : World) (origin : Origin) (j : JobId) (q : Prop) [Decidable q] :
    Decidable (∀ p, s.Created p origin j → q) :=
  decidable_of_iff (∀ o ∈ s.journal, o.creates origin j = true → q) <| by
    constructor
    · exact fun h p hp => h _ hp (decide_eq_true ⟨rfl, rfl⟩)
    · rintro h (⟨p, o, i⟩ | ⟨executor, i⟩) hmem hcreates
      · obtain ⟨rfl, rfl⟩ := of_decide_eq_true hcreates
        exact h p hmem
      · cases hcreates

def LooksUpInTime.check (i : Input) (s : World) : Op → Bool
  | .findTrainingRun j => decide (∀ p, s.Created p .trainingRun j →
      ∃ r ∈ s.db.trainingRuns.rows, r.2.jobId = j)
  | .findEvaluationRun j => decide (∀ p, s.Created p .evaluation j →
      ∃ r ∈ s.db.evaluationRuns.rows, r.2.jobId = j)
  | .createTrainingRun row => decide (s.db.trainingRuns.lookup i.uuid = none ∧
      Json.fieldsStorable row.trainingConfig = true)
  | .createEvaluationRun _ => decide (s.db.evaluationRuns.lookup i.uuid = none)
  | _ => true

theorem LooksUpInTime.check_iff {op : Op} {i : Input} {s : World} :
    check i s op = true ↔ LooksUpInTime op i s := by
  cases op
  case findTrainingRun | findEvaluationRun | createTrainingRun | createEvaluationRun =>
      exact decide_eq_true_iff
  all_goals exact iff_of_true rfl trivial

instance (op : Op) (i : Input) (s : World) : Decidable (LooksUpInTime op i s) :=
  decidable_of_iff _ LooksUpInTime.check_iff

instance {env : Env} (c : System env) (e : SysEvent env) :
    Decidable (Config.AtStep LooksUpInTime c e) := inferInstance

def Op.insertsRun : Op → Bool
  | .createTrainingRun _ | .createEvaluationRun _ => true
  | _ => false

theorem Op.insertsRun_iff {op : Op} : op.insertsRun = false ↔ op.NotRunInsert := by
  cases op
  case createTrainingRun | createEvaluationRun => exact iff_of_false (fun h => by cases h) fun h => h
  all_goals exact iff_of_true rfl trivial

instance : DecidablePred Op.NotRunInsert := fun _ => decidable_of_iff _ Op.insertsRun_iff

end Decidable

/-- The calls that create the job of a run. -/
def Call.CreatesRun : Call → Prop
  | .createTrainingRun _ => True
  | .createEvaluation _ => True
  | _ => False

/-- Thread `p` has created no job. -/
def World.Idle (s : World) (p : ℕ) : Prop := ∀ origin j, ¬ s.Created p origin j

def dispatching (env : Env) : Contract (platform env) where
  inv := OwnExecutor
  rely := Dispatches
  mayCall call := ¬ call.IsPatch
  mayStep := LooksUpInTime
  mayFail op _ := op.NotRunInsert
  idle p s := s.Idle p
  post p call outcome s := call.CreatesRun → (∀ r, outcome ≠ .returned r) → s.Idle p

variable {env : Env}

theorem Dispatches.refl (p : ℕ) (s : World) : Dispatches p s s :=
  ⟨fun _ h => h, fun _ _ _ _ h => h, fun _ h => h, fun _ _ h => h⟩

theorem Dispatches.trans {p : ℕ} {s₁ s₂ s₃ : World} (h : Dispatches p s₁ s₂)
    (h' : Dispatches p s₂ s₃) : Dispatches p s₁ s₃ where
  persists j hj := h'.persists j (h.persists j hj)
  created q origin j hj hc := h.created q origin j hj (h'.created q origin j (h.persists j hj) hc)
  executed j hj := h'.executed j (h.executed j hj)
  own origin j hc := h.own origin j (h'.own origin j hc)

theorem Dispatches.ofRun {p : ℕ} {s s' : World} (h : Dispatches p s s') {j : JobId}
    (hj : s.db.Exists j) (hr : s'.OfRun j) : s.OfRun j := by
  obtain ⟨q, origin, hc, ho⟩ := hr
  exact ⟨q, origin, h.created q origin j hj hc, ho⟩

/-- What a statement has to make sure of before it is executed. -/
structure Op.Accounted (op : Op) (s : World) : Prop where
  notPatch : op.role ≠ .patch
  started : ∀ executor j, op = .beginAttempt executor j → s.db.Exists j
  simulated : ∀ j, op = .beginAttempt .simulated j → ¬ s.OfRun j
  finalized : ∀ j w k, op = .finalize j w k .succeeded → s.OfRun j → s.Executed j

/-- A change that leaves the journal alone. -/
theorem dispatching_of_journal {p : ℕ} {s s' : World} (hI : OwnExecutor s)
    (hjournal : s'.journal = s.journal) (hexists : ∀ j, s.db.Exists j → s'.db.Exists j)
    (hsucceeded : ∀ j job', s.OfRun j → s'.db.jobs.lookup j = some job' →
      job'.status = .succeeded → s.Executed j) : (dispatching env).Guarantee p s s' := by
  have hcreated : ∀ q origin j, s'.Created q origin j ↔ s.Created q origin j := fun q origin j => by
    unfold World.Created
    rw [hjournal]
  have hstarted : ∀ executor j, s'.Started executor j ↔ s.Started executor j := fun executor j => by
    unfold World.Started
    rw [hjournal]
  have hofRun : ∀ j, s'.OfRun j ↔ s.OfRun j := fun j => by
    unfold World.OfRun
    simp only [hcreated]
  have hexecuted : ∀ j, s'.Executed j ↔ s.Executed j := fun j => by
    unfold World.Executed
    rw [hstarted, hstarted]
  refine ⟨⟨fun q origin j h => ?_, fun executor j h => ?_, fun j h => ?_, fun j job h hj hs => ?_⟩,
    fun q _ => ⟨hexists, fun q origin j _ h => (hcreated q origin j).mp h,
      fun j h => (hexecuted j).mpr h, fun origin j h => (hcreated _ origin j).mp h⟩⟩
  · exact hexists j (hI.created q origin j ((hcreated q origin j).mp h))
  · exact hexists j (hI.started executor j ((hstarted executor j).mp h))
  · rw [hstarted]
    exact hI.notSimulated j ((hofRun j).mp h)
  · exact (hexecuted j).mpr (hsucceeded j job ((hofRun j).mp h) hj hs)

theorem exists_perform {op : Op} (p : ℕ) (i : Input) {s : World} {j : JobId} (hj : s.db.Exists j) :
    (op.perform env p i s).1.db.Exists j := hj.step (perform_core env p i s op).rows

/-- **An accounted statement keeps the contract.** -/
theorem dispatching_guarantee {p : ℕ} {op : Op} {s : World} (i : Input) (hI : OwnExecutor s)
    (hop : op.Accounted s) : (dispatching env).Guarantee p s (op.perform env p i s).1 := by
  have hexists : ∀ j, s.db.Exists j → (op.perform env p i s).1.db.Exists j := fun j hj =>
    exists_perform p i hj
  have hsucceeded : ∀ j job', s.OfRun j →
      (op.perform env p i s).1.db.jobs.lookup j = some job' → job'.status = .succeeded →
      s.Executed j := by
    intro j job' hr hj' hs
    obtain ⟨q, origin, hc, _⟩ := id hr
    obtain ⟨job, hj⟩ := hI.created q origin j hc
    have hmove := (perform_core env p i s op).views.moves j _ _
      (Core.view_of_lookup (c := s.db.core) hj)
      (Core.view_of_lookup (c := (op.perform env p i s).1.db.core) hj')
    obtain hold | ⟨w, k, hfin⟩ := hmove.succeeded hop.notPatch hs
    · exact hI.executed j job hr hj hold
    · exact hop.finalized j w k hfin hr
  obtain hjournal | ⟨origin, jobType, config, priority, rfl, hfresh, ⟨job, hjob, hnew⟩, hjournal⟩ |
    ⟨executor, j, rfl, hjournal⟩ := perform_journal env p i s op
  · exact dispatching_of_journal hI hjournal hexists hsucceeded
  · -- a new job: nothing has been recorded under its id
    generalize (Op.perform env p i s (.createJob origin jobType config priority)).1 = s' at *
    have hno : ¬ s.db.Exists i.uuid := by
      rintro ⟨row, hrow⟩
      rw [hfresh] at hrow
      cases hrow
    have hcreated : ∀ q o m, s'.Created q o m ↔
        (q = p ∧ o = origin ∧ m = i.uuid) ∨ s.Created q o m := by
      intro q o m
      unfold World.Created
      rw [hjournal, List.mem_cons, Obs.created.injEq]
    have hstarted : ∀ e m, s'.Started e m ↔ s.Started e m := by
      intro e m
      unfold World.Started
      rw [hjournal, List.mem_cons]
      simp
    have hofRun : ∀ m, m ≠ i.uuid → s'.OfRun m → s.OfRun m := by
      rintro m hm ⟨q, o, hc, ho⟩
      exact ⟨q, o, ((hcreated q o m).mp hc).resolve_left fun h => hm h.2.2, ho⟩
    refine ⟨⟨fun q o m hc => ?_, fun e m he => ?_, fun m hm hsim => ?_, fun m row hm hrow hs => ?_⟩,
      fun q hq => ⟨hexists, fun r o m hm hc => ?_, fun m hm => ?_, fun o m hc => ?_⟩⟩
    · obtain ⟨_, _, rfl⟩ | hc := (hcreated q o m).mp hc
      · exact ⟨job, hjob⟩
      · exact hexists m (hI.created q o m hc)
    · exact hexists m (hI.started e m ((hstarted e m).mp he))
    · rw [hstarted] at hsim
      by_cases heq : m = i.uuid
      · exact hno (heq ▸ hI.started _ m hsim)
      · exact hI.notSimulated m (hofRun m heq hm) hsim
    · by_cases heq : m = i.uuid
      · rw [heq, hjob] at hrow
        cases hrow
        rw [hnew.1] at hs
        cases hs
      · have hexe := hsucceeded m row (hofRun m heq hm) hrow hs
        unfold World.Executed at hexe ⊢
        rwa [hstarted, hstarted]
    · refine ((hcreated r o m).mp hc).resolve_left fun h => hno (h.2.2 ▸ hm)
    · unfold World.Executed at hm ⊢
      rwa [hstarted, hstarted]
    · exact ((hcreated q o m).mp hc).resolve_left fun h => hq h.1
  · have hcreated : ∀ q o m, (s.log (.attemptStarted executor j)).Created q o m ↔
        s.Created q o m := by
      intro q o m
      simp [World.Created, World.log]
    have hstarted : ∀ e m, (s.log (.attemptStarted executor j)).Started e m ↔
        (e = executor ∧ m = j) ∨ s.Started e m := by
      intro e m
      simp [World.Started, World.log]
    have hofRun : ∀ m, (s.log (.attemptStarted executor j)).OfRun m ↔ s.OfRun m := by
      intro m
      unfold World.OfRun
      simp only [hcreated]
    have hexecuted : ∀ m, s.Executed m → (s.log (.attemptStarted executor j)).Executed m := by
      intro m hm
      unfold World.Executed at hm ⊢
      rw [hstarted, hstarted]
      exact hm.imp Or.inr Or.inr
    refine ⟨⟨fun q o m hc => ?_, fun e m he => ?_, fun m hm hsim => ?_, fun m row hm hrow hs => ?_⟩,
      fun q _ => ⟨hexists, fun r o m _ hc => (hcreated r o m).mp hc, hexecuted,
        fun o m hc => (hcreated q o m).mp hc⟩⟩
    · exact hI.created q o m ((hcreated q o m).mp hc)
    · obtain ⟨_, rfl⟩ | he := (hstarted e m).mp he
      · exact hop.started executor _ rfl
      · exact hI.started e m he
    · obtain ⟨rfl, rfl⟩ | hsim := (hstarted _ m).mp hsim
      · exact hop.simulated _ rfl ((hofRun _).mp hm)
      · exact hI.notSimulated m ((hofRun m).mp hm) hsim
    · exact hexecuted m (hsucceeded m row ((hofRun m).mp hm) hrow hs)

/-! ### Programs that leave the executors alone -/

theorem accounted_of_role {op : Op} {s : World} (h : op.role ≠ .execute) (h' : op.role ≠ .patch) :
    op.Accounted s where
  notPatch := h'
  started executor j hop := by
    rw [hop] at h
    exact absurd rfl h
  simulated j hop := by
    rw [hop] at h
    exact absurd rfl h
  finalized j w k hop := by
    rw [hop] at h
    exact absurd rfl h

section Rules

variable {p : ℕ} {call : Call} {s : World} {α : Type}

theorem keeps_of_within {ρ : Role} (hρ : ρ ≠ .execute) (hρ' : ρ ≠ .patch) {op : Op}
    (h : op.Within ρ) : (dispatching env).Keeps p call op := fun s i hI _ =>
  dispatching_guarantee i hI (accounted_of_role (h.role_ne hρ (by decide) (by decide))
    (h.role_ne hρ' (by decide) (by decide)))

/-- A call that creates no run may end anyhow. -/
theorem post_of_not_createsRun (hcall : ¬ call.CreatesRun) (o : Outcome Exn Reply) (s : World) :
    (dispatching env).post p call o s := fun h => absurd h hcall

theorem World.Idle.perform {op : Op} {i : Input} (h : s.Idle p) (hop : op.role ≠ .create) :
    (op.perform env p i s).1.Idle p := by
  intro origin j hc
  obtain hjournal | ⟨o, jobType, config, priority, rfl, _⟩ | ⟨executor, m, rfl, hjournal⟩ :=
    perform_journal env p i s op
  · refine h origin j ?_
    unfold World.Created at hc ⊢
    rwa [hjournal] at hc
  · exact hop rfl
  · refine h origin j ?_
    unfold World.Created at hc ⊢
    simpa [hjournal] using hc

theorem World.Idle.stable {s' : World} (h : s.Idle p) (hR : Dispatches p s s') : s'.Idle p :=
  fun origin j hc => h origin j (hR.own origin j hc)

/-! ### The calls that create the job of a run -/

/-- The checks create nothing. -/
theorem safe_of_idle {prog : Service α} (h : prog.All (Op.Inside .plain .any)) (hs : s.Idle p) :
    (dispatching env).Safe p call (fun _ s => s.Idle p) prog s := by
  refine Contract.safe_of_stable (R := fun s : World => s.Idle p) h ?_
    (fun s s' hs hR _ => hs.stable hR) (fun s hs _ _ _ => hs) (fun r s hs => hs) hs
  intro op i s hop hs hI hm
  have hkeep : (dispatching env).Keeps p call op :=
    keeps_of_within (by decide) (by decide) hop.1
  exact ⟨hkeep s i hI hm,
    hs.perform (hop.1.role_ne (by decide) (by decide) (by decide))⟩

/-- Where the insert of the run cannot fail, only a call that has created nothing ends without a
result. -/
theorem safe_insertJob {origin : Origin} {payload : JobCreate} {f : JobId → Service α}
    (hf : ∀ j s, (dispatching env).Safe p call
      (fun r s => (∀ a, r ≠ .ok a) → s.Idle p) (f j) s) (hs : s.Idle p) :
    (dispatching env).Safe p call (fun r s => (∀ a, r ≠ .ok a) → s.Idle p)
      (createJob origin payload >>= f) s := by
  intro s₁ hR hI
  have hidle : s₁.Idle p := hs.stable hR
  refine ⟨fun i hm => ⟨?_, ?_⟩, fun _ => ⟨fun e _ => hidle, fun _ _ => hidle⟩⟩
  · exact keeps_of_within (ρ := .create) (by decide) (by decide) (within_role rfl) s₁ i hI hm
  · obtain h | ⟨_, h⟩ := perform_createJob env p i s₁ origin payload.jobType payload.config
      payload.priority
    · simp only [platform, h]
      exact fun _ => hidle
    · simp only [platform, h]
      exact hf i.uuid _

/-- A run row under a fresh id goes in. -/
theorem safe_insertRun {op : Op} (hrole : op.role = .create) (hop : ¬ op.NotRunInsert)
    (hanswer : ∀ i s, LooksUpInTime op i s → ∃ a, (op.perform env p i s).2 = .ok a) :
    (dispatching env).Safe p call (fun r s => (∀ a, r ≠ .ok a) → s.Idle p) (exec op) s := by
  intro s₁ hR hI
  refine ⟨fun i hm => ⟨?_, ?_⟩, fun h => absurd h hop⟩
  · exact keeps_of_within (ρ := .create) (by decide) (by decide) (within_role hrole) s₁ i hI hm
  · obtain ⟨a, ha⟩ := hanswer i s₁ hm
    simp only [platform, ha]
    exact fun h => absurd rfl (h a)

theorem safe_createTrainingRun (payload : TrainingRunCreate) (hs : s.Idle p) :
    (dispatching env).Safe p call (fun r s => (∀ a, r ≠ .ok a) → s.Idle p)
      (createTrainingRun payload) s := by
  refine (safe_of_idle (all_checkTrainingRun payload) hs).bind (fun _ s hs => ?_)
    fun e s hs _ => hs
  refine safe_insertJob (fun j s => safe_insertRun rfl (fun h => h) ?_) hs
  intro i s hm
  refine ⟨i.uuid, ?_⟩
  obtain ⟨hnone, hstorable⟩ := hm
  simp only [Op.perform, World.storing, TrainingRunsRepo.create, Table.insertNew, hnone, hstorable]
  rfl

theorem safe_createEvaluation (payload : EvaluationCreate) (hs : s.Idle p) :
    (dispatching env).Safe p call (fun r s => (∀ a, r ≠ .ok a) → s.Idle p)
      (createEvaluation payload) s := by
  refine (safe_of_idle (all_checkEvaluation payload) hs).bind (fun _ s hs => ?_)
    fun e s hs _ => hs
  refine safe_insertJob (fun j s => safe_insertRun rfl (fun h => h) ?_) hs
  intro i s hm
  refine ⟨i.uuid, ?_⟩
  have hnone : s.db.evaluationRuns.lookup i.uuid = none := hm
  simp only [Op.perform, EvaluationRunsRepo.create, Table.insertNew, hnone]
  rfl

/-! ### Workers -/

/-- What the worker of job `j` has made sure of after the body. -/
def World.Served (s : World) (j : JobId) : Prop := s.db.Exists j ∧ (s.OfRun j → s.Executed j)

theorem World.Served.stable {q : ℕ} {s' : World} {j : JobId} (h : s.Served j)
    (hR : Dispatches q s s') : s'.Served j :=
  ⟨hR.persists j h.1, fun hr => hR.executed j (h.2 (hR.ofRun h.1 hr))⟩

/-- What the others rely on, the thread itself can rely on too. -/
theorem dispatches_of_guarantee {s' : World} (h : (dispatching env).Guarantee p s s') :
    ∃ q, Dispatches q s s' := ⟨p + 1, h.2 (p + 1) p.succ_ne_self⟩

/-- Nothing of the origin has created job `j`. -/
def World.NotFrom (s : World) (origin : Origin) (j : JobId) : Prop := ∀ q, ¬ s.Created q origin j

theorem World.NotFrom.stable {q : ℕ} {s' : World} {origin : Origin} {j : JobId}
    (h : s.NotFrom origin j) (hj : s.db.Exists j) (hR : Dispatches q s s') : s'.NotFrom origin j :=
  fun r hc => h r (hR.created r origin j hj hc)

/-- The statements of a body after its begin, and of the end of an attempt, keep a served job
served. -/
theorem safe_of_served {φ : Op → Prop} {j : JobId} (hcall : ¬ call.CreatesRun) {prog : Service α}
    (h : prog.All φ) (hφ : ∀ op s, φ op → World.Served s j → op.Accounted s) (hs : s.Served j) :
    (dispatching env).Safe p call (fun _ s => s.Served j) prog s := by
  refine Contract.safe_of_stable (R := fun s : World => s.Served j) h ?_
    (fun s s' hs hR _ => hs.stable hR) (fun s _ _ => post_of_not_createsRun hcall _ _)
    (fun r s hs => hs) hs
  intro op i s hop hs hI _
  have hG : (dispatching env).Guarantee p s (op.perform env p i s).1 :=
    dispatching_guarantee i hI (hφ op s hop hs)
  obtain ⟨q, hR⟩ := dispatches_of_guarantee hG
  exact ⟨hG, hs.stable hR⟩

theorem accounted_of_within {ρ : Role} (hρ : ρ ≠ .execute) (hρ' : ρ ≠ .patch) {op : Op} {s : World}
    (h : op.Within ρ) : op.Accounted s :=
  accounted_of_role (h.role_ne hρ (by decide) (by decide)) (h.role_ne hρ' (by decide) (by decide))

/-- A body: its begin is accounted for, and serves the job. -/
theorem safe_body {executor : Executor} {j : JobId} (hcall : ¬ call.CreatesRun) {prog : Service α}
    (hprog : ∃ rest, prog = (exec (.beginAttempt executor j) >>= rest) ∧
      ∀ u, (rest u).All (Op.Inside .prepare .any)) (hj : s.db.Exists j)
    (hbegin : executor = .simulated → s.NotFrom .trainingRun j ∧ s.NotFrom .evaluation j) :
    (dispatching env).Safe p call (fun r s => ∀ x, r = .ok x → s.Served j) prog s := by
  obtain ⟨rest, rfl, hrest⟩ := hprog
  have hofRun : ∀ s₁, Dispatches p s s₁ → executor = .simulated → ¬ s₁.OfRun j := by
    rintro s₁ hR hsim ⟨q, origin, hc, ho⟩
    obtain ⟨ht, he⟩ := hbegin hsim
    cases origin with
    | api => exact ho rfl
    | trainingRun => exact ht.stable hj hR q hc
    | evaluation => exact he.stable hj hR q hc
  refine Contract.Safe.perform_bind (fun s₁ i hR hI _ => ?_)
    (fun _ _ => post_of_not_createsRun hcall _ _) (fun e s _ x h => by cases h) ?_
  · refine dispatching_guarantee i hI ⟨by simp [Op.role], ?_, ?_, ?_⟩
    · rintro _ _ heq
      cases heq
      exact hR.persists j hj
    · rintro _ heq
      cases heq
      exact hofRun s₁ hR rfl
    · rintro _ _ _ heq
      cases heq
  · intro s₁ i u hR _ _ _ _
    have hserved : (s₁.log (.attemptStarted executor j)).Served j := by
      refine ⟨hR.persists j hj, fun hr => ?_⟩
      have hr' : s₁.OfRun j := by
        obtain ⟨q, origin, hc, ho⟩ := hr
        exact ⟨q, origin, by simpa [World.Created, World.log] using hc, ho⟩
      cases executor with
      | simulated => exact absurd hr' (hofRun s₁ hR rfl)
      | training => exact Or.inl List.mem_cons_self
      | evaluation => exact Or.inr List.mem_cons_self
    refine (safe_of_served hcall (hrest u) ?_ hserved).mono fun r s hs x _ => hs
    exact fun op s hop _ => accounted_of_within (by decide) (by decide) hop.1

/-- A read, and the rest of the worker's program after it. -/
theorem safe_read_bind {Q : Except Exn α → World → Prop} {op : Op} {f : op.Ret → Service α}
    (hop : op.Within .prepare) (hcall : ¬ call.CreatesRun) (herr : ∀ e s, Q (.error e) s)
    (hread : ∀ i s, (op.perform env p i s).1 = s)
    (hk : ∀ s₁ i r, Dispatches p s s₁ → LooksUpInTime op i s₁ →
      (op.perform env p i s₁).2 = .ok r → (dispatching env).Safe p call Q (f r) s₁) :
    (dispatching env).Safe p call Q (exec op >>= f) s := by
  refine Contract.Safe.perform_bind (fun s₁ i _ hI hm => ?_)
    (fun _ _ => post_of_not_createsRun hcall _ _) (fun e s _ => herr e s) ?_
  · exact keeps_of_within (ρ := .prepare) (by decide) (by decide) hop s₁ i hI hm
  · intro s₁ i r hR _ hm _ hr
    have hstay : ((platform env).perform p call op i s₁).1 = s₁ := hread i s₁
    rw [hstay]
    exact hk s₁ i r hR hm hr

theorem eq_some_of_readOne {β : Type} {o : Option β} {b : β} (h : (s.readOne o).2 = .ok b) :
    o = some b := by
  cases o with
  | none => cases h
  | some a =>
      cases h
      rfl

/-- **The choice of the executor**: a job whose run is not found is no job of a run. -/
theorem safe_runBody {j : JobId} {w : WorkerId} {k : ℕ} (hcall : ¬ call.CreatesRun)
    (hj : s.db.Exists j) :
    (dispatching env).Safe p call (fun r s => ∀ x, r = .ok x → s.Served j) (runBody env j w k) s := by
  refine safe_read_bind (within_role rfl) hcall (fun e s x h => by cases h) ?_ ?_
  · intro i s
    simp only [Op.perform, World.readOne]
    split <;> rfl
  intro s₁ i run hR hm hr
  have hj₁ := hR.persists j hj
  cases run with
  | some run => exact safe_body hcall (all_trainingRest env _ _) hj₁ fun h => by cases h
  | none =>
      have htraining : s₁.NotFrom .trainingRun j := by
        intro q hc
        obtain ⟨row, hrow, hjob⟩ := hm q hc
        exact TrainingRunsRepo.ne_of_getByJobId (eq_some_of_readOne hr) hrow hjob
      refine safe_read_bind (within_role rfl) hcall (fun e s x h => by cases h) ?_ ?_
      · intro i s
        simp only [Op.perform, World.readOne]
        split <;> rfl
      intro s₂ i run hR₂ hm₂ hr₂
      have hj₂ := hR₂.persists j hj₁
      cases run with
      | some run =>
          refine (safe_body hcall (all_evaluationRest env _ _) hj₂ fun h => by cases h).bind
            (fun outcome s hs x _ => hs outcome rfl) fun e s _ x h => by cases h
      | none =>
          refine safe_body hcall (all_executorRest j) hj₂ fun _ => ⟨htraining.stable hj₁ hR₂, ?_⟩
          intro q hc
          obtain ⟨row, hrow, hjob⟩ := hm₂ q hc
          exact EvaluationRunsRepo.ne_of_getByJobId (eq_some_of_readOne hr₂) hrow hjob

theorem safe_conclude {j : JobId} {w : WorkerId} {k : ℕ} {outcome : AttemptOutcome}
    {loaded : Option Job} (hcall : ¬ call.CreatesRun) (hs : s.Served j) :
    (dispatching env).Safe p call (fun _ s => s.Served j) (conclude env j w k outcome loaded) s := by
  refine safe_of_served hcall (all_conclude (δ := .any) env j w k outcome loaded) (fun op s hop hs => ?_) hs
  obtain hplain | ⟨ending, rfl⟩ := hop
  · exact accounted_of_within (by decide) (by decide) hplain.1
  · refine ⟨by simp [Op.role], ?_, ?_, ?_⟩
    · rintro _ _ heq
      cases heq
    · rintro _ heq
      cases heq
    · rintro _ _ _ heq
      cases heq
      exact hs.2

/-- A statement by which the worker of job `j` prepares its attempt. -/
theorem safe_job_bind {Q : Except Exn α → World → Prop} {op : Op} {f : op.Ret → Service α}
    {j : JobId} (hop : op.Within .prepare) (hcall : ¬ call.CreatesRun)
    (herr : ∀ e s, Q (.error e) s) (hj : s.db.Exists j)
    (hk : ∀ r s, s.db.Exists j → (dispatching env).Safe p call Q (f r) s) :
    (dispatching env).Safe p call Q (exec op >>= f) s := by
  refine Contract.Safe.perform_bind (fun s₁ i _ hI hm => ?_)
    (fun _ _ => post_of_not_createsRun hcall _ _) (fun e s _ => herr e s) ?_
  · exact keeps_of_within (by decide) (by decide) hop s₁ i hI hm
  · intro s₁ i r hR _ _ _ _
    exact hk r _ (exists_perform p i (hR.persists j hj))

theorem safe_runAttempt {j : JobId} {w : WorkerId} {k : ℕ} (hcall : ¬ call.CreatesRun)
    (hj : s.db.Exists j) :
    (dispatching env).Safe p call (fun _ _ => True) (runAttempt env j w k) s := by
  refine safe_job_bind (within_plain rfl) hcall (fun _ _ => trivial) hj fun _ s hj => ?_
  refine safe_job_bind (within_role rfl) hcall (fun _ _ => trivial) hj fun _ s hj => ?_
  have hbody : (dispatching env).Safe p call (fun r s => ∀ x, r = .ok x → s.Served j)
      (Prog.ensuring (runBody env j w k) (exec .stopHeartbeat)) s := by
    refine (safe_runBody hcall hj).ensuring fun r s hs => ?_
    cases r with
    | error e =>
        refine Contract.safe_of_all (Prog.all_perform.mpr ?_) (fun _ _ => post_of_not_createsRun hcall _ _) ?_
        · exact keeps_of_within (ρ := .plain) (by decide) (by decide) (within_plain rfl)
        · rintro (e | u) s x h
          · cases h
          · cases h
    | ok x =>
        refine (safe_of_served hcall (φ := Op.Within .plain) (Prog.all_perform.mpr (within_plain rfl)) ?_ (hs x rfl)).mono
          fun o s hs _ _ => hs
        exact fun op s hop _ => accounted_of_within (by decide) (by decide) hop
  exact hbody.bind (fun x s hs => (safe_conclude hcall (hs x rfl)).mono fun _ _ _ => trivial)
    fun _ _ _ => trivial

theorem safe_processJobMessage {j : JobId} {w : WorkerId} (hcall : ¬ call.CreatesRun) :
    (dispatching env).Safe p call (fun _ _ => True) (processJobMessage env j w) s := by
  refine Contract.Safe.perform_bind (fun s₁ i _ hI hm => ?_)
    (fun _ _ => post_of_not_createsRun hcall _ _) (fun _ _ _ => trivial) ?_
  · exact keeps_of_within (ρ := .plain) (by decide) (by decide) (within_plain rfl) s₁ i hI hm
  intro s₁ i matched _ _ _ _ _
  cases matched with
  | false => exact trivial
  | true =>
      refine safe_read_bind (within_plain rfl) hcall (fun _ _ => trivial) (fun _ _ => rfl) ?_
      intro s₂ i row _ _ hr
      cases row with
      | none => exact trivial
      | some job =>
          have hget : JobsRepo.get s₂.db j = some job := Except.ok.inj hr
          exact safe_runAttempt hcall ⟨job, (Option.filter_eq_some_iff.mp hget).1⟩

theorem safe_workerRunOnce {w : WorkerId} (hcall : ¬ call.CreatesRun) :
    (dispatching env).Safe p call (fun _ _ => True) (workerRunOnce env w) s := by
  refine safe_read_bind (within_plain rfl) hcall (fun _ _ => trivial) (fun _ _ => rfl) ?_
  intro s₁ i message _ _ _
  cases message with
  | none => exact trivial
  | some message =>
      refine (safe_processJobMessage hcall).caught.bind (fun _ s _ => ?_) fun _ _ _ => trivial
      refine Contract.safe_of_all (Prog.all_perform.mpr ?_)
        (fun _ _ => post_of_not_createsRun hcall _ _) fun _ _ => trivial
      exact keeps_of_within (ρ := .plain) (by decide) (by decide) (within_plain rfl)

end Rules

/-! ### Every run -/

theorem dispatching_beat (s : World) (p q : ℕ) (now : Time) (hI : OwnExecutor s) :
    (dispatching env).Guarantee q s (s.beat env p now) := by
  have hjournal : (s.beat env p now).journal = s.journal := by
    rw [beat_frame]
  refine dispatching_of_journal hI hjournal (fun j hj => hj.step (beat_rows env s p now)) ?_
  intro j job' hr hj' hs
  obtain hsame | ⟨job, w, k, t, hj, _, hmoved⟩ := beat_lookup env s p now j
  · rw [hsame] at hj'
    exact hI.executed j job' hr hj' hs
  · rw [hmoved] at hj'
    cases hj'
    exact hI.executed j job hr hj hs

theorem dispatching_sound (env : Env) : (dispatching env).Sound where
  rely_refl := Dispatches.refl
  rely_trans _ _ _ _ h h' := h.trans h'
  ambient a s hI :=
    ⟨(dispatching_beat s a.1 a.1 a.2 hI).1, fun p =>
      (dispatching_beat s a.1 (p + 1) a.2 hI).2 p p.succ_ne_self.symm⟩
  halt p s hI := dispatching_of_journal hI rfl (fun _ hj => hj) fun j job hr hj hs =>
    hI.executed j job hr hj hs
  idle_stable _ _ _ h hR := h.stable hR
  post_stable _ _ _ _ _ h hR _ hcall ho := (h hcall ho).stable hR
  safe p call s hcall hI hidle := by
    have hplain : call.role ≠ .execute → call.role ≠ .patch → ¬ call.CreatesRun →
        (dispatching env).Safe p call (fun r => (dispatching env).post p call (.ofExcept r))
          (call.program env) s := by
      intro hρ hρ' hruns
      refine Contract.safe_of_all (Prog.all_mono (fun op hop => keeps_of_within hρ hρ' hop)
        (all_program env call)) ?_ ?_
      · exact fun _ _ => post_of_not_createsRun hruns _ _
      · exact fun _ _ => post_of_not_createsRun hruns _ _
    cases call with
    | createTrainingRun payload =>
        refine (safe_createTrainingRun payload hidle).bind (fun _ s _ _ h => ?_) fun e s hs _ _ => ?_
        · exact absurd rfl (h .ok)
        · exact hs fun a h => by cases h
    | createEvaluation payload =>
        refine (safe_createEvaluation payload hidle).bind (fun _ s _ _ h => ?_) fun e s hs _ _ => ?_
        · exact absurd rfl (h .ok)
        · exact hs fun a h => by cases h
    | processJobMessage j w =>
        have hruns : ¬ (Call.processJobMessage j w).CreatesRun := fun h => h
        refine (safe_processJobMessage hruns).bind (fun _ _ _ => ?_) fun _ _ _ => ?_
        · exact post_of_not_createsRun hruns _ _
        · exact post_of_not_createsRun hruns _ _
    | workerRunOnce w =>
        have hruns : ¬ (Call.workerRunOnce w).CreatesRun := fun h => h
        refine (safe_workerRunOnce hruns).bind (fun _ _ _ => ?_) fun _ _ _ => ?_
        · exact post_of_not_createsRun hruns _ _
        · exact post_of_not_createsRun hruns _ _
    | updateJob j status config => exact absurd trivial hcall
    | createJob | schedulerRunOnce | cancelJob | deleteJob | recoveryRunOnce | relayOnce
    | uploadArtifact | renewUploadLease | reconcileOnce | createDataset | createDatasetVersion
    | createModel | registerVersion | evaluateQualityGate =>
        exact hplain (by simp [Call.role]) (by simp [Call.role]) fun h => h

/-- A thread whose call is over without a result: it raised, or it was cut off. -/
def Failed (t : Thread (platform env)) : Prop := t.alive = false ∨ ∃ e, t.prog = .raise e

/-- **In a run whose workers look runs up in time, and whose run rows go in once their job is
committed, the jobs of runs are left to their own executors**: they are never simulated, they do not
succeed before their executor has run, and a creating call that fails leaves no job behind. -/
theorem jobs_of_runs_keep_their_executor {s : World} {es : List (SysEvent env)} {c : System env}
    (h : Reaches s es c)
    (hpatch : Runs.Always Config.step NoPatch ({ shared := s } : System env) es)
    (hlook : Runs.Always Config.step (Config.AtStep LooksUpInTime) ({ shared := s } : System env) es)
    (hinsert : Runs.Always Config.step (Config.AtFailure fun op _ => op.NotRunInsert)
      ({ shared := s } : System env) es) :
    (∀ j, c.shared.OfRun j → ¬ c.shared.Started .simulated j) ∧
    (∀ j job, c.shared.OfRun j → c.shared.db.jobs.lookup j = some job → job.status = .succeeded →
      c.shared.Executed j) ∧
    ∀ p t, c.threads p = some t → t.call.CreatesRun → Failed t → c.shared.Idle p := by
  have hempty : s.journal = [] := by rw [h.1.rest]
  have hstart : (dispatching env).Valid ({ shared := s } : System env) := by
    refine Contract.valid_of_unstarted ⟨?_, ?_, ?_, ?_⟩ fun p origin j hc => ?_
    · intro p origin j hc
      rw [World.Created, hempty] at hc
      cases hc
    · intro executor j hc
      rw [World.Started, hempty] at hc
      cases hc
    · intro j _ hc
      rw [World.Started, hempty] at hc
      cases hc
    · intro j job hr
      obtain ⟨p, origin, hc, _⟩ := hr
      rw [World.Created, hempty] at hc
      cases hc
    · rw [World.Created, hempty] at hc
      cases hc
  have hallow : Runs.Always Config.step (dispatching env).Allows ({ shared := s } : System env) es :=
    Runs.always_and hpatch (Runs.always_and hlook hinsert)
  obtain ⟨hI, hthreads⟩ := Contract.valid_run (dispatching_sound env) hstart hallow h.2
  refine ⟨hI.notSimulated, hI.executed, fun p t ht hruns hfailed => ?_⟩
  have hthread := hthreads p
  rw [ht] at hthread
  obtain ⟨call, prog, alive⟩ := t
  cases alive with
  | false => exact hthread hruns fun r h => by cases h
  | true =>
      obtain hdead | ⟨e, rfl⟩ := hfailed
      · cases hdead
      · exact hthread hruns fun r h => by cases h

/-- The worker runs between the two commits of `create_training_run`. -/
def workerBetweenCommits : List (SysEvent Env.standard) :=
  session 0 (.createTrainingRun trainingPayload) 2 { uuid := 1 } ++ session 1 .schedulerRunOnce 8 {} ++
    session 2 (.processJobMessage 1 7) 12 {} ++ proceed 0 1 { uuid := 2 }

/-- **The job of a training run is simulated and SUCCEEDED**, without any training. -/
theorem training_job_simulated : ∃ c : System Env.standard,
    Reaches World.registry workerBetweenCommits c ∧ c.shared.Created 0 .trainingRun 1 ∧
      c.shared.Started .simulated 1 ∧ ¬ c.shared.Executed 1 ∧
      (∃ job ∈ c.shared.db.jobs.lookup 1, job.status = .succeeded) ∧
      ∃ run ∈ c.shared.db.trainingRuns.lookup 2, run.jobId = 1 :=
  exists_reaches World.registry_initial _ (by decide +kernel)

/-- The call dies between its two commits, and leaves its job behind. -/
theorem failed_call_leaves_job : ∃ c : System Env.standard,
    Reaches World.registry
      (session 0 (.createTrainingRun trainingPayload) 2 { uuid := 1 } ++ [.crash 0]) c ∧
      c.shared.Created 0 .trainingRun 1 ∧
      ∃ r ∈ JobsRepo.listSchedulable c.shared.db 0, r.1 = 1 :=
  exists_reaches World.registry_initial _ (by decide +kernel)

/-- A job of a training run that is claimed after its call is left to the training executor. -/
theorem training_job_trained : ∃ c : System Env.standard, c.shared.Started .training 1 ∧
    ¬ c.shared.Started .simulated 1 := by
  obtain ⟨c, hc, hcreated, hstarted⟩ := exists_reaches World.registry_initial
    (session 0 (.createTrainingRun trainingPayload) 3 { uuid := 1 } ++
      session 1 .schedulerRunOnce 8 {} ++ session 2 (.processJobMessage 1 7) 6 {})
    (P := fun c : System .standard => c.shared.Created 0 .trainingRun 1 ∧
      c.shared.Started .training 1) (by decide +kernel)
  have hown := jobs_of_runs_keep_their_executor hc (by decide +kernel) (by decide +kernel)
    (by decide +kernel)
  exact ⟨c, hstarted, hown.1 1 ⟨0, .trainingRun, hcreated, by decide⟩⟩

end PosttrainPlatform
