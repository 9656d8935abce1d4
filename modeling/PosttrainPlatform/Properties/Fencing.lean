import PosttrainPlatform.Properties.Rows

/-!
# Fencing of attempts

An attempt is live while its job is RUNNING under its worker and attempt number.  A job row is a
fencing register: `attempt_number` counts the claims, and the owner is `lease_owner` while the job is
RUNNING.  What makes the writers of `jobs` steps of this register is one invariant, `Job.LeaseOk`: a
job that waits to be claimed carries no owner, so a PATCH that puts it back to RUNNING revives
nobody.  The runs here are the most general ones, with every repository function under arbitrary
arguments and arbitrary commits to the other tables.
-/

namespace PosttrainPlatform

open Fencing

/-- A commit of a repository function that writes `jobs`, or of anything that does not. -/
inductive Write
  | createAndEnqueue (j : JobId) (jobType : String) (config : Option Dict) (priority : ℤ)
      (now : Time)
  | claim (j : JobId) (w : WorkerId) (now : Time)
  | heartbeat (j : JobId) (w : WorkerId) (k : ℕ) (now : Time)
  | finalizeAttempt (j : JobId) (w : WorkerId) (k : ℕ) (ending : Ending)
  | reclaimStale (j : JobId) (nextRetryAt now : Time)
  | conditionalTransition (j : JobId) (toStatus : String)
  | setCancelRequested (j : JobId)
  | clearRetryDispatched (j : JobId)
  | updateConfig (j : JobId) (config : Dict)
  | softDelete (j : JobId) (now : Time)
  | other (db : Db)

def Write.apply (env : Env) (db : Db) : Write → Db
  | createAndEnqueue j jobType config priority now =>
      (JobsRepo.createAndEnqueue db j
        { jobType, status := .pending, config, priority, createdAt := now } .queued).getD db
  | claim j w now => (JobsRepo.claim db j w now env.settings.leaseDurationSeconds).1
  | heartbeat j w k now => (JobsRepo.heartbeat db j w k now env.settings.leaseDurationSeconds).1
  | finalizeAttempt j w k ending =>
      (JobsRepo.finalizeAttempt db j w k ending.jobStatus ending.nextRetryAt?).1
  | reclaimStale j nextRetryAt now =>
      (JobsRepo.reclaimStale db j env.settings.maxAttempts nextRetryAt now).1
  | conditionalTransition j toStatus => (transitionTx db j toStatus).1
  | setCancelRequested j => (JobsRepo.setCancelRequested db j).1
  | clearRetryDispatched j => (JobsRepo.clearRetryDispatched db j).1
  | updateConfig j config => (JobsRepo.updateConfig db j (some config)).1
  | softDelete j now => (JobsRepo.softDelete db j now).1
  | other db' => { db' with jobs := db.jobs }

/-- Any number of commits, in any order. -/
def Write.run (env : Env) (db : Db) (ws : List Write) : Db := ws.foldl (Write.apply env) db

/-! ### The commits are row steps -/

theorem rows_of_update {maxAttempts : ℕ} {db : Db} {j : JobId} {cond : Job → Prop}
    [DecidablePred cond] {set : Job → Job} {r : Db × Bool}
    (hr : JobsRepo.updateWhere db j cond set = r)
    (h : ∀ job, cond job → RowStep maxAttempts job (set job)) :
    RowsStep maxAttempts db.jobs r.1.jobs := by
  obtain rfl | ⟨job, hj, hc, rfl⟩ := JobsRepo.updateWhere_cases hr
  · exact .refl _
  · exact .put hj (h job hc)

theorem Write.rows (env : Env) (db : Db) (w : Write) :
    RowsStep env.settings.maxAttempts db.jobs (w.apply env db).jobs := by
  cases w with
  | createAndEnqueue j jobType config priority now =>
      simp only [Write.apply]
      cases hdb : JobsRepo.createAndEnqueue db j
        { jobType, status := .pending, config, priority, createdAt := now } .queued with
      | none => exact .refl _
      | some db' =>
          obtain ⟨jobs, hjobs, rfl⟩ := Option.map_eq_some_iff.mp hdb
          obtain ⟨hj, rfl⟩ := Table.insertNew_eq_some.mp hjobs
          exact .create hj ⟨rfl, rfl, rfl, rfl, rfl, rfl, rfl⟩
  | claim j w now => exact rows_of_update rfl fun job h => .claim w h.1 h.2.1 h.2.2.1 h.2.2.2.1
  | heartbeat j w k now => exact rows_of_update rfl fun job h => .heartbeat _ h
  | finalizeAttempt j w k ending => exact rows_of_update rfl fun job h => .finalize h
  | reclaimStale j t now => exact rows_of_update rfl fun job h => .reclaim h.1 h.2
  | conditionalTransition j toStatus =>
      have h : CoreStep env db.core {} (.transition j toStatus) (transitionTx db j toStatus).1.core :=
        transitionTx_core
      exact h.rows
  | setCancelRequested j => exact rows_of_update rfl fun job h => .setCancelRequested h.1 h.2
  | clearRetryDispatched j => exact rows_of_update rfl fun job _ => .clearRetryDispatched
  | updateConfig j config => exact rows_of_update rfl fun job _ => .updateConfig config
  | softDelete j now => exact rows_of_update rfl fun job _ => .softDelete now
  | other db' => exact .refl _

/-! ### A job row as a fencing register -/

/-- A job that waits to be claimed has no owner. -/
def Job.LeaseOk (job : Job) : Prop :=
  job.status = .queued ∨ job.status = .pending → job.leaseOwner = none

/-- The register that a job row implements. -/
def Job.register (job : Job) : Register WorkerId :=
  { owner := if job.status = .running then job.leaseOwner else none, epoch := job.attemptNumber }

/-- The fenced statements ask whether the worker holds the register. -/
theorem Job.ownedBy_iff_holds {job : Job} {w : WorkerId} {k : ℕ} :
    job.OwnedBy w k ↔ job.register.Holds w k := by
  unfold Job.OwnedBy Job.register Register.Holds
  by_cases hs : job.status = .running
  · simp [hs]
  · simp [hs]

theorem Job.register_of_not_running {job : Job} (h : job.status ≠ .running) :
    job.register = { owner := none, epoch := job.attemptNumber } := by
  unfold Job.register
  rw [if_neg h]

theorem Job.register_giveUp {job job' : Job} (h : job'.status ≠ .running)
    (hk : job'.attemptNumber = job.attemptNumber) : Register.Step job.register job'.register := by
  rw [Job.register_of_not_running h, hk]
  exact .giveUp _

/-- A job that nobody owns and nobody starts to own keeps its register. -/
theorem Job.register_keep {job job' : Job} (h : job.leaseOwner = none)
    (h' : job'.leaseOwner = none) (hk : job'.attemptNumber = job.attemptNumber) :
    Register.Step job.register job'.register := by
  unfold Job.register
  rw [h, h', hk, ite_self, ite_self]
  exact .keep _

theorem RowStep.register_transition {job : Job} {toStatus : String} {status : JobStatus}
    (hto : JobStatus.parse toStatus = some status) (hfrom : job.status ∈ sourcesFor toStatus)
    (hok : job.LeaseOk) :
    Job.LeaseOk { job with status } ∧ Register.Step job.register (Job.register { job with status }) := by
  have hedge := mem_sourcesFor hto hfrom
  cases hs : job.status with
  | pending | queued =>
      have hnone : job.leaseOwner = none := hok (by simp [hs])
      exact ⟨fun _ => hnone, Job.register_keep hnone hnone rfl⟩
  | running =>
      rw [hs] at hedge
      have hnot : status ≠ .running ∧ status ≠ .queued ∧ status ≠ .pending := by
        revert hedge
        cases status <;> decide
      refine ⟨fun h => ?_, Job.register_giveUp hnot.1 rfl⟩
      obtain h | h := h
      · exact absurd h hnot.2.1
      · exact absurd h hnot.2.2
  | succeeded | failed | cancelled =>
      rw [hs] at hedge
      cases hedge

/-- **Every row step is a step of the register**, and keeps waiting jobs unowned. -/
theorem RowStep.register {maxAttempts : ℕ} {job job' : Job} (h : RowStep maxAttempts job job')
    (hok : job.LeaseOk) : job'.LeaseOk ∧ Register.Step job.register job'.register := by
  cases h with
  | transition hto hfrom hp => exact RowStep.register_transition hto hfrom hok
  | setCancelRequested hs hp => exact ⟨hok, .keep _⟩
  | updateConfig config => exact ⟨hok, .keep _⟩
  | softDelete now => exact ⟨hok, .keep _⟩
  | clearRetryDispatched => exact ⟨hok, .keep _⟩
  | claim w hs hc hdue hp =>
      refine ⟨fun h => ?_, ?_⟩
      · obtain h | h := h <;> cases h
      · have hne : job.status ≠ .running := by simp [hs]
        rw [Job.register_of_not_running hne]
        exact .acquire w rfl
  | heartbeat t hown => exact ⟨hok, .keep _⟩
  | @finalize w k ending hown =>
      exact ⟨fun _ => rfl, Job.register_giveUp (job.finalized_not_running ending) rfl⟩
  | @reclaim t now hs hexp =>
      exact ⟨fun _ => rfl, Job.register_giveUp (job.reclaimed_not_running maxAttempts t) rfl⟩

/-! ### Runs -/

/-- Every job that waits to be claimed is unowned. -/
def LeasesOk (jobs : Table JobId Job) : Prop := ∀ j job, jobs.lookup j = some job → job.LeaseOk

theorem LeasesOk.step {maxAttempts : ℕ} {jobs jobs' : Table JobId Job}
    (h : RowsStep maxAttempts jobs jobs') (hok : LeasesOk jobs) : LeasesOk jobs' := by
  intro j job' hj'
  cases hj : jobs.lookup j with
  | none =>
      intro _
      exact (h.new j job' hj hj').2.2.2.1
  | some job =>
      obtain ⟨row, hrow, hstep⟩ := h.persists j job hj
      rw [hj'] at hrow
      cases hrow
      obtain rfl | hstep := hstep
      · exact hok j _ hj
      · exact (hstep.register (hok j job hj)).1

/-- The attempt has been handed out, and is not live. -/
def LostAttempt (jobs : Table JobId Job) (j : JobId) (w : WorkerId) (k : ℕ) : Prop :=
  ∃ job, jobs.lookup j = some job ∧ job.register.Lost w k

theorem LostAttempt.step {maxAttempts : ℕ} {jobs jobs' : Table JobId Job} {j : JobId}
    {w : WorkerId} {k : ℕ} (h : RowsStep maxAttempts jobs jobs') (hok : LeasesOk jobs)
    (hlost : LostAttempt jobs j w k) : LostAttempt jobs' j w k := by
  obtain ⟨job, hj, hlost⟩ := hlost
  obtain ⟨job', hj', hstep⟩ := h.persists j job hj
  obtain rfl | hstep := hstep
  · exact ⟨_, hj', hlost⟩
  · exact ⟨job', hj', hlost.step (hstep.register (hok j job hj)).2⟩

theorem LostAttempt.not_owns {db : Db} {j : JobId} {w : WorkerId} {k : ℕ}
    (h : LostAttempt db.jobs j w k) : ¬ db.Owns j w k := by
  obtain ⟨job, hj, hlost⟩ := h
  rintro ⟨row, hrow, hown⟩
  rw [Option.mem_def, hj] at hrow
  cases hrow
  exact hlost.2 (Job.ownedBy_iff_holds.mp hown)

/-- A live attempt is still live after a step, or lost. -/
theorem owns_step {maxAttempts : ℕ} {db db' : Db} {j : JobId} {w : WorkerId} {k : ℕ}
    (h : RowsStep maxAttempts db.jobs db'.jobs) (hok : LeasesOk db.jobs) (hown : db.Owns j w k) :
    db'.Owns j w k ∨ LostAttempt db'.jobs j w k := by
  obtain ⟨job, hj, hown⟩ := hown
  obtain ⟨job', hj', hstep⟩ := h.persists j job hj
  obtain rfl | hstep := hstep
  · exact Or.inl ⟨_, hj', hown⟩
  · have hreg := (hstep.register (hok j job hj)).2
    obtain hh | hl := (Job.ownedBy_iff_holds.mp hown).step hreg
    · exact Or.inl ⟨job', hj', Job.ownedBy_iff_holds.mpr hh⟩
    · exact Or.inr ⟨job', hj', hl⟩

section Runs

variable {env : Env} {j : JobId} {w : WorkerId} {k : ℕ}

theorem LeasesOk.run (ws : List Write) {db : Db} (hok : LeasesOk db.jobs) :
    LeasesOk (Write.run env db ws).jobs := by
  induction ws generalizing db with
  | nil => exact hok
  | cons x ws ih => exact ih (hok.step (x.rows env db))

theorem LostAttempt.run (ws : List Write) {db : Db} (hok : LeasesOk db.jobs)
    (h : LostAttempt db.jobs j w k) : LostAttempt (Write.run env db ws).jobs j w k := by
  induction ws generalizing db with
  | nil => exact h
  | cons x ws ih => exact ih (hok.step (x.rows env db)) (h.step (x.rows env db) hok)

/-- Along a run a live attempt stays live, or is lost for good. -/
theorem owns_run (ws : List Write) {db : Db} (hok : LeasesOk db.jobs) (hown : db.Owns j w k) :
    (Write.run env db ws).Owns j w k ∨ LostAttempt (Write.run env db ws).jobs j w k := by
  induction ws generalizing db with
  | nil => exact Or.inl hown
  | cons x ws ih =>
      have hok' := hok.step (x.rows env db)
      obtain h | h := owns_step (x.rows env db) hok hown
      · exact ih hok' h
      · exact Or.inr (h.run ws hok')

end Runs

/-! ### The split-brain guarantee -/

/-- Every fenced statement of the attempt changes nothing: it reports no row, or is rejected for a
value that its columns cannot take. -/
structure FencedOut (env : Env) (db : Db) (j : JobId) (w : WorkerId) (k : ℕ) : Prop where
  notLive : ¬ db.Owns j w k
  heartbeat : ∀ now lease, JobsRepo.heartbeat db j w k now lease = (db, false)
  finalizeAttempt : ∀ status t, JobsRepo.finalizeAttempt db j w k status t = (db, false)
  registerCheckpoint : ∀ run step a base version now r,
    CheckpointsRepo.register env db j w run k step a base version now = some r → r = (db, false)
  registerOutput : ∀ run a, TrainingRunOutputsRepo.register db j w run k a = some (db, false)
  recordMetric : ∀ run step reading r,
    TrainingMetricsRepo.record env db j w run k step reading = some r → r = (db, false)
  recordResumeDecision : ∀ run step,
    AttemptResumeDecisionsRepo.record db j w run k step = some (db, false)
  recordResult : ∀ run exampleId prediction expectedOutput score latencyMs r,
    EvaluationResultsRepo.record env db j w run k exampleId prediction expectedOutput score
      latencyMs = some r → r = (db, false)
  recordEvaluationMetric : ∀ run name value split count r,
    EvaluationMetricsRepo.record env db j w run k name value split count = some r → r = (db, false)
  markStatus : ∀ run status completedAt,
    EvaluationRunsRepo.markStatus db run j w k status completedAt = some (db, false)

theorem updateWhere_of_not_owns {db : Db} {j : JobId} {w : WorkerId} {k : ℕ}
    (h : ¬ db.Owns j w k) (set : Job → Job) :
    JobsRepo.updateWhere db j (fun job => job.OwnedBy w k) set = (db, false) := by
  generalize hr : JobsRepo.updateWhere db j (fun job => job.OwnedBy w k) set = r
  obtain rfl | ⟨job, hj, hown, _⟩ := JobsRepo.updateWhere_cases hr
  · rfl
  · exact absurd ⟨job, hj, hown⟩ h

/-- **An attempt that is not live is fenced out of every table.** -/
theorem fencedOut_of_not_owns (env : Env) {db : Db} {j : JobId} {w : WorkerId} {k : ℕ}
    (h : ¬ db.Owns j w k) : FencedOut env db j w k where
  notLive := h
  heartbeat now lease := updateWhere_of_not_owns h _
  finalizeAttempt status t := updateWhere_of_not_owns h _
  registerCheckpoint run step a base version now r hr := by
    unfold CheckpointsRepo.register at hr
    split at hr
    · cases hr
    · rw [Db.fenced_of_not_owns h] at hr
      exact (Option.some.inj hr).symm
  registerOutput run a := Db.fenced_of_not_owns h _
  recordMetric run step reading r hr := by
    unfold TrainingMetricsRepo.record at hr
    split at hr
    swap
    · cases hr
    split at hr
    · rw [Db.fenced_of_not_owns h] at hr
      exact (Option.some.inj hr).symm
    · cases hr
  recordResumeDecision run step := Db.fenced_of_not_owns h _
  recordResult run exampleId prediction expectedOutput score latencyMs r hr := by
    unfold EvaluationResultsRepo.record at hr
    split at hr
    · rw [Db.fenced_of_not_owns h] at hr
      exact (Option.some.inj hr).symm
    · cases hr
  recordEvaluationMetric run name value split count r hr := by
    unfold EvaluationMetricsRepo.record at hr
    split at hr
    swap
    · cases hr
    split at hr
    · cases hr
    · rw [Db.fenced_of_not_owns h] at hr
      exact (Option.some.inj hr).symm
  markStatus run status completedAt := Db.fenced_of_not_owns h _

/-- **An attempt that has stopped being live is never live again**, and all it still sends is
discarded: after any commits `ws₁` that leave it live and `ws₂` that do not, whatever follows. -/
theorem stale_attempt_fenced_out (env : Env) {db : Db} (hempty : db.jobs = ∅)
    (ws₁ ws₂ ws₃ : List Write) {j : JobId} {w : WorkerId} {k : ℕ}
    (hlive : (Write.run env db ws₁).Owns j w k)
    (hstopped : ¬ (Write.run env db (ws₁ ++ ws₂)).Owns j w k) :
    FencedOut env (Write.run env db (ws₁ ++ ws₂ ++ ws₃)) j w k := by
  have hok : LeasesOk (Write.run env db ws₁).jobs := by
    refine LeasesOk.run ws₁ fun i job hi => ?_
    rw [hempty] at hi
    cases hi
  have happ : Write.run env db (ws₁ ++ ws₂) = Write.run env (Write.run env db ws₁) ws₂ :=
    List.foldl_append
  have happ' : Write.run env db (ws₁ ++ ws₂ ++ ws₃) =
      Write.run env (Write.run env (Write.run env db ws₁) ws₂) ws₃ := by
    rw [← happ]
    exact List.foldl_append
  rw [happ] at hstopped
  rw [happ']
  obtain h | h := owns_run ws₂ hok hlive
  · exact absurd h hstopped
  · exact fencedOut_of_not_owns env (h.run ws₃ (hok.run ws₂)).not_owns

/-- The reservation of an attempt of job 1, before the attempt is claimed. -/
def reservedFor (k : ℕ) : Write :=
  .other { Db.initial with
    reservations := AList.insert (1, k) { amount := 0, status := .active } ∅ }

/-- Worker 7 claims job 1, recovery takes it back, and worker 8 claims it: the first attempt is over,
and all it still sends is discarded. -/
theorem reclaimed_attempt_fenced_out : ∃ db : Db, db.Owns 1 8 2 ∧ FencedOut .standard db 1 7 1 := by
  refine ⟨Write.run .standard Db.initial
    ([.createAndEnqueue 1 "noop" none 50 0, reservedFor 1, .claim 1 7 0] ++
      [.reclaimStale 1 40 40] ++ [reservedFor 2, .claim 1 8 50]), by decide +kernel, ?_⟩
  exact stale_attempt_fenced_out .standard rfl _ _ _ (by decide +kernel) (by decide +kernel)

end PosttrainPlatform
