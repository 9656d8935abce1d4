import PosttrainPlatform.Model.Schema

/-!
# `app/repository/jobs.py` and `app/statemachine.py`

Every writer of a `jobs` row is one conditional `UPDATE` by primary key, so each is `updateWhere`
with its own `WHERE` clause and assignments; the rowcount comes back as a `Bool`.  The re-read that
some functions do after their commit is `get`, a statement of its own.
-/

namespace PosttrainPlatform

/-! ### The state machine -/

/-- `VALID_TRANSITIONS`. -/
def validTransitions : JobStatus → List JobStatus
  | .pending => [.queued]
  | .queued => [.running, .cancelled]
  | .running => [.succeeded, .failed, .cancelled]
  | .succeeded => []
  | .failed => []
  | .cancelled => []

/-- The statuses from which the status with text `toStatus` is a legal target. -/
def sourcesFor (toStatus : String) : List JobStatus :=
  JobStatus.all.filter fun s => (validTransitions s).any fun t => t.value == toStatus

/-- A text that is no status has no source. -/
theorem sourcesFor_of_parse_none {toStatus : String} (h : JobStatus.parse toStatus = none) :
    sourcesFor toStatus = [] := by
  rw [JobStatus.parse, List.find?_eq_none] at h
  rw [sourcesFor, List.filter_eq_nil_iff]
  intro s _ hany
  obtain ⟨t, _, ht⟩ := List.any_eq_true.mp hany
  exact h t (by cases t <;> decide) ht

/-- The live row that a fenced statement looks for: running, with this owner and token. -/
def Job.OwnedBy (job : Job) (w : WorkerId) (k : ℕ) : Prop :=
  job.status = .running ∧ job.leaseOwner = some w ∧ job.attemptNumber = k

instance (job : Job) (w : WorkerId) (k : ℕ) : Decidable (job.OwnedBy w k) :=
  inferInstanceAs (Decidable (_ ∧ _ ∧ _))

/-- `next_retry_at IS NULL OR next_retry_at <= now`. -/
def Job.Due (job : Job) (now : Time) : Prop := ∀ t ∈ job.nextRetryAt, t ≤ now

instance (job : Job) (now : Time) : Decidable (job.Due now) :=
  inferInstanceAs (Decidable (∀ t ∈ job.nextRetryAt, t ≤ now))

/-- `lease_expires_at < now`; a NULL lease does not compare. -/
def Job.LeaseExpired (job : Job) (now : Time) : Prop := ∃ t ∈ job.leaseExpiresAt, t < now

instance (job : Job) (now : Time) : Decidable (job.LeaseExpired now) :=
  inferInstanceAs (Decidable (∃ t ∈ job.leaseExpiresAt, t < now))

/-- `deleted_at IS NULL`. -/
def Job.Present (job : Job) : Prop := job.deletedAt = none

instance (job : Job) : Decidable job.Present := inferInstanceAs (Decidable (_ = none))

namespace JobsRepo

/-- `UPDATE jobs SET ... WHERE id = j AND cond`: the new database, and whether a row matched. -/
def updateWhere (db : Db) (j : JobId) (cond : Job → Prop) [DecidablePred cond]
    (set : Job → Job) : Db × Bool :=
  match db.jobs.lookup j with
  | some job =>
      if cond job then ({ db with jobs := db.jobs.insert j (set job) }, true) else (db, false)
  | none => (db, false)

/-- `get`: the row, unless it is soft-deleted. -/
def get (db : Db) (j : JobId) : Option Job := (db.jobs.lookup j).filter fun job => job.Present

/-- `create_and_enqueue`: insert the job and move it to `queuedStatus` in one transaction. -/
def createAndEnqueue (db : Db) (j : JobId) (job : Job) (queuedStatus : JobStatus) : Option Db :=
  (db.jobs.insertNew j { job with status := queuedStatus }).map fun jobs => { db with jobs }

/-- `conditional_transition`. -/
def conditionalTransition (db : Db) (j : JobId) (validFrom : List JobStatus)
    (toStatus : JobStatus) : Db × Bool :=
  updateWhere db j (fun job => job.status ∈ validFrom ∧ job.Present)
    fun job => { job with status := toStatus }

def setCancelRequested (db : Db) (j : JobId) : Db × Bool :=
  updateWhere db j (fun job => job.status = .running ∧ job.Present)
    fun job => { job with cancelRequested := true }

/-- The `EXISTS` clause of `claim`: an active reservation for the attempt a claim would create. -/
def HasReservation (reservations : Table (JobId × ℕ) Reservation) (j : JobId) (k : ℕ) : Prop :=
  ∃ r ∈ reservations.lookup (j, k), r.status = .active

instance (reservations : Table (JobId × ℕ) Reservation) (j : JobId) (k : ℕ) :
    Decidable (HasReservation reservations j k) :=
  inferInstanceAs (Decidable (∃ r ∈ reservations.lookup (j, k), r.status = .active))

/-- The `WHERE` clause of `claim`. -/
def Claimable (db : Db) (j : JobId) (now : Time) (job : Job) : Prop :=
  job.status = .queued ∧ job.cancelRequested = false ∧ job.Due now ∧ job.Present ∧
    HasReservation db.reservations j (job.attemptNumber + 1)

instance (db : Db) (j : JobId) (now : Time) : DecidablePred (Claimable db j now) := fun _ =>
  inferInstanceAs (Decidable (_ ∧ _ ∧ _ ∧ _ ∧ _))

def claim (db : Db) (j : JobId) (w : WorkerId) (now leaseDurationSeconds : Time) : Db × Bool :=
  updateWhere db j (Claimable db j now) fun job =>
    { job with
      status := .running
      leaseOwner := some w
      leaseExpiresAt := some (now + leaseDurationSeconds)
      attemptNumber := job.attemptNumber + 1
      claimedAt := some now
      nextRetryAt := none }

def heartbeat (db : Db) (j : JobId) (w : WorkerId) (k : ℕ) (now leaseDurationSeconds : Time) :
    Db × Bool :=
  updateWhere db j (fun job => job.OwnedBy w k)
    fun job => { job with leaseExpiresAt := some (now + leaseDurationSeconds) }

/-- The statement of `finalize_attempt`; `nextRetryAt` is its `extra_values`, when it is given. -/
def finalizeAttempt (db : Db) (j : JobId) (w : WorkerId) (k : ℕ) (toStatus : JobStatus)
    (nextRetryAt : Option Time) : Db × Bool :=
  updateWhere db j (fun job => job.OwnedBy w k) fun job =>
    { job with
      status := toStatus
      leaseOwner := none
      leaseExpiresAt := none
      nextRetryAt := nextRetryAt <|> job.nextRetryAt }

def listStaleLeases (db : Db) (now : Time) : List (JobId × Job) :=
  db.jobs.rows.filter fun r => r.2.status = .running ∧ r.2.LeaseExpired now ∧ r.2.Present

/-- The status that `reclaim_stale` gives the row, decided inside the statement. -/
def reclaimedStatus (job : Job) (maxAttempts : ℕ) : JobStatus :=
  if job.cancelRequested then .cancelled
  else if maxAttempts ≤ job.attemptNumber then .failed
  else .queued

/-- The statement of `reclaim_stale`. -/
def reclaimStale (db : Db) (j : JobId) (maxAttempts : ℕ) (computedNextRetryAt now : Time) :
    Db × Bool :=
  updateWhere db j (fun job => job.status = .running ∧ job.LeaseExpired now) fun job =>
    { job with
      leaseOwner := none
      leaseExpiresAt := none
      status := reclaimedStatus job maxAttempts
      nextRetryAt :=
        if reclaimedStatus job maxAttempts = .queued then some computedNextRetryAt else none }

def listRetryDue (db : Db) (now : Time) : List (JobId × Job) :=
  db.jobs.rows.filter fun r =>
    r.2.status = .queued ∧ r.2.nextRetryAt ≠ none ∧ r.2.Due now ∧ r.2.Present

def listSchedulable (db : Db) (now : Time) : List (JobId × Job) :=
  db.jobs.rows.filter fun r =>
    r.2.status = .queued ∧ r.2.cancelRequested = false ∧ r.2.Due now ∧ r.2.Present ∧
      ¬ HasReservation db.reservations r.1 (r.2.attemptNumber + 1)

def clearRetryDispatched (db : Db) (j : JobId) : Db × Bool :=
  updateWhere db j (fun _ => True) fun job => { job with nextRetryAt := none }

/-- `job.config = config` and the flush of the ORM object, which writes the changed column. -/
def updateConfig (db : Db) (j : JobId) (config : Option Dict) : Db × Bool :=
  updateWhere db j (fun _ => True) fun job => { job with config }

def softDelete (db : Db) (j : JobId) (now : Time) : Db × Bool :=
  updateWhere db j (fun _ => True) fun job => { job with deletedAt := some now }

/-! ### What an update of one row does -/

/-- **An update matches nothing, or rewrites the one row that meets its condition.** -/
theorem updateWhere_cases {db : Db} {j : JobId} {cond : Job → Prop} [DecidablePred cond]
    {set : Job → Job} {r : Db × Bool} (h : updateWhere db j cond set = r) :
    r = (db, false) ∨ ∃ job, db.jobs.lookup j = some job ∧ cond job ∧
      r = ({ db with jobs := db.jobs.insert j (set job) }, true) := by
  subst h
  unfold updateWhere
  cases hj : db.jobs.lookup j with
  | none => exact Or.inl rfl
  | some job =>
      by_cases hc : cond job
      · exact Or.inr ⟨job, rfl, hc, by simp only [hc, if_true]⟩
      · exact Or.inl (by simp only [hc, if_false])

/-- The only table an update of `jobs` writes is `jobs`. -/
theorem updateWhere_frame (db : Db) (j : JobId) (cond : Job → Prop) [DecidablePred cond]
    (set : Job → Job) :
    (updateWhere db j cond set).1 = { db with jobs := (updateWhere db j cond set).1.jobs } := by
  generalize hr : updateWhere db j cond set = r
  obtain rfl | ⟨job, _, _, rfl⟩ := updateWhere_cases hr
  · rfl
  · rfl

end JobsRepo

end PosttrainPlatform
