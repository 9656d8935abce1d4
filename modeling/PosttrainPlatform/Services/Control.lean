import PosttrainPlatform.Services.Statements

/-!
# `app/services/scheduler.py`, `app/services/recovery.py` and `outbox_relay/relay.py`

The passes of the scheduler, of recovery and of the outbox relay.  A pass works on ORM objects: an
object keeps the row it was loaded with until the session commits or rolls back, and is read again
when it is next used.  So the first object of a pass still carries the row of the listing, and every
later one is `none` until `refresh` loads it.
-/

namespace PosttrainPlatform

open Service

/-- The row of an ORM object: the one it carries, or a new read when it is expired. -/
def refresh (j : JobId) : Option Job → Service Job
  | some job => pure job
  | none => do found .databaseError (← exec (.loadJob j))

/-- The objects of a listing as a loop finds them: the first one loaded, the others expired by the
commit or rollback of the round before. -/
def loadedOnce : List (JobId × Job) → List (JobId × Option Job)
  | [] => []
  | (j, job) :: rest => (j, some job) :: rest.map fun r => (r.1, none)

/-! ### The scheduler -/

/-- `(job.config or {}).get("resources", {})`, when it is a dict. -/
def resourcesOf (config : Option Dict) : Option Dict :=
  match config with
  | none => some []
  | some config =>
      match config.get? "resources" with
      | none => some []
      | some (.obj resources) => some resources
      | some _ => none

/-- `_resource_request`; `none` raises `AttributeError`. -/
def resourceRequest (settings : Settings) (job : Job) : Option (Resources Json) :=
  (resourcesOf job.config).map fun resources =>
    Resources.of (resources.getD "cpu" (.num settings.defaultCpu))
      (resources.getD "memory_mb" (.num settings.defaultMemoryMb))
      (resources.getD "gpu" (.num settings.defaultGpu))

/-- `_effective_priority`. -/
def effectivePriority (settings : Settings) (job : Job) (now : Time) : ℚ :=
  min (job.priority + settings.agingRate * (now - job.createdAt)) settings.priorityCeiling

/-- The order of `ranked.sort`: effective priority descending, then creation time ascending. -/
def RanksBefore (a b : ℚ × JobId × Job) : Prop :=
  b.1 < a.1 ∨ (a.1 = b.1 ∧ a.2.2.createdAt ≤ b.2.2.createdAt)

instance : DecidableRel RanksBefore := fun _ _ => inferInstanceAs (Decidable (_ ∨ _))

/-- `rank_candidates`. -/
def rankCandidates (env : Env) : Service (List (ℚ × JobId × Job)) := do
  let now ← exec .clock
  let candidates ← exec .listSchedulable
  let ranked := candidates.map fun r => (effectivePriority env.settings r.2 now, r)
  pure (ranked.insertionSort RanksBefore)

/-- The eligibility checks of `try_admit` on the loaded row: the reason of a rejection.  The query
of `repo.get` only tells whether the row is deleted; the object it returns is the loaded one. -/
def recheck (j : JobId) (job : Job) : Service (Option String) := do
  let row ← exec (.getJob j)
  if row.isNone ∨ job.status ≠ .queued ∨ job.cancelRequested then
    pure (some "job_no_longer_eligible")
  else do
    let now ← exec .clock
    if ¬ job.Due now then pure (some "job_no_longer_eligible")
    else do
      let reserved ← exec (.hasActive j (job.attemptNumber + 1))
      pure (if reserved then some "already_reserved" else none)

/-- The reservation of `try_admit`: the reason of a rejection. -/
def reserve (j : JobId) (job : Job) (request : Resources Json) : Service (Option String) := do
  if ← exec (.reserve j (job.attemptNumber + 1) request) then pure none
  else do
    let cap ← exec .getCapacity
    let reason ← found .typeError (CapacityRepo.whichDimensionInsufficient cap request)
    pure (some reason)

/-- The scheduling decision of `try_admit`, in a transaction of its own. -/
def recordDecision (env : Env) (j : JobId) (job : Job) (request : Resources Json) :
    Option String → Service Bool
  | none => do
      let now ← exec .clock
      exec (.insertDecision j .admitted "resources_available" request
        (effectivePriority env.settings job now))
      pure true
  | some reason => do
      let now ← exec .clock
      exec (.insertDecision j .waiting reason request (effectivePriority env.settings job now))
      pure false

/-- `try_admit`. -/
def tryAdmit (env : Env) (j : JobId) (loaded : Option Job) : Service Bool := do
  let job ← refresh j loaded
  let request ← found .attributeError (resourceRequest env.settings job)
  match ← recheck j job with
  | some reason => recordDecision env j job request (some reason)
  | none => do
      let rejected ← reserve j job request
      recordDecision env j job request rejected

/-- The loop of the scheduler's `run_once`. -/
def admitAll (env : Env) : List (JobId × Option Job) → ℕ → ℕ → Service (ℕ × ℕ)
  | [], admitted, waiting => pure (admitted, waiting)
  | (j, loaded) :: rest, admitted, waiting =>
      if env.settings.maxAdmissionsPerPass ≤ admitted then admitAll env rest admitted (waiting + 1)
      else do
        if ← tryAdmit env j loaded then admitAll env rest (admitted + 1) waiting
        else admitAll env rest admitted (waiting + 1)

/-- The scheduler's `run_once`. -/
def schedulerRunOnce (env : Env) : Service (ℕ × ℕ) := do
  let ranked ← rankCandidates env
  admitAll env (loadedOnce (ranked.map fun r => r.2)) 0 0

/-! ### Recovery -/

/-- The loop of `reclaim_stale_leases`. -/
def reclaimAll : List (JobId × Option Job) → ℕ → Service ℕ
  | [], reclaimed => pure reclaimed
  | (j, loaded) :: rest, reclaimed => do
      let job ← refresh j loaded
      let nextRetryAt ← exec (.nextRetryAt (job.attemptNumber + 1))
      let won ← exec (.reclaim j nextRetryAt)
      reclaimAll rest (if won then reclaimed + 1 else reclaimed)

/-- `reclaim_stale_leases`. -/
def reclaimStaleLeases : Service ℕ := do
  let stale ← exec .listStaleLeases
  reclaimAll (loadedOnce stale) 0

/-- The loop of `dispatch_due_retries`. -/
def dispatchAll : List JobId → ℕ → Service ℕ
  | [], dispatched => pure dispatched
  | j :: rest, dispatched => do
      exec (.insertEvent j)
      exec (.clearRetryDispatched j)
      dispatchAll rest (dispatched + 1)

/-- `dispatch_due_retries`. -/
def dispatchDueRetries : Service ℕ := do
  let due ← exec .listRetryDue
  dispatchAll (due.map fun r => r.1) 0

/-- Recovery's `run_once`. -/
def recoveryRunOnce : Service (ℕ × ℕ) := do
  let reclaimed ← reclaimStaleLeases
  let dispatched ← dispatchDueRetries
  pure (reclaimed, dispatched)

/-! ### The outbox relay -/

/-- The loop of `relay_once`. -/
def publishAll : List (ℕ × JobId) → ℕ → Service ℕ
  | [], published => pure published
  | (row, j) :: rest, published => do
      exec (.send j)
      exec (.markPublished row)
      publishAll rest (published + 1)

/-- `relay_once`. -/
def relayOnce : Service ℕ := do
  let rows ← exec .listUnpublished
  publishAll rows 0

end PosttrainPlatform
