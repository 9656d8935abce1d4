import PosttrainPlatform.Repository.Attempts
import PosttrainPlatform.Repository.Runs

/-!
# Transactions of several statements

The services run some repository functions with `commit=False` and commit, or roll back, once at the
end.  Each of these transactions is one function here: `none` is an exception (everything is rolled
back), `false` a rollback that the service decided on.
-/

namespace PosttrainPlatform

/-- How `process_job_message` finalises an attempt. -/
inductive Ending
  | cancelled
  | succeeded
  | retry (nextRetryAt : Time) (errorMessage : Option Json) (classification : String)
      (failureDomain : Option String)
  | failed (errorMessage : Option Json) (classification : String) (failureDomain : Option String)

namespace Ending

def jobStatus : Ending → JobStatus
  | cancelled => .cancelled
  | succeeded => .succeeded
  | retry .. => .queued
  | failed .. => .failed

def nextRetryAt? : Ending → Option Time
  | retry t _ _ _ => some t
  | _ => none

def attemptStatus : Ending → AttemptStatus
  | cancelled => .cancelled
  | succeeded => .succeeded
  | retry .. => .failed
  | failed .. => .failed

def errorMessage : Ending → Option Json
  | retry _ m _ _ => m
  | failed m _ _ => m
  | _ => none

def classification : Ending → Option String
  | retry _ _ c _ => some c
  | failed _ c _ => some c
  | _ => none

def failureDomain : Ending → Option String
  | retry _ _ _ d => d
  | failed _ _ d => d
  | _ => none

end Ending

/-- The dead-letter row of a permanent failure; the other endings write none. -/
def deadLetter (env : Env) (db : Db) (j : JobId) (k : ℕ) (now : Time) : Ending → Option Db
  | .failed message classification _ => DLQRepo.insert env db j k message classification k now
  | _ => some db

/-- The end of `process_job_message`: finalise job and attempt, and release the reservation, unless
`finalize_attempt` came back without a job. -/
def finalizeTx (env : Env) (db : Db) (j : JobId) (w : WorkerId) (k : ℕ) (ending : Ending)
    (now : Time) : Option (Db × Bool) :=
  let finalized := JobsRepo.finalizeAttempt db j w k ending.jobStatus ending.nextRetryAt?
  match AttemptsRepo.finalize env finalized.1 j k ending.attemptStatus ending.errorMessage
      ending.classification ending.failureDomain now with
  | none => none
  | some db₁ =>
      if finalized.2 = true ∧ (JobsRepo.get db₁ j).isSome then
        match deadLetter env db₁ j k now ending with
        | none => none
        | some db₂ => (ReservationsRepo.release db₂ j k).map fun db₃ => (db₃, true)
      else some (db, false)

/-- One job of `reclaim_stale_leases`: reclaim, mark the attempt lost, release its reservation. -/
def reclaimTx (env : Env) (db : Db) (j : JobId) (nextRetryAt now : Time) : Option (Db × Bool) :=
  let result := JobsRepo.reclaimStale db j env.settings.maxAttempts nextRetryAt now
  match result.2, result.1.jobs.lookup j with
  | true, some job =>
      (ReservationsRepo.release (AttemptsRepo.markLost result.1 j job.attemptNumber now) j
        job.attemptNumber).map fun db' => (db', true)
  | _, _ => some (db, false)

/-- The queued branch of `cancel_job`, with the attempt number of the row it has read. -/
def cancelTx (db : Db) (j : JobId) (readAttemptNumber : ℕ) : Option (Db × Bool) :=
  let result := JobsRepo.conditionalTransition db j (sourcesFor JobStatus.cancelled.value) .cancelled
  if result.2 = true then
    (ReservationsRepo.release result.1 j (readAttemptNumber + 1)).map fun db' => (db', true)
  else some (db, false)

/-- The reservation of `try_admit`: take the capacity, insert the reservation and the outbox row.
`insert_event` commits. -/
def admitTx (env : Env) (db : Db) (j : JobId) (k : ℕ) (request : Resources Json) (now : Time) :
    Option (Db × Bool) :=
  match CapacityRepo.tryReserve env db.capacity request with
  | none => none
  | some none => some (db, false)
  | some (some capacity) =>
      (ReservationsRepo.insert env { db with capacity } j k request).map fun db' =>
        (OutboxRepo.insertEvent db' j now, true)

/-- The statement of `transition`: an unknown status has no sources, so no row matches. -/
def transitionTx (db : Db) (j : JobId) (toStatus : String) : Db × Bool :=
  match JobStatus.parse toStatus with
  | some status => JobsRepo.conditionalTransition db j (sourcesFor toStatus) status
  | none => (db, false)

/-- One job of `dispatch_due_retries` after its event: clear the retry time. -/
def clearRetryTx (db : Db) (j : JobId) : Db := (JobsRepo.clearRetryDispatched db j).1

end PosttrainPlatform
