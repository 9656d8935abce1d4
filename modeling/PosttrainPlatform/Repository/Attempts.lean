import PosttrainPlatform.Repository.Reservations

/-!
# `app/repository/attempts.py` and `dlq.py`

An error message may be any JSON value that a subprocess reported; a value that the text column does
not take makes the flush fail, which is `none`.
-/

namespace PosttrainPlatform

/-- What a nullable text column stores for an error message; `none` is an error. -/
def nullableText (env : Env) : Option Json → Option (Option String)
  | none => some none
  | some .null => some none
  | some v => (env.textColumn v).map some

namespace AttemptsRepo

/-- `insert`. -/
def insert (db : Db) (j : JobId) (k : ℕ) (now : Time) : Option Db :=
  (db.attempts.insertNew (j, k) { status := .running, startedAt := now }).map fun attempts =>
    { db with attempts }

/-- `finalize`; an attempt without a row is left alone. -/
def finalize (env : Env) (db : Db) (j : JobId) (k : ℕ) (status : AttemptStatus)
    (errorMessage : Option Json) (errorClassification failureDomain : Option String)
    (now : Time) : Option Db :=
  match db.attempts.lookup (j, k) with
  | none => some db
  | some attempt =>
      (nullableText env errorMessage).map fun message =>
        { db with
          attempts := db.attempts.insert (j, k)
            { attempt with
              status
              finishedAt := some now
              errorMessage := message
              errorClassification
              failureDomain } }

/-- `mark_lost`: insert or update. -/
def markLost (db : Db) (j : JobId) (k : ℕ) (now : Time) : Db :=
  let attempt := (db.attempts.lookup (j, k)).getD { status := .lost, startedAt := now }
  { db with
    attempts := db.attempts.insert (j, k)
      { attempt with
        status := .lost
        finishedAt := some now
        errorMessage := some "worker_lost: lease expired"
        errorClassification := some "transient" } }

/-- The only table `finalize` writes is `attempts`. -/
theorem finalize_frame {env : Env} {db db' : Db} {j : JobId} {k : ℕ} {status : AttemptStatus}
    {errorMessage : Option Json} {errorClassification failureDomain : Option String} {now : Time}
    (h : finalize env db j k status errorMessage errorClassification failureDomain now = some db') :
    db' = { db with attempts := db'.attempts } := by
  unfold finalize at h
  split at h
  · cases h
    rfl
  · obtain ⟨message, _, rfl⟩ := Option.map_eq_some_iff.mp h
    rfl

end AttemptsRepo

namespace DLQRepo

/-- `insert`. -/
def insert (env : Env) (db : Db) (j : JobId) (lastAttemptNumber : ℕ)
    (lastErrorMessage : Option Json) (lastErrorClassification : String) (totalAttempts : ℕ)
    (now : Time) : Option Db :=
  match nullableText env lastErrorMessage with
  | none => none
  | some message =>
      (db.dlq.insertNew j
        { movedToDlqAt := now, lastAttemptNumber, lastErrorMessage := message,
          lastErrorClassification, totalAttempts }).map fun dlq => { db with dlq }

theorem insert_eq_some {env : Env} {db db' : Db} {j : JobId} {last : ℕ} {message : Option Json}
    {classification : String} {totalAttempts : ℕ} {now : Time}
    (h : insert env db j last message classification totalAttempts now = some db') :
    ∃ row : DLQEntry, db.dlq.lookup j = none ∧ row.lastAttemptNumber = last ∧
      row.totalAttempts = totalAttempts ∧ db' = { db with dlq := db.dlq.insert j row } := by
  unfold insert at h
  split at h
  · cases h
  · obtain ⟨dlq, hdlq, rfl⟩ := Option.map_eq_some_iff.mp h
    obtain ⟨hnone, rfl⟩ := Table.insertNew_eq_some.mp hdlq
    exact ⟨_, hnone, rfl, rfl, rfl⟩

end DLQRepo

end PosttrainPlatform
