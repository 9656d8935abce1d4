import PosttrainPlatform.Model.Schema

/-!
# `app/repository/artifacts.py` and `app/storage.py`

Storage keys are content hashes, so the object store is a table from hashes to bytes.
-/

namespace PosttrainPlatform

abbrev Store := Table Hash Bytes

/-- `object_exists_with_hash`. -/
def Store.objectExistsWithHash (env : Env) (store : Store) (key expected : Hash) : Bool :=
  match store.lookup key with
  | none => false
  | some data => env.sha256 data == expected

namespace ArtifactsRepo

/-- `get_by_hash`. -/
def getByHash (db : Db) (contentHash : Hash) : Option (ArtifactId × Artifact) :=
  db.artifacts.rows.find? fun r => r.2.contentHash == contentHash

/-- `create_pending`: the hash is unique. -/
def createPending (db : Db) (a : ArtifactId) (contentHash : Hash) (now : Time) : Option Db :=
  match getByHash db contentHash with
  | some _ => none
  | none =>
      (db.artifacts.insertNew a { contentHash, createdAt := now }).map fun artifacts =>
        { db with artifacts }

/-- `UPDATE artifacts SET ... WHERE id = a AND cond`, with the row it returns. -/
def updateWhere (db : Db) (a : ArtifactId) (cond : Artifact → Prop) [DecidablePred cond]
    (set : Artifact → Artifact) : Db × Option Artifact :=
  match db.artifacts.lookup a with
  | some row =>
      if cond row then ({ db with artifacts := db.artifacts.insert a (set row) }, some (set row))
      else (db, none)
  | none => (db, none)

/-- `claim_upload_lease`. -/
def claimUploadLease (db : Db) (a : ArtifactId) (uploader : WorkerId)
    (now leaseDurationSeconds : Time) : Db × Option Artifact :=
  updateWhere db a (fun row => row.status = .pending ∧ ∀ t ∈ row.uploadLeaseExpiresAt, t < now)
    fun row =>
      { row with
        uploaderId := some uploader
        uploadLeaseExpiresAt := some (now + leaseDurationSeconds) }

/-- `mark_uploaded`. -/
def markUploaded (db : Db) (a : ArtifactId) (uploader : WorkerId) : Db × Option Artifact :=
  updateWhere db a (fun row => row.status = .pending ∧ row.uploaderId = some uploader)
    fun row => { row with status := .uploaded, uploadLeaseExpiresAt := none }

/-- `renew_upload_lease`. -/
def renewUploadLease (db : Db) (a : ArtifactId) (uploader : WorkerId)
    (now leaseDurationSeconds : Time) : Db × Option Artifact :=
  updateWhere db a (fun row => row.status = .pending ∧ row.uploaderId = some uploader)
    fun row => { row with uploadLeaseExpiresAt := some (now + leaseDurationSeconds) }

/-- The abandoned uploads: never claimed within the grace period, or claimed under a lease that has
lapsed. -/
def Abandoned (row : Artifact) (now gracePeriodSeconds : Time) : Prop :=
  row.status = .pending ∧
    ((row.uploadLeaseExpiresAt = none ∧ row.createdAt < now - gracePeriodSeconds) ∨
      ∃ t ∈ row.uploadLeaseExpiresAt, t < now)

instance (row : Artifact) (now gracePeriodSeconds : Time) :
    Decidable (Abandoned row now gracePeriodSeconds) :=
  inferInstanceAs (Decidable (_ ∧ (_ ∨ ∃ t ∈ row.uploadLeaseExpiresAt, t < now)))

/-- `list_reconcilable`. -/
def listReconcilable (db : Db) (now gracePeriodSeconds : Time) : List (ArtifactId × Artifact) :=
  db.artifacts.rows.filter fun r => Abandoned r.2 now gracePeriodSeconds

/-- `reconcile_to_uploaded`. -/
def reconcileToUploaded (db : Db) (a : ArtifactId) : Db × Option Artifact :=
  updateWhere db a (fun row => row.status = .pending)
    fun row => { row with status := .uploaded, uploadLeaseExpiresAt := none }

/-- `reconcile_to_failed`. -/
def reconcileToFailed (db : Db) (a : ArtifactId) : Db × Option Artifact :=
  updateWhere db a (fun row => row.status = .pending)
    fun row => { row with status := .failed, uploadLeaseExpiresAt := none }

/-- The only table an update of `artifacts` writes is `artifacts`. -/
theorem updateWhere_frame (db : Db) (a : ArtifactId) (cond : Artifact → Prop)
    [DecidablePred cond] (set : Artifact → Artifact) :
    (updateWhere db a cond set).1 =
      { db with artifacts := (updateWhere db a cond set).1.artifacts } := by
  unfold updateWhere
  split
  · split <;> rfl
  · rfl

end ArtifactsRepo

end PosttrainPlatform
