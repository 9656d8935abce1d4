import PosttrainPlatform.Services.Training

/-!
# `app/services/datasets.py`, `models.py` and `reconciler.py`

The calls that fill the registries, and the sweep over pending artifacts.
-/

namespace PosttrainPlatform

open Service

/-- `create_dataset`. -/
def createDataset (name : String) : Service ℕ := exec (.createDataset name)

/-- `create_dataset_version`. -/
def createDatasetVersion (env : Env) (d : ℕ) (data : Bytes) (uploader : WorkerId) :
    Service VersionRef := do
  check (.http 404) (← exec (.getDataset d))
  let (a, artifact) ← uploadArtifact env data uploader
  check (.http 502) (artifact.status = .uploaded)
  let n ← exec (.nextDatasetVersion d)
  exec (.createDatasetVersion (d, n) a)
  pure (d, n)

/-- `create_model`. -/
def createModel (name : String) : Service ℕ := exec (.createModel name)

/-- `register_version`. -/
def registerVersion (m : ℕ) (a : ArtifactId) (trainingRunId : Option RunId) :
    Service VersionRef := do
  check (.http 404) (← exec (.getModel m))
  let artifact ← found (.http 409) (← exec (.getArtifact a))
  check (.http 409) (artifact.status = .uploaded)
  let existing ← exec (.getModelVersionByArtifact a)
  check (.http 409) existing.isNone
  let n ← exec (.nextModelVersion m)
  exec (.createModelVersion (m, n) { artifactId := a, trainingRunId })
  pure (m, n)

/-- One artifact of `reconcile_pending_artifacts`, and what it adds to the counts. -/
def reconcile (a : ArtifactId) (row : Artifact) : Service (ℕ × ℕ) := do
  if ← objectExistsWithHash row.contentHash row.contentHash then do
    let _ ← exec (.objectSize row.contentHash)
    let result ← exec (.reconcileToUploaded a)
    pure (if result.isSome then (1, 0) else (0, 0))
  else do
    let result ← exec (.reconcileToFailed a)
    pure (if result.isSome then (0, 1) else (0, 0))

/-- The loop of `reconcile_pending_artifacts`. -/
def reconcileAll : List (ArtifactId × Artifact) → ℕ → ℕ → Service (ℕ × ℕ)
  | [], healed, failed => pure (healed, failed)
  | (a, row) :: rest, healed, failed => do
      let counts ← reconcile a row
      reconcileAll rest (healed + counts.1) (failed + counts.2)

/-- `reconcile_pending_artifacts`. -/
def reconcilePendingArtifacts : Service (ℕ × ℕ) := do
  let pending ← exec .listReconcilable
  reconcileAll pending 0 0

end PosttrainPlatform
