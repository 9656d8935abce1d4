import PosttrainPlatform.Repository.Jobs
import PosttrainPlatform.Repository.Registry

/-!
# `app/services/lineage.py`

`get_lineage` goes from a model version to the training run that it names, and from there to the
version that the run started from.  It only reads.
-/

namespace PosttrainPlatform

/-- What `get_lineage` returns. -/
structure Lineage where
  modelVersion : ModelVersion
  artifact : Option Artifact
  trainingRun : Option TrainingRun := none
  dataset : Option String := none
  datasetVersion : Option ArtifactId := none
  baseModelVersion : Option (VersionRef × ModelVersion) := none
  job : Option Job := none

/-- `get_version`; no version has the number `NULL`. -/
def ModelsRepo.getVersion (db : Db) (m : ℕ) : Option ℕ → Option (VersionRef × ModelVersion)
  | none => none
  | some n => (db.modelVersions.lookup (m, n)).map fun row => ((m, n), row)

/-- `get_lineage`. -/
def getLineage (db : Db) (v : VersionRef) : Option Lineage :=
  (db.modelVersions.lookup v).map fun modelVersion =>
    let artifact := db.artifacts.lookup modelVersion.artifactId
    match modelVersion.trainingRunId.bind fun run => db.trainingRuns.lookup run with
    | none => { modelVersion, artifact }
    | some run =>
        { modelVersion
          artifact
          trainingRun := some run
          datasetVersion := db.datasetVersions.lookup run.dataset
          dataset := db.datasets.lookup run.dataset.1
          job := JobsRepo.get db run.jobId
          baseModelVersion :=
            run.baseModel.1.bind fun m => ModelsRepo.getVersion db m run.baseModel.2 }

/-- The version that a version was trained from, as `get_lineage` finds it. -/
def baseOf (db : Db) (v : VersionRef) : Option VersionRef := do
  let lineage ← getLineage db v
  let base ← lineage.baseModelVersion
  pure base.1

end PosttrainPlatform
