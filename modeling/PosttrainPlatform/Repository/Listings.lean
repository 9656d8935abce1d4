import PosttrainPlatform.Lib.Paging
import PosttrainPlatform.Model.Schema

/-!
# Lists that are read in pages

`list_versions` of `app/repository/datasets.py` and `models.py`, and `list_for_run` of
`evaluation_results.py`.  The total that they return beside the items is read by a query of its own.
-/

namespace PosttrainPlatform

open Paging

/-- `list_versions` of a dataset: the latest version first. -/
def DatasetsRepo.listVersions (db : Db) (d limit offset : ℕ) : List (VersionRef × ArtifactId) :=
  tablePage db.datasetVersions (fun v => v.1 = d) (fun v => OrderDual.toDual v.2) limit offset

/-- `list_versions` of a model: the latest version first. -/
def ModelsRepo.listVersions (db : Db) (m limit offset : ℕ) : List (VersionRef × ModelVersion) :=
  tablePage db.modelVersions (fun v => v.1 = m) (fun v => OrderDual.toDual v.2) limit offset

/-- `list_for_run`, in the order that the collation of the database gives the ids of the examples. -/
def EvaluationResultsRepo.listForRun {β : Type} [LinearOrder β] (collation : String → β) (db : Db)
    (run : RunId) (limit offset : ℕ) : List ((RunId × String) × EvaluationResult) :=
  tablePage db.evaluationResults (fun key => key.1 = run) (fun key => collation key.2) limit offset

end PosttrainPlatform
