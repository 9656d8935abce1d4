import PosttrainPlatform.Model.Schema

/-!
# The registries and the quality gates

`app/repository/datasets.py`, `models.py` and `quality_gate_results.py`.  A version number is the
largest one of its model or dataset, read by a query of its own before the insert, plus one.
-/

namespace PosttrainPlatform

/-- `next_version_number`, over the version numbers in use. -/
def nextVersionNumber (refs : List VersionRef) (id : ℕ) : ℕ :=
  ((refs.filter fun v => v.1 = id).map Prod.snd).foldr max 0 + 1

namespace DatasetsRepo

/-- `create`; a name is unique. -/
def create (db : Db) (d : ℕ) (name : String) : Option Db :=
  if ∃ r ∈ db.datasets.rows, r.2 = name then none
  else (db.datasets.insertNew d name).map fun datasets => { db with datasets }

theorem create_frame {db db' : Db} {d : ℕ} {name : String} (h : create db d name = some db') :
    db' = { db with datasets := db'.datasets } := by
  unfold create at h
  split at h
  · cases h
  · obtain ⟨datasets, _, rfl⟩ := Option.map_eq_some_iff.mp h
    rfl

/-- `get`. -/
def get (db : Db) (d : ℕ) : Bool := (db.datasets.lookup d).isSome

def nextVersion (db : Db) (d : ℕ) : ℕ := nextVersionNumber (db.datasetVersions.rows.map Prod.fst) d

/-- `create_version` after its query: a number that is taken is an integrity error. -/
def createVersion (db : Db) (v : VersionRef) (a : ArtifactId) : Option Db :=
  (db.datasetVersions.insertNew v a).map fun datasetVersions => { db with datasetVersions }

end DatasetsRepo

namespace ModelsRepo

/-- `create`; a name is unique. -/
def create (db : Db) (m : ℕ) (name : String) : Option Db :=
  if ∃ r ∈ db.models.rows, r.2 = name then none
  else (db.models.insertNew m name).map fun models => { db with models }

theorem create_frame {db db' : Db} {m : ℕ} {name : String} (h : create db m name = some db') :
    db' = { db with models := db'.models } := by
  unfold create at h
  split at h
  · cases h
  · obtain ⟨models, _, rfl⟩ := Option.map_eq_some_iff.mp h
    rfl

/-- `get`. -/
def get (db : Db) (m : ℕ) : Bool := (db.models.lookup m).isSome

def nextVersion (db : Db) (m : ℕ) : ℕ := nextVersionNumber (db.modelVersions.rows.map Prod.fst) m

/-- `get_version_by_artifact`. -/
def getVersionByArtifact (db : Db) (a : ArtifactId) : Option (VersionRef × ModelVersion) :=
  db.modelVersions.rows.find? fun r => r.2.artifactId == a

/-- `create_version` after its query: the number and the artifact are unique, and the training run
exists, if one is named. -/
def createVersion (db : Db) (v : VersionRef) (row : ModelVersion) : Option Db :=
  match getVersionByArtifact db row.artifactId with
  | some _ => none
  | none =>
      if ∃ run ∈ row.trainingRunId, db.trainingRuns.lookup run = none then none
      else (db.modelVersions.insertNew v row).map fun modelVersions => { db with modelVersions }

end ModelsRepo

namespace QualityGateResultsRepo

/-- `record`: one statement with the clause that the run is SUCCEEDED, and `ON CONFLICT DO
NOTHING`. -/
def record (db : Db) (run : RunId) (gate : ℕ) (status : GateStatus) (ruleResults : List Json)
    (now : Time) : Db × Bool :=
  if ∃ row ∈ db.evaluationRuns.lookup run, row.status = .succeeded then
    match db.qualityGateResults.insertNew (run, gate) { status, ruleResults, evaluatedAt := now } with
    | none => (db, false)
    | some qualityGateResults => ({ db with qualityGateResults }, true)
  else (db, false)

end QualityGateResultsRepo

end PosttrainPlatform
