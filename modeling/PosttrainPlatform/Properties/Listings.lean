import Mathlib.Data.String.Basic
import PosttrainPlatform.Properties.Knows
import PosttrainPlatform.Repository.Listings

/-!
# Reading lists while they grow

A client reads the versions of a dataset or a model, or the results of an evaluation, page by page, and
the platform goes on meanwhile.  None of these rows is ever taken back, so he misses none that was there
when he began.
-/

namespace PosttrainPlatform

open Paging Programs

variable {env : Env} {s : World} {states : ℕ → System env} {moments : ℕ → List (SysEvent env)}

/-- The pages are read one after the other in one run. -/
structure ReadInTurn (s : World) (moments : ℕ → List (SysEvent env)) (states : ℕ → System env) :
    Prop where
  reaches : ∀ k, Reaches s (moments k) (states k)
  inTurn : ∀ k, moments k <+: moments (k + 1)

/-- A table without deletions grows from page to page. -/
theorem ReadInTurn.extends {κ ρ : Type} [DecidableEq κ] (h : ReadInTurn s moments states)
    {table : Db → Table κ ρ}
    (hgrow : ∀ s s' : World, s.Grows s' → (table s.db).Extends (table s'.db)) (k : ℕ) :
    (table (states k).shared.db).Extends (table (states (k + 1)).shared.db) := by
  refine kept_of_reaches (P := fun s => (table (states k).shared.db).Extends (table s.db))
    (fun s s' hs hext key row hrow => hgrow s s' hs key row (hext key row hrow))
    (h.reaches (k + 1)) (h.inTurn k) (h.reaches k).2 (.refl _)

/-- The versions of a dataset or a model are told apart by their numbers. -/
theorem version_of_number {d : ℕ} (v v' : VersionRef) (hv : decide (v.1 = d) = true)
    (hv' : decide (v'.1 = d) = true) (hn : OrderDual.toDual v.2 = OrderDual.toDual v'.2) : v = v' :=
  Prod.ext ((of_decide_eq_true hv).trans (of_decide_eq_true hv').symm) (OrderDual.toDual.injective hn)

/-- **Pages miss nothing**: when a client reads the versions of a dataset or a model, or the results of
an evaluation, page by page until one is not full, he has seen every row that was there when he began,
whatever is inserted while he reads. -/
theorem pages_complete {β : Type} [LinearOrder β] (collation : String → β)
    (hcollation : Function.Injective collation) (h : ReadInTurn s moments states) (limit last : ℕ) :
    (∀ d n a, (DatasetsRepo.listVersions (states last).shared.db d limit (last * limit)).length <
        limit → (states 0).shared.db.datasetVersions.lookup (d, n) = some a →
      ∃ k ≤ last, ((d, n), a) ∈
        DatasetsRepo.listVersions (states k).shared.db d limit (k * limit)) ∧
    (∀ m n row, (ModelsRepo.listVersions (states last).shared.db m limit (last * limit)).length <
        limit → (states 0).shared.db.modelVersions.lookup (m, n) = some row →
      ∃ k ≤ last, ((m, n), row) ∈
        ModelsRepo.listVersions (states k).shared.db m limit (k * limit)) ∧
    ∀ run exampleId row, (EvaluationResultsRepo.listForRun collation (states last).shared.db run limit
        (last * limit)).length < limit →
      (states 0).shared.db.evaluationResults.lookup (run, exampleId) = some row →
      ∃ k ≤ last, ((run, exampleId), row) ∈
        EvaluationResultsRepo.listForRun collation (states k).shared.db run limit (k * limit) := by
  refine ⟨fun d n a hshort hrow => ?_, fun m n row hshort hrow => ?_,
    fun run exampleId row hshort hrow => ?_⟩
  · exact mem_tablePage (fun k => (states k).shared.db.datasetVersions) version_of_number
      (h.extends fun _ _ hs => hs.records.datasetVersions) hshort (decide_eq_true rfl) hrow
  · exact mem_tablePage (fun k => (states k).shared.db.modelVersions) version_of_number
      (h.extends fun _ _ hs => hs.records.modelVersions) hshort (decide_eq_true rfl) hrow
  · refine mem_tablePage (fun k => (states k).shared.db.evaluationResults)
      (fun key key' hown hown' hsame => ?_) (h.extends fun _ _ hs => hs.records.evaluationResults)
      hshort (decide_eq_true rfl) hrow
    exact Prod.ext ((of_decide_eq_true hown).trans (of_decide_eq_true hown').symm)
      (hcollation hsame)

/-- A dataset with two versions. -/
def twoVersions : List (SysEvent Env.standard) :=
  session 0 (.createDataset "dataset") 1 { uuid := 1 } ++
    session 1 (.createDatasetVersion 1 [1] 7) 9 { uuid := 1 } ++
    session 2 (.createDatasetVersion 1 [2] 7) 9 { uuid := 2 }

/-- A third version is registered between the first page and the others. -/
theorem first_version_listed : ∃ states : ℕ → System Env.standard,
    ReadInTurn World.fresh (fun k => if k = 0 then twoVersions else
      twoVersions ++ session 3 (.createDatasetVersion 1 [3] 7) 9 { uuid := 3 }) states ∧
    ∃ k ≤ 3, ((1, 1), 1) ∈ DatasetsRepo.listVersions (states k).shared.db 1 1 (k * 1) := by
  obtain ⟨c, hc, hfirst⟩ := exists_reaches World.fresh_initial twoVersions
    (P := fun c : System .standard => c.shared.db.datasetVersions.lookup (1, 1) = some 1)
    (by decide +kernel)
  obtain ⟨c', hc', hshort⟩ := exists_reaches World.fresh_initial
    (twoVersions ++ session 3 (.createDatasetVersion 1 [3] 7) 9 { uuid := 3 })
    (P := fun c : System .standard => (DatasetsRepo.listVersions c.shared.db 1 1 (3 * 1)).length < 1)
    (by decide +kernel)
  have hturn : ReadInTurn World.fresh (fun k => if k = 0 then twoVersions else
      twoVersions ++ session 3 (.createDatasetVersion 1 [3] 7) 9 { uuid := 3 })
      fun k => if k = 0 then c else c' := by
    refine ⟨fun k => ?_, fun k => ?_⟩
    · cases k with
      | zero => exact hc
      | succ k => exact hc'
    · cases k with
      | zero => exact List.prefix_append _ _
      | succ k => exact List.prefix_refl _
  exact ⟨_, hturn, (pages_complete id Function.injective_id hturn 1 3).1 1 1 1 hshort
    hfirst⟩

end PosttrainPlatform
