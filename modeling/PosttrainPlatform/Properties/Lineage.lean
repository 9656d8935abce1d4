import PosttrainPlatform.Lib.Ancestry
import PosttrainPlatform.Properties.Knows
import PosttrainPlatform.Services.Lineage

/-!
# The lineage of model versions

A model version names a training run, and a training run names the version that it started from.
Nothing looks for cycles; but a version is registered under a run that exists, a run is created from a
version that exists, and neither reference is ever changed.  So nobody refers yet to what is inserted.
-/

namespace PosttrainPlatform

open Ancestry Programs

variable {env : Env} {p : ℕ} {s s' : World} {h h' : Pasts}

/-! ### References between versions and runs -/

/-- A version refers to its training run, and a run to its base version. -/
inductive Records.Refers (r : Records) : VersionRef ⊕ RunId → VersionRef ⊕ RunId → Prop
  | trainingRun {v : VersionRef} {row : ModelVersion} {run : RunId}
      (hrow : r.modelVersions.lookup v = some row) (hrun : row.trainingRunId = some run) :
      Refers r (.inl v) (.inr run)
  | baseModel {run : RunId} {row : TrainingRun} {m n : ℕ}
      (hrow : r.trainingRuns.lookup run = some row) (hbase : row.baseModel = (some m, some n)) :
      Refers r (.inr run) (.inl (m, n))

/-- The constraints of the schema: an artifact has one version, and whatever is named exists. -/
structure Records.Constrained (r : Records) : Prop where
  artifacts : ∀ {v v' row row'}, r.modelVersions.lookup v = some row →
    r.modelVersions.lookup v' = some row' → row.artifactId = row'.artifactId → v = v'
  trainingRuns : ∀ {v row run}, r.modelVersions.lookup v = some row →
    row.trainingRunId = some run → ∃ x, r.trainingRuns.lookup run = some x
  baseModels : ∀ {run row m n}, r.trainingRuns.lookup run = some row →
    row.baseModel = (some m, some n) → ∃ x, r.modelVersions.lookup (m, n) = some x

/-- **The invariant**: the constraints hold, and the references are well-founded. -/
structure Records.Traceable (r : Records) : Prop where
  constrained : r.Constrained
  wellFounded : WellFounded fun y x => r.Refers x y

/-- The invariant is about two tables. -/
theorem Records.Traceable.of_eq {r r' : Records} (hr : r.Traceable)
    (hversions : r'.modelVersions = r.modelVersions) (hruns : r'.trainingRuns = r.trainingRuns) :
    r'.Traceable := by
  have hrefers : ∀ x y, r'.Refers x y → r.Refers x y := by
    intro x y hxy
    cases hxy with
    | trainingRun hrow hrun => exact .trainingRun (hversions ▸ hrow) hrun
    | baseModel hrow hbase => exact .baseModel (hruns ▸ hrow) hbase
  refine ⟨⟨?_, ?_, ?_⟩, Subrelation.wf (fun {y x} hxy => hrefers x y hxy) hr.wellFounded⟩
  · rw [hversions]
    exact hr.constrained.artifacts
  · rw [hversions, hruns]
    exact hr.constrained.trainingRuns
  · rw [hversions, hruns]
    exact hr.constrained.baseModels

/-! ### What is inserted -/

/-- **A version is registered**: no run starts from it yet. -/
theorem Records.Traceable.createModelVersion {r : Records} {v : VersionRef} {row : ModelVersion}
    (hr : r.Traceable) (hfree : r.modelVersions.lookup v = none)
    (hnew : ∀ v' row', r.modelVersions.lookup v' = some row' → row'.artifactId ≠ row.artifactId)
    (hrun : ∀ run ∈ row.trainingRunId, ∃ x, r.trainingRuns.lookup run = some x) :
    Records.Traceable { r with modelVersions := r.modelVersions.insert v row } := by
  refine ⟨⟨?_, ?_, ?_⟩, wellFounded_of_source (a := .inl v) hr.wellFounded ?_ ?_⟩
  · intro u u' x x' hx hx' hsame
    obtain ⟨rfl, rfl⟩ | hold := lookup_insert_cases hx
    · obtain ⟨rfl, _⟩ | hold' := lookup_insert_cases hx'
      · rfl
      · exact absurd hsame.symm (hnew u' x' hold')
    · obtain ⟨rfl, rfl⟩ | hold' := lookup_insert_cases hx'
      · exact absurd hsame (hnew u x hold)
      · exact hr.constrained.artifacts hold hold' hsame
  · intro u x run hx hnamed
    obtain ⟨rfl, rfl⟩ | hx := lookup_insert_cases hx
    · exact hrun run hnamed
    · exact hr.constrained.trainingRuns hx hnamed
  · intro run x m n hx hbase
    obtain ⟨y, hy⟩ := hr.constrained.baseModels hx hbase
    exact Table.exists_lookup_insert hy
  · intro x y hxy
    cases hxy with
    | trainingRun hrow hnamed =>
        obtain ⟨rfl, _⟩ | hrow := lookup_insert_cases hrow
        · exact .inl rfl
        · exact .inr (.trainingRun hrow hnamed)
    | baseModel hrow hbase => exact .inr (.baseModel hrow hbase)
  · intro x hx
    cases hx with
    | baseModel hrow hbase =>
        obtain ⟨y, hy⟩ := hr.constrained.baseModels hrow hbase
        rw [hfree] at hy
        cases hy

/-- **A run is created**: no version is registered under it yet. -/
theorem Records.Traceable.createTrainingRun {r : Records} {run : RunId} {row : TrainingRun}
    (hr : r.Traceable) (hfree : r.trainingRuns.lookup run = none)
    (hbase : ∀ m n, row.baseModel = (some m, some n) → ∃ x, r.modelVersions.lookup (m, n) = some x) :
    Records.Traceable { r with trainingRuns := r.trainingRuns.insert run row } := by
  refine ⟨⟨hr.constrained.artifacts, ?_, ?_⟩,
    wellFounded_of_source (a := .inr run) hr.wellFounded ?_ ?_⟩
  · intro v x run' hx hnamed
    obtain ⟨y, hy⟩ := hr.constrained.trainingRuns hx hnamed
    exact Table.exists_lookup_insert hy
  · intro run' x m n hx hnamed
    obtain ⟨_, rfl⟩ | hx := lookup_insert_cases hx
    · exact hbase m n hnamed
    · exact hr.constrained.baseModels hx hnamed
  · intro x y hxy
    cases hxy with
    | trainingRun hrow hnamed => exact .inr (.trainingRun hrow hnamed)
    | baseModel hrow hnamed =>
        obtain ⟨rfl, _⟩ | hrow := lookup_insert_cases hrow
        · exact .inl rfl
        · exact .inr (.baseModel hrow hnamed)
  · intro x hx
    cases hx with
    | trainingRun hrow hnamed =>
        obtain ⟨y, hy⟩ := hr.constrained.trainingRuns hrow hnamed
        rw [hfree] at hy
        cases hy

/-! ### Every run -/

/-- The base version of a run that is created exists. -/
theorem Knows.baseVersion (hk : Knows env s h) {row : TrainingRun}
    (hop : Past.Justifies env (h p) (.createTrainingRun row)) {m n : ℕ}
    (hbase : row.baseModel = (some m, some n)) : ∃ x, s.db.modelVersions.lookup (m, n) = some x := by
  have hfound : Past.FoundVersion (h p) row.baseModel := hop.2
  rw [hbase] at hfound
  obtain ⟨n', x, hn, hread⟩ := hfound m rfl
  obtain rfl := Option.some.inj hn
  exact ⟨x, hk.told p _ _ hread x rfl⟩

/-- **Every statement keeps the lineage well-founded.** -/
theorem Records.Traceable.step {i : Input} {op : Op} {r : Records} (hr : s.db.records.Traceable)
    (hstep : RecordStep env s.db i op r) (hk : Knows env s h)
    (hop : Past.Justifies env (h p) op) : r.Traceable := by
  cases hstep with
  | createModelVersion hfree hnew hrun => exact hr.createModelVersion hfree hnew hrun
  | createTrainingRun hfree =>
      exact hr.createTrainingRun hfree fun m n hbase => hk.baseVersion hop hbase
  | _ => exact hr.of_eq rfl rfl

theorem traceable_invariant (env : Env) :
    HistoryInvariant (M := platform env) (Past.Disciplined env)
      (fun s _ => s.db.records.Traceable) (Knows env) fun _ _ _ => True where
  perform p i _ op s h hk hr hop _ := hr.step (perform_records env p i s op) hk hop.2
  fault _ _ _ _ _ _ hr _ := hr
  halt _ _ _ _ hr := hr
  ambient a s h _ hr := by
    show (s.beat env a.1 a.2).db.records.Traceable
    rw [beat_frame]
    exact hr

/-- Before the first run, no version names one. -/
theorem traceable_initial (hs : s.Initial) (hconstrained : s.db.records.Constrained) :
    s.db.records.Traceable := by
  have hruns : s.db.records.trainingRuns = ∅ := by
    rw [hs.db]
    rfl
  have hnone : ∀ x y, ¬s.db.records.Refers x y := by
    intro x y hxy
    cases hxy with
    | trainingRun hrow hrun =>
        obtain ⟨y, hy⟩ := hconstrained.trainingRuns hrow hrun
        rw [hruns] at hy
        cases hy
    | baseModel hrow _ =>
        rw [hruns] at hrow
        cases hrow
  exact ⟨hconstrained, ⟨fun x => Acc.intro x fun y hxy => absurd hxy (hnone x y)⟩⟩

theorem traceable_of_reaches {es : List (SysEvent env)} {c : System env} (h : Reaches s es c)
    (hs : s.db.records.Constrained) : c.shared.db.records.Traceable :=
  (traceable_invariant env).run (disciplined_program env) (traceable_initial h.1 hs)
    (fun _ _ _ hm => knows_of_reaches ⟨h.1, hm⟩)
    (Runs.always_of_forall (Config.atStep_of_forall fun _ _ _ => trivial) _ es) h.2

/-! ### The chain of a version -/

/-- From a version to its base version there are two references. -/
theorem refers_of_baseOf {db : Db} {v b : VersionRef} (h : baseOf db v = some b) :
    ∃ run, db.records.Refers (.inl v) (.inr run) ∧ db.records.Refers (.inr run) (.inl b) := by
  obtain ⟨lineage, hlineage, h⟩ := Option.bind_eq_some_iff.mp h
  obtain ⟨base, hbase, h⟩ := Option.bind_eq_some_iff.mp h
  obtain rfl := Option.some.inj h
  obtain ⟨row, hrow, rfl⟩ := Option.map_eq_some_iff.mp hlineage
  cases hrun : row.trainingRunId.bind fun run => db.trainingRuns.lookup run with
  | none =>
      rw [hrun] at hbase
      cases hbase
  | some trained =>
      rw [hrun] at hbase
      obtain ⟨run, hnamed, htrained⟩ := Option.bind_eq_some_iff.mp hrun
      obtain ⟨m, hm, hbase⟩ := Option.bind_eq_some_iff.mp hbase
      cases hn : trained.baseModel.2 with
      | none =>
          rw [hn] at hbase
          cases hbase
      | some n =>
          rw [hn] at hbase
          obtain ⟨row', _, rfl⟩ := Option.map_eq_some_iff.mp hbase
          exact ⟨run, .trainingRun hrow hnamed, .baseModel htrained (Prod.ext hm hn)⟩

/-- What makes the lineages of a state sound. -/
structure Db.SoundLineage (db : Db) : Prop where
  /-- Following the base versions ends, at every version. -/
  terminates : ∀ v, ∃ chain, Chain (baseOf db) v chain
  /-- No version is its own ancestor. -/
  acyclic : ∀ v, ¬Relation.TransGen (fun v b => baseOf db v = some b) v v
  /-- No artifact is in a chain twice. -/
  artifacts : ∀ v chain, Chain (baseOf db) v chain →
    (chain.filterMap fun u => (db.modelVersions.lookup u).map fun row => row.artifactId).Nodup

theorem Records.Traceable.soundLineage {db : Db} (hr : db.records.Traceable) : db.SoundLineage := by
  have hwf : WellFounded fun b v => baseOf db v = some b := by
    have htwo : WellFounded (Relation.TransGen fun y x => db.records.Refers x y) :=
      hr.wellFounded.transGen
    refine Subrelation.wf (fun {b v} hbase => ?_) (InvImage.wf Sum.inl htwo)
    obtain ⟨run, hrun, hmodel⟩ := refers_of_baseOf hbase
    exact .head hmodel (.single hrun)
  refine ⟨exists_chain hwf, not_transGen_self hwf, fun v chain hchain => ?_⟩
  refine List.Nodup.filterMap (fun u u' a hu hu' => ?_) (hchain.nodup hwf)
  obtain ⟨row, hrow, rfl⟩ := Option.map_eq_some_iff.mp hu
  obtain ⟨row', hrow', hsame⟩ := Option.map_eq_some_iff.mp hu'
  exact hr.constrained.artifacts hrow hrow' hsame.symm

/-- **Lineage is well-founded** in every state that is reached. -/
theorem lineage_sound {es : List (SysEvent env)} {c : System env} (h : Reaches s es c)
    (hs : s.db.records.Constrained) : c.shared.db.SoundLineage :=
  (traceable_of_reaches h hs).soundLineage

theorem World.fresh_constrained : World.fresh.db.records.Constrained where
  artifacts := by
    intro v v' row row' hrow
    cases hrow
  trainingRuns := by
    intro v row run hrow
    cases hrow
  baseModels := by
    intro run row m n hrow
    cases hrow

/-- A version is registered, a run starts from it, and two versions are registered under that run. -/
def registerThree : List (SysEvent Env.standard) :=
  session 0 (.createModel "model") 1 { uuid := 1 } ++
    session 1 (.createDataset "dataset") 1 { uuid := 1 } ++
    session 2 (.uploadArtifact [1] 7) 6 { uuid := 1 } ++ session 3 (.registerVersion 1 1 none) 5 {} ++
    session 4 (.createDatasetVersion 1 [1] 7) 4 {} ++
    session 5 (.createTrainingRun { trainingPayload with baseModel := (some 1, some 1) }) 4
      { uuid := 1 } ++
    session 6 (.uploadArtifact [2] 7) 6 { uuid := 2 } ++
    session 7 (.registerVersion 1 2 (some 1)) 5 {} ++
    session 8 (.uploadArtifact [3] 7) 6 { uuid := 3 } ++
    session 9 (.registerVersion 1 3 (some 1)) 5 {}

/-- Both versions under the run have the first one as their base. -/
theorem lineage_sound_three : ∃ c : System Env.standard, Reaches World.fresh registerThree c ∧
    c.shared.db.SoundLineage ∧ baseOf c.shared.db (1, 2) = some (1, 1) ∧
      baseOf c.shared.db (1, 3) = some (1, 1) := by
  obtain ⟨c, hc, hsecond, hthird⟩ := exists_reaches World.fresh_initial registerThree
    (P := fun c : System .standard => baseOf c.shared.db (1, 2) = some (1, 1) ∧
      baseOf c.shared.db (1, 3) = some (1, 1)) (by decide +kernel)
  exact ⟨c, hc, lineage_sound hc World.fresh_constrained, hsecond, hthird⟩

end PosttrainPlatform
