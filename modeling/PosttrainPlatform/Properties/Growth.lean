import PosttrainPlatform.Properties.AttemptLog
import PosttrainPlatform.Properties.Records

/-!
# What the platform never takes back

The rows of runs, results, metrics, checkpoints, outputs and versions stay as they were inserted, an
artifact keeps its content and the status it has come to, and an object stays at its key.  A lost
attempt stays lost.  `World.Grows` collects these facts; what an answer once said about them is still
true later.
-/

namespace PosttrainPlatform

open Programs

/-- The row is the old one but for the status of the run. -/
def EvaluationRun.SameInputs (row row' : EvaluationRun) : Prop :=
  row'.jobId = row.jobId ∧ row'.model = row.model ∧ row'.dataset = row.dataset ∧
    row'.evaluationConfigId = row.evaluationConfigId ∧ row'.baseline = row.baseline ∧
    row'.createdAt = row.createdAt

theorem EvaluationRun.SameInputs.refl (row : EvaluationRun) : row.SameInputs row :=
  ⟨rfl, rfl, rfl, rfl, rfl, rfl⟩

/-- The artifact keeps its content, and its status unless it is pending. -/
def Artifact.Becomes (row row' : Artifact) : Prop :=
  row'.contentHash = row.contentHash ∧ (row.status ≠ .pending → row'.status = row.status)

theorem Artifact.Becomes.refl (row : Artifact) : row.Becomes row := ⟨rfl, fun _ => rfl⟩

/-- **What persists of the records.** -/
structure Records.Grows (c c' : Records) : Prop where
  trainingRuns : c.trainingRuns.Extends c'.trainingRuns
  evaluationRuns : ∀ run row, c.evaluationRuns.lookup run = some row →
    ∃ row', c'.evaluationRuns.lookup run = some row' ∧ row.SameInputs row'
  evaluationConfigs : c'.evaluationConfigs = c.evaluationConfigs
  qualityGates : c'.qualityGates = c.qualityGates
  modelVersions : c.modelVersions.Extends c'.modelVersions
  datasetVersions : c.datasetVersions.Extends c'.datasetVersions
  artifacts : ∀ a row, c.artifacts.lookup a = some row →
    ∃ row', c'.artifacts.lookup a = some row' ∧ row.Becomes row'
  checkpoints : c.checkpoints.Extends c'.checkpoints
  trainingMetrics : c.trainingMetrics ⊆ c'.trainingMetrics
  trainingRunOutputs : c.trainingRunOutputs.Extends c'.trainingRunOutputs
  attemptResumeDecisions : c.attemptResumeDecisions.Extends c'.attemptResumeDecisions
  evaluationResults : c.evaluationResults.Extends c'.evaluationResults
  evaluationMetrics : c.evaluationMetrics.Extends c'.evaluationMetrics
  qualityGateResults : c.qualityGateResults.Extends c'.qualityGateResults

theorem Records.Grows.refl (c : Records) : c.Grows c where
  trainingRuns := .refl _
  evaluationRuns _ row hrow := ⟨row, hrow, .refl row⟩
  evaluationConfigs := rfl
  qualityGates := rfl
  modelVersions := .refl _
  datasetVersions := .refl _
  artifacts _ row hrow := ⟨row, hrow, .refl row⟩
  checkpoints := .refl _
  trainingMetrics := fun _ => id
  trainingRunOutputs := .refl _
  attemptResumeDecisions := .refl _
  evaluationResults := .refl _
  evaluationMetrics := .refl _
  qualityGateResults := .refl _

/-- **No statement takes a record back.** -/
theorem RecordStep.grows {env : Env} {db : Db} {i : Input} {op : Op} {c : Records}
    (h : RecordStep env db i op c) : db.records.Grows c := by
  have hsame := Records.Grows.refl db.records
  cases h with
  | skip => exact hsame
  | createTrainingRun hfree => exact { hsame with trainingRuns := .insert hfree _ }
  | createEvaluationRun hfree =>
      refine { hsame with evaluationRuns := fun run row hrow => ?_ }
      exact ⟨row, Table.Extends.insert hfree _ run row hrow, .refl row⟩
  | createPending hfree =>
      refine { hsame with artifacts := fun a row hrow => ?_ }
      exact ⟨row, Table.Extends.insert hfree _ a row hrow, .refl row⟩
  | artifact hrow hpending hhash hstatus =>
      refine { hsame with artifacts := Table.updated Artifact.Becomes.refl hrow ⟨hhash, ?_⟩ }
      exact fun hs => absurd hpending hs
  | createDatasetVersion hfree => exact { hsame with datasetVersions := .insert hfree _ }
  | createModelVersion hfree _ _ => exact { hsame with modelVersions := .insert hfree _ }
  | registerCheckpoint howns hstep hfree ha hnew =>
      exact { hsame with checkpoints := .insert hfree _ }
  | registerOutput howns hfree => exact { hsame with trainingRunOutputs := .insert hfree _ }
  | recordMetric howns hstep =>
      exact { hsame with trainingMetrics := List.subset_append_left _ _ }
  | recordResumeDecision howns hfree =>
      exact { hsame with attemptResumeDecisions := .insert hfree _ }
  | markRunStatus howns hrow =>
      refine { hsame with
        evaluationRuns := Table.updated EvaluationRun.SameInputs.refl hrow
          ⟨?_, ?_, ?_, ?_, ?_, ?_⟩ }
      all_goals rfl
  | recordResult howns hfree => exact { hsame with evaluationResults := .insert hfree _ }
  | recordEvaluationMetric howns hname hpart hcount hfree =>
      exact { hsame with evaluationMetrics := .insert hfree _ }
  | recordGateResult hrow hs hfree => exact { hsame with qualityGateResults := .insert hfree _ }

/-- **What persists.** -/
structure World.Grows (s s' : World) : Prop where
  records : s.db.records.Grows s'.db.records
  store : ∀ key, (s.store.lookup key).isSome → (s'.store.lookup key).isSome
  attempts : ∀ key, (s.db.attempts.lookup key).isSome → (s'.db.attempts.lookup key).isSome
  attempted : ∀ j k, s.db.Attempted j k → s'.db.Attempted j k
  lost : LeasesOk s.db.jobs → ∀ j w k, LostAttempt s.db.jobs j w k → LostAttempt s'.db.jobs j w k

theorem World.Grows.refl (s : World) : s.Grows s :=
  ⟨.refl _, fun _ h => h, fun _ h => h, fun _ _ h => h, fun _ _ _ _ h => h⟩

theorem finalizeTx_attempts {env : Env} {db db' : Db} {j : JobId} {w : WorkerId} {k : ℕ}
    {ending : Ending} {now : Time} {b : Bool}
    (h : finalizeTx env db j w k ending now = some (db', b)) {key : JobId × ℕ}
    (hkey : (db.attempts.lookup key).isSome) : (db'.attempts.lookup key).isSome := by
  unfold finalizeTx at h
  simp only at h
  split at h
  · cases h
  rename_i db₁ hfin
  split at h
  swap
  · cases h
    exact hkey
  split at h
  · cases h
  rename_i db₂ hdead
  obtain ⟨db₃, hrel, heq⟩ := Option.map_eq_some_iff.mp h
  cases heq
  rw [ReservationsRepo.release_frame hrel, deadLetter_frame hdead]
  have hkey₁ : ((JobsRepo.finalizeAttempt db j w k ending.jobStatus
      ending.nextRetryAt?).1.attempts.lookup key).isSome := by
    rw [show (JobsRepo.finalizeAttempt db j w k ending.jobStatus ending.nextRetryAt?).1.attempts =
      db.attempts from updateWhere_attempts _ _ _ _]
    exact hkey
  unfold AttemptsRepo.finalize at hfin
  split at hfin
  · cases hfin
    exact hkey₁
  · obtain ⟨message, _, rfl⟩ := Option.map_eq_some_iff.mp hfin
    simp only [Table.lookup_insert_eq]
    split
    · rfl
    · exact hkey₁

theorem reclaimTx_attempts {env : Env} {db db' : Db} {j : JobId} {t now : Time} {b : Bool}
    (h : reclaimTx env db j t now = some (db', b)) {key : JobId × ℕ}
    (hkey : (db.attempts.lookup key).isSome) : (db'.attempts.lookup key).isSome := by
  unfold reclaimTx at h
  simp only at h
  split at h
  · obtain ⟨db₁, hrel, heq⟩ := Option.map_eq_some_iff.mp h
    cases heq
    rw [ReservationsRepo.release_frame hrel]
    simp only [AttemptsRepo.markLost, Table.lookup_insert_eq]
    split
    · rfl
    · rw [show (JobsRepo.reclaimStale db j env.settings.maxAttempts t now).1.attempts =
        db.attempts from updateWhere_attempts _ _ _ _]
      exact hkey
  · cases h
    exact hkey

/-- No statement deletes an attempt. -/
theorem perform_attempts (env : Env) (p : ℕ) (i : Input) (s : World) (op : Op) {key : JobId × ℕ}
    (hkey : (s.db.attempts.lookup key).isSome) :
    ((op.perform env p i s).1.db.attempts.lookup key).isSome := by
  by_cases hlogs : op.logs = true
  · cases op
    case insertAttempt j k =>
        refine tryWrite_db (R := fun db => (db.attempts.lookup key).isSome) hkey fun db b h => ?_
        obtain ⟨db₁, hdb, heq⟩ := Option.map_eq_some_iff.mp h
        obtain ⟨attempts, hattempts, rfl⟩ := Option.map_eq_some_iff.mp hdb
        obtain ⟨hfree, rfl⟩ := Table.insertNew_eq_some.mp hattempts
        cases heq
        obtain ⟨row, hrow⟩ := Option.isSome_iff_exists.mp hkey
        rw [Table.Extends.insert hfree _ key row hrow]
        rfl
    case finalize =>
        exact tryWrite_db (R := fun db => (db.attempts.lookup key).isSome) hkey
          fun db b h => finalizeTx_attempts h hkey
    case reclaim =>
        exact tryWrite_db (R := fun db => (db.attempts.lookup key).isSome) hkey
          fun db b h => reclaimTx_attempts h hkey
    all_goals cases hlogs
  · rw [Bool.not_eq_true] at hlogs
    rw [perform_attempts_eq env p i s hlogs]
    exact hkey

/-- **No statement takes anything back.** -/
theorem perform_grows (env : Env) (p : ℕ) (i : Input) (s : World) (op : Op) :
    s.Grows (op.perform env p i s).1 where
  records := (perform_records env p i s op).grows
  store key hkey := by
    by_cases hop : ∃ key data, op = .upload key data
    · obtain ⟨key', data, rfl⟩ := hop
      simp only [Op.perform, Table.lookup_insert_eq]
      split
      · rfl
      · exact hkey
    · push Not at hop
      rw [perform_store env p i s fun key data => hop key data]
      exact hkey
  attempts key hkey := perform_attempts env p i s op hkey
  attempted j k h := perform_attempted env p i s op h
  lost hok j w k h := h.step (perform_core env p i s op).rows hok

/-- A round of a heartbeat thread takes nothing back. -/
theorem beat_grows (env : Env) (s : World) (p : ℕ) (now : Time) : s.Grows (s.beat env p now) where
  records := by
    rw [beat_frame]
    exact .refl _
  store key hkey := by
    rw [beat_frame]
    exact hkey
  attempts key hkey := by
    rw [beat_frame]
    exact hkey
  attempted j k h := by
    obtain ⟨job, hj, hk⟩ := h
    obtain hsame | ⟨job', w, k', t, hj', _, hmoved⟩ := beat_lookup env s p now j
    · exact ⟨job, hsame.trans hj, hk⟩
    · rw [hj] at hj'
      cases hj'
      exact ⟨_, hmoved, hk⟩
  lost hok j w k h := h.step (beat_rows env s p now) hok

end PosttrainPlatform
