import PosttrainPlatform.Properties.Discipline
import PosttrainPlatform.Properties.Growth
import PosttrainPlatform.Properties.Order

/-!
# What the answers of a run have established

`Op.Told` says what an answer establishes about the database for good: rows that were read are still
there, an attempt that was refused a write is lost, an insert that went through has left its row.  In
the other direction every row of a run was written by somebody (`Sources`).  `Knows` holds of every
state that the platform reaches, together with the histories that have led to it.
-/

namespace PosttrainPlatform

open Programs

/-- What stands behind every statement of a run. -/
def Past.Disciplined (env : Env) (h : Past) (op : Op) : Prop := h.InOrder op ∧ h.Justifies env op

/-- **Every call keeps the discipline.** -/
theorem disciplined_program (env : Env) (call : Call) :
    (call.program env).Justified (Past.Disciplined env) [] fun _ _ => True :=
  ((inOrder_program env call).and (justified_program env call)).mono fun _ _ _ => trivial

/-- The histories of all threads. -/
abbrev Pasts := Histories Op Op.Ret Exn

/-! ### What an answer establishes -/

theorem EvaluationRun.SameInputs.trans {row₁ row₂ row₃ : EvaluationRun}
    (h : row₁.SameInputs row₂) (h' : row₂.SameInputs row₃) : row₁.SameInputs row₃ :=
  ⟨h'.1.trans h.1, h'.2.1.trans h.2.1, h'.2.2.1.trans h.2.2.1, h'.2.2.2.1.trans h.2.2.2.1,
    h'.2.2.2.2.1.trans h.2.2.2.2.1, h'.2.2.2.2.2.trans h.2.2.2.2.2⟩

theorem Artifact.Becomes.trans {row₁ row₂ row₃ : Artifact} (h : row₁.Becomes row₂)
    (h' : row₂.Becomes row₃) : row₁.Becomes row₃ := by
  refine ⟨h'.1.trans h.1, fun hs => ?_⟩
  have hs₂ := h.2 hs
  rw [← hs₂] at hs ⊢
  exact h'.2 hs

/-- The artifact is there, as the row or as what has become of it. -/
def World.Continues (s : World) (a : ArtifactId) (row : Artifact) : Prop :=
  ∃ row', s.db.artifacts.lookup a = some row' ∧ row.Becomes row'

theorem World.continues_of_lookup {s : World} {a : ArtifactId} {row : Artifact}
    (h : s.db.artifacts.lookup a = some row) : s.Continues a row := ⟨row, h, .refl row⟩

/-- The attempt is lost. -/
def World.Lost (s : World) (j : JobId) (w : WorkerId) (k : ℕ) : Prop :=
  LostAttempt s.db.jobs j w k

/-- **What an answer establishes for good.** -/
def Op.Told (env : Env) (s : World) : (op : Op) → op.Ret → Prop
  | .createJob .., j => s.db.Attempted j 0
  | .claim j _, b => b = true → s.db.Attempted j 1
  | .getJob j, r => ∀ job, r = some job → s.db.Attempted j job.attemptNumber
  | .insertAttempt j k, _ => (s.db.attempts.lookup (j, k)).isSome
  | .findTrainingRun j, r => ∀ run row, r = some (run, row) →
      row.jobId = j ∧ s.db.trainingRuns.lookup run = some row
  | .findEvaluationRun j, r => ∀ run row, r = some (run, row) →
      row.jobId = j ∧ ∃ row', s.db.evaluationRuns.lookup run = some row' ∧ row.SameInputs row'
  | .getDatasetVersion v, r => ∀ a, r = some a → s.db.datasetVersions.lookup v = some a
  | .getModelVersion v, r => ∀ row, r = some row → s.db.modelVersions.lookup v = some row
  | .getEvaluationRun run, r => ∀ row, r = some row →
      ∃ row', s.db.evaluationRuns.lookup run = some row' ∧ row.SameInputs row'
  | .getEvaluationConfig c, r => s.db.evaluationConfigs.lookup c = r
  | .getQualityGate gate, r => s.db.qualityGates.lookup gate = r
  | .getArtifact a, r => ∀ row, r = some row → s.Continues a row
  | .getArtifactByHash h, r => ∀ a row, r = some (a, row) →
      row.contentHash = h ∧ s.Continues a row
  | .createPending h, a => ∃ row, s.db.artifacts.lookup a = some row ∧ row.contentHash = h
  | .claimUploadLease a _, r => ∀ row, r = some row → s.Continues a row
  | .markUploaded a _, r => ∀ row, r = some row → row.status = .uploaded ∧ s.Continues a row
  | .objectExistsWithHash key _, b => b = true → (s.store.lookup key).isSome
  | .listCheckpoints run, rows => ∀ r ∈ rows,
      r.1.1 = run ∧ s.db.checkpoints.lookup r.1 = some r.2
  | .listReconcilable, rows => ∀ r ∈ rows, s.Continues r.1 r.2
  | .recordMetric j w run k step _, b => (b = false → s.Lost j w k) ∧
      (b = true → ∃ n, intColumn env step = some n ∧
        { trainingRunId := run, attemptNumber := k, step := n } ∈ s.db.trainingMetrics)
  | .registerCheckpoint j w _ k _ _ _, b => b = false → s.Lost j w k
  | .registerOutput j w run k a, b => (b = false → s.Lost j w k) ∧
      (b = true → s.db.trainingRunOutputs.lookup run =
        some { finalArtifactId := a, attemptNumber := k })
  | .recordResumeDecision j w run k step, b => (b = false → s.Lost j w k) ∧
      (b = true → s.db.attemptResumeDecisions.lookup (run, k) = some step)
  | .markRunStatus _ j w k _ _, b => b = false → s.Lost j w k
  | .recordResult j w run k exampleId .., _ => s.Lost j w k ∨
      (s.db.evaluationResults.lookup (run, exampleId)).isSome
  | .recordEvaluationMetric j w run k metricName _ split _, _ => s.Lost j w k ∨
      ∃ name part, env.textColumn metricName = some name ∧ env.textColumn split = some part ∧
        (s.db.evaluationMetrics.lookup (run, name, part)).isSome
  | _, _ => True

/-- **What an answer has established is not taken back.** -/
theorem Op.Told.grows {env : Env} {s s' : World} (hgrow : s.Grows s') (hok : LeasesOk s.db.jobs)
    {op : Op} {a : op.Ret} (h : op.Told env s a) : op.Told env s' a := by
  have hartifact : ∀ {a row}, s.Continues a row → s'.Continues a row := by
    rintro a row ⟨row', hrow', hbecomes⟩
    obtain ⟨row'', hrow'', hbecomes'⟩ := hgrow.records.artifacts a row' hrow'
    exact ⟨row'', hrow'', hbecomes.trans hbecomes'⟩
  have hlost : ∀ {j w k}, s.Lost j w k → s'.Lost j w k := fun hl => hgrow.lost hok _ _ _ hl
  cases op
  case createJob => exact hgrow.attempted _ 0 h
  case claim j w => exact fun hb => hgrow.attempted j 1 (h hb)
  case getJob j => exact fun job hjob => hgrow.attempted j _ (h job hjob)
  case insertAttempt j k => exact hgrow.attempts (j, k) h
  case findTrainingRun j =>
      intro run row hr
      exact ⟨(h run row hr).1, hgrow.records.trainingRuns run row (h run row hr).2⟩
  case findEvaluationRun j =>
      intro run row hr
      obtain ⟨hj, row', hrow', hsame⟩ := h run row hr
      obtain ⟨row'', hrow'', hsame'⟩ := hgrow.records.evaluationRuns run row' hrow'
      exact ⟨hj, row'', hrow'', hsame.trans hsame'⟩
  case getDatasetVersion v => exact fun a ha => hgrow.records.datasetVersions v a (h a ha)
  case getModelVersion v => exact fun row hrow => hgrow.records.modelVersions v row (h row hrow)
  case getEvaluationRun run =>
      intro row hr
      obtain ⟨row', hrow', hsame⟩ := h row hr
      obtain ⟨row'', hrow'', hsame'⟩ := hgrow.records.evaluationRuns run row' hrow'
      exact ⟨row'', hrow'', hsame.trans hsame'⟩
  case getEvaluationConfig c =>
      have hsame : s'.db.evaluationConfigs = s.db.evaluationConfigs :=
        hgrow.records.evaluationConfigs
      rw [Op.Told, hsame]
      exact h
  case getQualityGate gate =>
      have hsame : s'.db.qualityGates = s.db.qualityGates := hgrow.records.qualityGates
      rw [Op.Told, hsame]
      exact h
  case getArtifact a => exact fun row hrow => hartifact (h row hrow)
  case getArtifactByHash hash => exact fun a row hr => ⟨(h a row hr).1, hartifact (h a row hr).2⟩
  case createPending hash =>
      obtain ⟨row, hrow, hhash⟩ := h
      obtain ⟨row', hrow', hbecomes⟩ := hgrow.records.artifacts _ row hrow
      exact ⟨row', hrow', hbecomes.1.trans hhash⟩
  case claimUploadLease a u => exact fun row hrow => hartifact (h row hrow)
  case markUploaded a u => exact fun row hrow => ⟨(h row hrow).1, hartifact (h row hrow).2⟩
  case objectExistsWithHash key hash => exact fun hb => hgrow.store key (h hb)
  case listCheckpoints run =>
      exact fun r hr => ⟨(h r hr).1, hgrow.records.checkpoints r.1 r.2 (h r hr).2⟩
  case listReconcilable => exact fun r hr => hartifact (h r hr)
  case recordMetric =>
      refine ⟨fun hb => hlost (h.1 hb), fun hb => ?_⟩
      obtain ⟨n, hn, hmem⟩ := h.2 hb
      exact ⟨n, hn, hgrow.records.trainingMetrics hmem⟩
  case registerCheckpoint => exact fun hb => hlost (h hb)
  case registerOutput =>
      exact ⟨fun hb => hlost (h.1 hb), fun hb => hgrow.records.trainingRunOutputs _ _ (h.2 hb)⟩
  case recordResumeDecision =>
      exact ⟨fun hb => hlost (h.1 hb), fun hb => hgrow.records.attemptResumeDecisions _ _ (h.2 hb)⟩
  case markRunStatus => exact fun hb => hlost (h hb)
  case recordResult => exact h.imp hlost hgrow.records.evaluationResults.isSome
  case recordEvaluationMetric =>
      refine h.imp hlost fun hrow => ?_
      obtain ⟨name, part, hname, hpart, hrow⟩ := hrow
      exact ⟨name, part, hname, hpart, hgrow.records.evaluationMetrics.isSome hrow⟩
  all_goals trivial

/-! ### The invariant -/

/-- The statement has been executed, whatever came of it. -/
def Past.Executed (h : Past) (op : Op) : Prop := ∃ r, ⟨op, r⟩ ∈ h

/-- **Every row of a run was written by a statement of some thread.** -/
structure Sources (env : Env) (c : Records) (h : Pasts) : Prop where
  trainingRuns : ∀ run row, c.trainingRuns.lookup run = some row →
    ∃ p, Past.Creates (h p) .trainingRun row.jobId
  evaluationRuns : ∀ run row, c.evaluationRuns.lookup run = some row →
    ∃ p, Past.Creates (h p) .evaluation row.jobId
  checkpoints : ∀ run k n row, c.checkpoints.lookup (run, k, n) = some row →
    ∃ p j w step base, intColumn env step = some n ∧
      Past.Executed (h p) (.registerCheckpoint j w run k step row.artifactId base)
  metrics : ∀ m ∈ c.trainingMetrics, ∃ p j w step reading, intColumn env step = some m.step ∧
    Past.Executed (h p) (.recordMetric j w m.trainingRunId m.attemptNumber step reading)
  outputs : ∀ run row, c.trainingRunOutputs.lookup run = some row → ∃ p j w,
    Past.Executed (h p) (.registerOutput j w run row.attemptNumber row.finalArtifactId)
  decisions : ∀ run k step, c.attemptResumeDecisions.lookup (run, k) = some step → ∃ p j w,
    Past.Executed (h p) (.recordResumeDecision j w run k step)
  statuses : ∀ run row, c.evaluationRuns.lookup run = some row → row.status = .queued ∨
    ∃ p j w k setCompleted,
      Past.Executed (h p) (.markRunStatus run j w k row.status setCompleted)
  results : ∀ run exampleId row, c.evaluationResults.lookup (run, exampleId) = some row →
    ∃ p j w prediction expectedOutput, Past.Executed (h p)
      (.recordResult j w run row.attemptNumber exampleId prediction expectedOutput row.score
        row.latencyMs)
  evaluationMetrics : ∀ run name part row,
    c.evaluationMetrics.lookup (run, name, part) = some row → ∃ p j w metricName split count,
      env.textColumn metricName = some name ∧ env.textColumn split = some part ∧
      intColumn env count = some row.sampleCount ∧
      Past.Executed (h p) (.recordEvaluationMetric j w run row.attemptNumber metricName
        row.metricValue split count)

/-- **What the histories say about the state, and the state about the histories.** -/
structure Knows (env : Env) (s : World) (h : Pasts) : Prop where
  orderly : ∀ p, History.Orderly (Past.Disciplined env) (h p)
  leases : LeasesOk s.db.jobs
  told : ∀ p op a, (h p).Answered op a → op.Told env s a
  alone : ∀ p q j k, (h p).Answered (.insertAttempt j k) () →
    (h q).Answered (.insertAttempt j k) () → p = q
  created : ∀ p q j origin origin', Past.Creates (h p) origin j →
    Past.Creates (h q) origin' j → origin = origin'
  sources : Sources env s.db.records h

section Establish

variable {env : Env} {p : ℕ} {s : World} {h : Pasts}

theorem Past.Executed.of_answered {m : Past} {op : Op} {a : op.Ret} (ha : m.Answered op a) :
    m.Executed op := ⟨.ok a, ha⟩

/-- What stood behind a statement when it was executed still does. -/
theorem Knows.justified (hk : Knows env s h) {op : Op} (he : Past.Executed (h p) op) :
    Past.Justifies env (h p) op := by
  obtain ⟨r, hr⟩ := he
  exact (hk.orderly p).justifies (P := fun m => Past.Justifies env m op)
    (fun _ _ hsub hop => hop.mono hsub) (fun _ hop => hop.2) hr

theorem Knows.inOrder (hk : Knows env s h) (p : ℕ) : History.Orderly Past.InOrder (h p) :=
  (hk.orderly p).mono fun _ _ hop => hop.1

/-- `mark_uploaded` returns rows that are UPLOADED. -/
theorem Knows.not_odd (hk : Knows env s h) : ¬ Past.Odd (h p) := by
  rintro ⟨a, u, row, hmarked, hs⟩
  exact hs (hk.told p _ _ hmarked row rfl).1

theorem Knows.attempted (hk : Knows env s h) {j : JobId} {w : WorkerId} {k : ℕ}
    (ha : Past.Attempts (h p) j w k) : s.db.Attempted j k := by
  obtain ⟨job, hjob, rfl⟩ := ha.numbered
  exact hk.told p _ _ hjob job rfl

/-- An attempt that is not live is lost. -/
theorem Knows.lost (hk : Knows env s h) {j : JobId} {w : WorkerId} {k : ℕ}
    (ha : Past.Attempts (h p) j w k) (hno : ¬ s.db.Owns j w k) : s.Lost j w k := by
  obtain ⟨job, hj, hle⟩ := hk.attempted ha
  refine ⟨job, hj, hle, fun hholds => hno ⟨job, hj, ?_⟩⟩
  exact Job.ownedBy_iff_holds.mpr hholds

/-- An attempt has one thread. -/
theorem Knows.sameThread (hk : Knows env s h) {q : ℕ} {j : JobId} {w w' : WorkerId} {k : ℕ}
    (hp : Past.Attempts (h p) j w k) (hq : Past.Attempts (h q) j w' k) : p = q :=
  hk.alone p q j k hp.inserted hq.inserted

/-- A live attempt is not lost. -/
theorem not_lost_of_owns {j : JobId} {w : WorkerId} {k : ℕ} (howns : s.db.Owns j w k) :
    ¬ s.Lost j w k := fun hlost => LostAttempt.not_owns hlost howns

theorem tryWrite_ok {β : Type} {s : World} {r : Option (Db × β)} {b : β}
    (h : (s.tryWrite r).2 = .ok b) :
    ∃ db, r = some (db, b) ∧ (s.tryWrite r).1 = { s with db } := by
  cases r with
  | none => cases h
  | some r =>
      cases h
      exact ⟨r.1, rfl, rfl⟩

/-- A fenced write of a known attempt that is refused shows that the attempt is lost. -/
theorem Knows.refused (hk : Knows env s h) {j : JobId} {w : WorkerId} {k : ℕ}
    (ha : Past.Attempts (h p) j w k) {r : Option (Db × Bool)} {b : Bool}
    (hr : ∀ db, r = some (db, b) → db = s.db ∧ ¬ s.db.Owns j w k)
    (hok : (s.tryWrite r).2 = .ok b) : (s.tryWrite r).1.Lost j w k := by
  obtain ⟨db, hdb, hs⟩ := tryWrite_ok hok
  obtain ⟨rfl, hno⟩ := hr db hdb
  rw [hs]
  exact hk.lost ha hno

/-- The one run of a job. -/
theorem lookup_of_getByJobId {j : JobId} {run : RunId} {row : TrainingRun} {db : Db}
    (h : TrainingRunsRepo.getByJobId db j = some (some (run, row))) :
    row.jobId = j ∧ db.trainingRuns.lookup run = some row := by
  unfold TrainingRunsRepo.getByJobId at h
  split at h
  · cases h
  · rename_i r hrows
    cases h
    have hmem : (run, row) ∈ db.trainingRuns.rows.filter fun r => r.2.jobId = j := by
      rw [hrows]
      exact List.mem_singleton_self _
    obtain ⟨hmem, hj⟩ := List.mem_filter.mp hmem
    exact ⟨of_decide_eq_true hj, Table.mem_rows.mp hmem⟩
  · cases h

theorem lookup_of_evaluation_getByJobId {j : JobId} {run : RunId} {row : EvaluationRun} {db : Db}
    (h : EvaluationRunsRepo.getByJobId db j = some (some (run, row))) :
    row.jobId = j ∧ db.evaluationRuns.lookup run = some row := by
  unfold EvaluationRunsRepo.getByJobId at h
  split at h
  · cases h
  · rename_i r hrows
    cases h
    have hmem : (run, row) ∈ db.evaluationRuns.rows.filter fun r => r.2.jobId = j := by
      rw [hrows]
      exact List.mem_singleton_self _
    obtain ⟨hmem, hj⟩ := List.mem_filter.mp hmem
    exact ⟨of_decide_eq_true hj, Table.mem_rows.mp hmem⟩
  · cases h

theorem readOne_ok {β : Type} {s : World} {r : Option β} {b : β} (h : (s.readOne r).2 = .ok b) :
    r = some b ∧ (s.readOne r).1 = s := by
  cases r with
  | none => cases h
  | some r =>
      cases h
      exact ⟨rfl, rfl⟩

/-- An update of an artifact answers the row that it leaves. -/
theorem lookup_of_updateArtifact {db : Db} {a : ArtifactId} {cond : Artifact → Prop}
    [DecidablePred cond] {set : Artifact → Artifact} {row : Artifact}
    (h : (ArtifactsRepo.updateWhere db a cond set).2 = some row) :
    (ArtifactsRepo.updateWhere db a cond set).1.artifacts.lookup a = some row ∧
      ∃ row₀, row = set row₀ := by
  generalize hr : ArtifactsRepo.updateWhere db a cond set = r at h ⊢
  obtain rfl | ⟨row₀, _, _, rfl⟩ := updateArtifact_cases hr
  · cases h
  · cases h
    exact ⟨AList.lookup_insert _, row₀, rfl⟩

/-- **A justified statement establishes what its answer says.** -/
theorem told_perform (hk : Knows env s h) {op : Op} (hop : Past.Justifies env (h p) op) (i : Input)
    {a : op.Ret} (ha : (op.perform env p i s).2 = .ok a) :
    op.Told env (op.perform env p i s).1 a := by
  have htraining : ∀ {t : Ticket} {event}, Past.TrainingEvent (h p) t event →
      Past.Attempts (h p) t.jobId t.workerId t.attemptNumber := by
    rintro t event ⟨run, context, files, hstart, _⟩
    exact hstart.trains.attempts
  have hevaluation : ∀ {t : Ticket} {event}, Past.EvaluationEvent env (h p) t event →
      Past.Attempts (h p) t.jobId t.workerId t.attemptNumber := by
    rintro t event ⟨run, context, files, hstart, _⟩
    exact hstart.evaluates.attempts
  cases op
  case createJob origin jobType config priority =>
      obtain h | ⟨_, h⟩ := perform_createJob env p i s origin jobType config priority <;>
        rw [h] at ha ⊢ <;> cases ha
      exact ⟨_, AList.lookup_insert _, Nat.zero_le _⟩
  case claim j w =>
      intro hb
      subst hb
      obtain heq | ⟨job, hj, _, heq⟩ := JobsRepo.updateWhere_cases
        (r := JobsRepo.claim s.db j w i.now env.settings.leaseDurationSeconds) rfl
      · rw [Op.perform, World.write, heq] at ha
        cases ha
      · rw [Op.perform, World.write, heq]
        exact ⟨_, AList.lookup_insert _, Nat.le_add_left 1 _⟩
  case getJob j =>
      cases ha
      intro job hjob
      exact ⟨job, (Option.filter_eq_some_iff.mp hjob).1, le_refl _⟩
  case insertAttempt j k =>
      obtain ⟨db, hdb, hs⟩ := tryWrite_ok ha
      obtain ⟨db₁, hinsert, heq⟩ := Option.map_eq_some_iff.mp hdb
      obtain ⟨attempts, hattempts, rfl⟩ := Option.map_eq_some_iff.mp hinsert
      obtain ⟨_, rfl⟩ := Table.insertNew_eq_some.mp hattempts
      cases heq
      rw [Op.Told, Op.perform, hs, AList.lookup_insert]
      rfl
  case findTrainingRun j =>
      obtain ⟨hr, hs⟩ := readOne_ok ha
      intro run row heq
      rw [Op.perform, hs]
      exact lookup_of_getByJobId (heq ▸ hr)
  case findEvaluationRun j =>
      obtain ⟨hr, hs⟩ := readOne_ok ha
      intro run row heq
      rw [Op.perform, hs]
      obtain ⟨hj, hrow⟩ := lookup_of_evaluation_getByJobId (heq ▸ hr)
      exact ⟨hj, row, hrow, .refl row⟩
  case getDatasetVersion v =>
      cases ha
      exact fun a hrow => hrow
  case getModelVersion v =>
      cases ha
      exact fun row hrow => hrow
  case getEvaluationRun run =>
      cases ha
      exact fun row hrow => ⟨row, hrow, .refl row⟩
  case getEvaluationConfig | getQualityGate =>
      cases ha
      rfl
  case getArtifact a =>
      cases ha
      exact fun row hrow => World.continues_of_lookup hrow
  case getArtifactByHash hash =>
      cases ha
      intro a row hrow
      have hfound := List.find?_some hrow
      have hmem := List.mem_of_find?_eq_some hrow
      exact ⟨eq_of_beq hfound, World.continues_of_lookup (Table.mem_rows.mp hmem)⟩
  case createPending hash =>
      obtain ⟨db, hdb, hs⟩ := tryWrite_ok ha
      obtain ⟨db₁, hcreate, heq⟩ := Option.map_eq_some_iff.mp hdb
      obtain ⟨_, _, rfl⟩ := createPending_cases hcreate
      cases heq
      rw [Op.Told, Op.perform, hs]
      exact ⟨_, AList.lookup_insert _, rfl⟩
  case claimUploadLease a u =>
      cases ha
      exact fun row hrow => World.continues_of_lookup (lookup_of_updateArtifact hrow).1
  case markUploaded a u =>
      cases ha
      intro row hrow
      obtain ⟨hlookup, row₀, rfl⟩ := lookup_of_updateArtifact hrow
      exact ⟨rfl, World.continues_of_lookup hlookup⟩
  case objectExistsWithHash key hash =>
      cases ha
      intro hb
      unfold Store.objectExistsWithHash at hb
      split at hb
      · cases hb
      · rename_i data hdata
        simp only [Op.perform, World.read, hdata]
        rfl
  case listCheckpoints run =>
      cases ha
      intro r hr
      obtain ⟨hmem, hrun⟩ := List.mem_filter.mp hr
      exact ⟨of_decide_eq_true hrun, Table.mem_rows.mp hmem⟩
  case listReconcilable =>
      cases ha
      intro r hr
      exact World.continues_of_lookup (Table.mem_rows.mp (List.mem_filter.mp hr).1)
  case recordMetric j w run k step reading =>
      obtain ⟨event, hevent, _⟩ := hop
      refine ⟨fun hb => ?_, fun hb => ?_⟩
      · subst hb
        refine hk.refused (htraining hevent) (fun db hdb => ?_) ha
        obtain ⟨hno, heq⟩ | ⟨n, _, _, heq⟩ := recordMetric_cases hdb
        · exact ⟨congrArg Prod.fst heq, hno⟩
        · cases heq
      · subst hb
        obtain ⟨db, hdb, hs⟩ := tryWrite_ok ha
        obtain ⟨_, heq⟩ | ⟨n, _, hn, heq⟩ := recordMetric_cases hdb
        · cases heq
        · cases heq
          rw [Op.perform, hs]
          exact ⟨n, hn, List.mem_append_right _ List.mem_cons_self⟩
  case registerCheckpoint j w run k step a base =>
      obtain ⟨event, ⟨hevent, _⟩, _⟩ := hop
      intro hb
      subst hb
      refine hk.refused (htraining hevent) (fun db hdb => ?_) ha
      obtain ⟨hno, heq⟩ | ⟨n, _, _, _, _, heq⟩ := registerCheckpoint_cases hdb
      · exact ⟨congrArg Prod.fst heq, hno⟩
      · cases heq
  case registerOutput j w run k a =>
      obtain ⟨event, ⟨hevent, _⟩, _⟩ := hop
      refine ⟨fun hb => ?_, fun hb => ?_⟩
      · subst hb
        refine hk.refused (htraining hevent) (fun db hdb => ?_) ha
        obtain ⟨hno, heq⟩ | ⟨_, _, heq⟩ := registerOutput_cases hdb
        · exact ⟨congrArg Prod.fst heq, hno⟩
        · cases heq
      · subst hb
        obtain ⟨db, hdb, hs⟩ := tryWrite_ok ha
        obtain ⟨_, heq⟩ | ⟨_, _, heq⟩ := registerOutput_cases hdb
        · cases heq
        · cases heq
          rw [Op.perform, hs]
          exact AList.lookup_insert _
  case recordResumeDecision j w run k step =>
      obtain ⟨row, resumed, htrains, _⟩ := hop
      refine ⟨fun hb => ?_, fun hb => ?_⟩
      · subst hb
        refine hk.refused htrains.attempts (fun db hdb => ?_) ha
        obtain ⟨hno, heq⟩ | ⟨_, _, heq⟩ := recordResumeDecision_cases hdb
        · exact ⟨congrArg Prod.fst heq, hno⟩
        · cases heq
      · subst hb
        obtain ⟨db, hdb, hs⟩ := tryWrite_ok ha
        obtain ⟨_, heq⟩ | ⟨_, _, heq⟩ := recordResumeDecision_cases hdb
        · cases heq
        · cases heq
          rw [Op.perform, hs]
          exact AList.lookup_insert _
  case markRunStatus run j w k status setCompleted =>
      obtain ⟨⟨row, hrow⟩, _⟩ := hop
      intro hb
      subst hb
      refine hk.refused hrow.attempts (fun db hdb => ?_) ha
      obtain ⟨hno, heq⟩ | ⟨_, hnone, _⟩ | ⟨_, _, _, heq⟩ := markStatus_cases hdb
      · exact ⟨congrArg Prod.fst heq, hno⟩
      · -- the run of the ticket was found, so its row is there
        obtain ⟨_, row', hrow', _⟩ := hk.told p _ _ hrow.found run row rfl
        rw [hnone] at hrow'
        cases hrow'
      · cases heq
  case recordResult j w run k exampleId prediction expectedOutput score latencyMs =>
      obtain ⟨event, value, hevent, _⟩ := hop
      obtain ⟨db, hdb, hs⟩ := tryWrite_ok ha
      rw [Op.Told, Op.perform, hs]
      obtain ⟨hno, heq⟩ | ⟨_, hrow, heq⟩ | ⟨_, _, heq⟩ := recordResult_cases hdb
      · cases heq
        exact Or.inl (hk.lost (hevaluation hevent) hno)
      · cases heq
        exact Or.inr hrow
      · cases heq
        refine Or.inr ?_
        rw [AList.lookup_insert]
        rfl
  case recordEvaluationMetric j w run k metricName value split count =>
      obtain ⟨event, hevent, _⟩ := hop
      obtain ⟨db, hdb, hs⟩ := tryWrite_ok ha
      rw [Op.Told, Op.perform, hs]
      obtain ⟨hno, heq⟩ | ⟨name, part, n, _, hname, hpart, _, ⟨hrow, heq⟩ | ⟨_, heq⟩⟩ :=
        recordEvaluationMetric_cases hdb
      · cases heq
        exact Or.inl (hk.lost (hevaluation hevent) hno)
      · cases heq
        exact Or.inr ⟨name, part, hname, hpart, hrow⟩
      · cases heq
        refine Or.inr ⟨name, part, hname, hpart, ?_⟩
        rw [AList.lookup_insert]
        rfl
  all_goals trivial

end Establish

/-! ### The invariant holds -/

theorem Past.Executed.mono {h h' : Past} (hsub : h ⊆ h') {op : Op} (he : h.Executed op) :
    h'.Executed op := by
  obtain ⟨r, hr⟩ := he
  exact ⟨r, hsub hr⟩

section Step

variable {env : Env} {p : ℕ} {s : World} {h h' : Pasts}

theorem Sources.mono {c : Records} (hs : Sources env c h) (hsub : ∀ q, h q ⊆ h' q) :
    Sources env c h' where
  trainingRuns run row hrow := by
    obtain ⟨p, hcreates⟩ := hs.trainingRuns run row hrow
    exact ⟨p, hcreates.mono (hsub p)⟩
  evaluationRuns run row hrow := by
    obtain ⟨p, hcreates⟩ := hs.evaluationRuns run row hrow
    exact ⟨p, hcreates.mono (hsub p)⟩
  checkpoints run k n row hrow := by
    obtain ⟨p, j, w, step, base, hn, he⟩ := hs.checkpoints run k n row hrow
    exact ⟨p, j, w, step, base, hn, he.mono (hsub p)⟩
  metrics m hm := by
    obtain ⟨p, j, w, step, reading, hn, he⟩ := hs.metrics m hm
    exact ⟨p, j, w, step, reading, hn, he.mono (hsub p)⟩
  outputs run row hrow := by
    obtain ⟨p, j, w, he⟩ := hs.outputs run row hrow
    exact ⟨p, j, w, he.mono (hsub p)⟩
  decisions run k step hrow := by
    obtain ⟨p, j, w, he⟩ := hs.decisions run k step hrow
    exact ⟨p, j, w, he.mono (hsub p)⟩
  statuses run row hrow := by
    refine (hs.statuses run row hrow).imp_right fun hmark => ?_
    obtain ⟨p, j, w, k, setCompleted, he⟩ := hmark
    exact ⟨p, j, w, k, setCompleted, he.mono (hsub p)⟩
  results run exampleId row hrow := by
    obtain ⟨p, j, w, prediction, expectedOutput, he⟩ := hs.results run exampleId row hrow
    exact ⟨p, j, w, prediction, expectedOutput, he.mono (hsub p)⟩
  evaluationMetrics run name part row hrow := by
    obtain ⟨p, j, w, metricName, split, count, hname, hpart, hcount, he⟩ :=
      hs.evaluationMetrics run name part row hrow
    exact ⟨p, j, w, metricName, split, count, hname, hpart, hcount, he.mono (hsub p)⟩

/-- A row of a table after an insert is the new one or an old one. -/
theorem lookup_insert_cases {κ ρ : Type} [DecidableEq κ] {t : Table κ ρ} {k k' : κ} {r r' : ρ}
    (hr : (t.insert k r).lookup k' = some r') : (k' = k ∧ r' = r) ∨ t.lookup k' = some r' := by
  rw [Table.lookup_insert_eq] at hr
  split at hr
  · rename_i hkey
    exact Or.inl ⟨hkey, (Option.some.inj hr).symm⟩
  · exact Or.inr hr

/-- **Whatever a statement adds, it is the source of.** -/
theorem Sources.step {db : Db} {i : Input} {op : Op} {c : Records} (hs : Sources env db.records h)
    (hstep : RecordStep env db i op c) (hsub : ∀ q, h q ⊆ h' q)
    (hop : Past.Executed (h' p) op) (hjustified : Past.Justifies env (h p) op) :
    Sources env c h' := by
  have hold := hs.mono hsub
  cases hstep with
  | createTrainingRun hfree =>
      refine { hold with trainingRuns := fun run row hrow => ?_ }
      obtain ⟨_, rfl⟩ | hrow := lookup_insert_cases hrow
      · exact ⟨p, Past.Creates.mono (hsub p) hjustified.1⟩
      · exact hold.trainingRuns run row hrow
  | skip | createPending | artifact | createDatasetVersion
  | createModelVersion | recordGateResult => exact { hold with }
  | createEvaluationRun hfree =>
      refine { hold with
        evaluationRuns := fun run row hrow => ?_
        statuses := fun run row hrow => ?_ }
      · obtain ⟨_, rfl⟩ | hrow := lookup_insert_cases hrow
        · exact ⟨p, hjustified.2.mono (hsub p)⟩
        · exact hold.evaluationRuns run row hrow
      · obtain ⟨_, rfl⟩ | hrow := lookup_insert_cases hrow
        · exact Or.inl hjustified.1
        · exact hold.statuses run row hrow
  | registerCheckpoint howns hn hfree ha hnew =>
      refine { hold with checkpoints := fun run k n row hrow => ?_ }
      obtain ⟨hkey, rfl⟩ | hrow := lookup_insert_cases hrow
      · cases hkey
        exact ⟨p, _, _, _, _, hn, ha.symm ▸ hop⟩
      · exact hold.checkpoints run k n row hrow
  | registerOutput howns hfree =>
      refine { hold with outputs := fun run row hrow => ?_ }
      obtain ⟨rfl, rfl⟩ | hrow := lookup_insert_cases hrow
      · exact ⟨p, _, _, hop⟩
      · exact hold.outputs run row hrow
  | recordMetric howns hn =>
      refine { hold with metrics := fun m hm => ?_ }
      obtain hm | hm := List.mem_append.mp hm
      · exact hold.metrics m hm
      · cases List.mem_singleton.mp hm
        exact ⟨p, _, _, _, _, hn, hop⟩
  | recordResumeDecision howns hfree =>
      refine { hold with decisions := fun run k step hrow => ?_ }
      obtain ⟨hkey, rfl⟩ | hrow := lookup_insert_cases hrow
      · cases hkey
        exact ⟨p, _, _, hop⟩
      · exact hold.decisions run k step hrow
  | @markRunStatus _ _ _ _ _ _ row₀ _ howns hrun =>
      refine { hold with
        evaluationRuns := fun run row hrow => ?_
        statuses := fun run row hrow => ?_ }
      · obtain ⟨rfl, rfl⟩ | hrow := lookup_insert_cases hrow
        · exact hold.evaluationRuns _ row₀ hrun
        · exact hold.evaluationRuns run row hrow
      · obtain ⟨rfl, rfl⟩ | hrow := lookup_insert_cases hrow
        · exact Or.inr ⟨p, _, _, _, _, hop⟩
        · exact hold.statuses run row hrow
  | recordResult howns hfree =>
      refine { hold with results := fun run exampleId row hrow => ?_ }
      obtain ⟨hkey, rfl⟩ | hrow := lookup_insert_cases hrow
      · cases hkey
        exact ⟨p, _, _, _, _, hop⟩
      · exact hold.results run exampleId row hrow
  | recordEvaluationMetric howns hname hpart hcount hfree =>
      refine { hold with evaluationMetrics := fun run name part row hrow => ?_ }
      obtain ⟨hkey, rfl⟩ | hrow := lookup_insert_cases hrow
      · cases hkey
        exact ⟨p, _, _, _, _, _, hname, hpart, hcount, hop⟩
      · exact hold.evaluationMetrics run name part row hrow

/-- A change that takes nothing back, with an answer that holds. -/
theorem Knows.grow (hk : Knows env s h) {s' : World} (hgrow : s.Grows s')
    (hleases : LeasesOk s'.db.jobs) (hsources : Sources env s'.db.records h) : Knows env s' h :=
  ⟨hk.orderly, hleases, fun p op a ha => (hk.told p op a ha).grows hgrow hk.leases, hk.alone,
    hk.created, hsources⟩

/-- **Every statement keeps the invariant.** -/
theorem Knows.perform (hk : Knows env s h) {op : Op} (hop : Past.Disciplined env (h p) op)
    (i : Input) :
    Knows env (op.perform env p i s).1 (h.add p ⟨op, (op.perform env p i s).2⟩) where
  orderly := History.orderly_add hk.orderly hop
  leases := hk.leases.step (perform_core env p i s op).rows
  told q op' a ha := by
    obtain ⟨rfl, heq⟩ | ha := Histories.mem_add.mp ha
    · obtain ⟨rfl, heq⟩ := Sigma.mk.inj_iff.mp heq
      exact told_perform hk hop.2 i (eq_of_heq heq).symm
    · exact (hk.told q op' a ha).grows (perform_grows env p i s op) hk.leases
  alone q r j k hq hr := by
    -- the primary key of `attempts` lets one insert through
    have hnew : ∀ {q}, (h q).Answered (.insertAttempt j k) () →
        ¬ (⟨.insertAttempt j k, .ok ()⟩ : Done Op Op.Ret Exn) =
          ⟨op, (op.perform env p i s).2⟩ := by
      intro r hold heq
      obtain ⟨rfl, heq⟩ := Sigma.mk.inj_iff.mp heq
      obtain ⟨db, hdb, _⟩ := tryWrite_ok (eq_of_heq heq).symm
      obtain ⟨db₁, hinsert, _⟩ := Option.map_eq_some_iff.mp hdb
      obtain ⟨attempts, hattempts, _⟩ := Option.map_eq_some_iff.mp hinsert
      have hthere : (s.db.attempts.lookup (j, k)).isSome := hk.told r _ _ hold
      rw [(Table.insertNew_eq_some.mp hattempts).1] at hthere
      cases hthere
    obtain ⟨hqp, hq⟩ | hq := Histories.mem_add.mp hq
    · obtain ⟨hrp, _⟩ | hr := Histories.mem_add.mp hr
      · rw [hqp, hrp]
      · exact absurd hq (hnew hr)
    · obtain ⟨_, hr⟩ | hr := Histories.mem_add.mp hr
      · exact absurd hr (hnew hq)
      · exact hk.alone q r j k hq hr
  created q r j origin origin' hq hr := by
    obtain ⟨jobType, config, priority, hq⟩ := hq
    obtain ⟨jobType', config', priority', hr⟩ := hr
    -- and that of `jobs` one job
    have hnew : ∀ {q origin jobType config priority origin' jobType' config' priority'},
        (h q).Answered (.createJob origin jobType config priority) j →
        ¬ (⟨.createJob origin' jobType' config' priority', .ok j⟩ : Done Op Op.Ret Exn) =
          ⟨op, (op.perform env p i s).2⟩ := by
      intro r origin jobType config priority origin' jobType' config' priority' hold heq
      obtain ⟨rfl, heq⟩ := Sigma.mk.inj_iff.mp heq
      have hanswer := (eq_of_heq heq).symm
      obtain h | ⟨hfree, h⟩ := perform_createJob env p i s origin' jobType' config' priority' <;>
        rw [h] at hanswer <;> cases hanswer
      obtain ⟨job, hj, _⟩ := hk.told r _ _ hold
      rw [hfree] at hj
      cases hj
    obtain ⟨_, hq⟩ | hq := Histories.mem_add.mp hq
    · obtain ⟨_, hr⟩ | hr := Histories.mem_add.mp hr
      · have heq := hq.trans hr.symm
        cases heq
        rfl
      · exact absurd hq (hnew hr)
    · obtain ⟨_, hr⟩ | hr := Histories.mem_add.mp hr
      · exact absurd hr (hnew hq)
      · exact hk.created q r j origin origin' ⟨_, _, _, hq⟩ ⟨_, _, _, hr⟩
  sources := by
    refine hk.sources.step (p := p) (perform_records env p i s op)
      (fun q => Histories.subset_add h p q _) ⟨_, Histories.mem_add.mpr (Or.inl ⟨rfl, rfl⟩)⟩ hop.2

/-- A statement that fails says nothing. -/
theorem Knows.fault (hk : Knows env s h) {op : Op} (hop : Past.Disciplined env (h p) op) (e : Exn) :
    Knows env s (h.add p ⟨op, .error e⟩) where
  orderly := History.orderly_add hk.orderly hop
  leases := hk.leases
  told q op' a ha := hk.told q op' a (Histories.answered_of_fault ha)
  alone q r j k hq hr :=
    hk.alone q r j k (Histories.answered_of_fault hq) (Histories.answered_of_fault hr)
  created q r j origin origin' hq hr := by
    obtain ⟨_, _, _, hq⟩ := hq
    obtain ⟨_, _, _, hr⟩ := hr
    exact hk.created q r j origin origin' ⟨_, _, _, Histories.answered_of_fault hq⟩
      ⟨_, _, _, Histories.answered_of_fault hr⟩
  sources := hk.sources.mono fun q => Histories.subset_add h p q _

theorem World.stopHeartbeat_grows (s : World) (p : ℕ) : s.Grows (s.stopHeartbeat p) :=
  ⟨.refl _, fun _ h => h, fun _ h => h, fun _ _ h => h, fun _ _ _ _ h => h⟩

theorem knows_invariant (env : Env) :
    HistoryInvariant (M := platform env) (Past.Disciplined env) (Knows env) (fun _ _ => True)
      fun _ _ _ => True where
  perform _ i _ _ _ _ _ hk hop _ := hk.perform hop i
  fault _ e op _ _ _ hk hop := hk.fault hop e
  halt p s _ _ hk := hk.grow (s.stopHeartbeat_grows p) hk.leases hk.sources
  ambient a s _ _ hk := by
    refine hk.grow (beat_grows env s a.1 a.2) (hk.leases.step (beat_rows env s a.1 a.2)) ?_
    have hsame : (s.beat env a.1 a.2).db.records = s.db.records := by
      rw [beat_frame]
      rfl
    rw [hsame]
    exact hk.sources

/-- The histories of a run of the platform. -/
abbrev pasts (env : Env) (s : World) (es : List (SysEvent env)) : Pasts :=
  histories (platform env) s es

theorem knows_initial (hs : s.Initial) : Knows env s fun _ => [] where
  orderly _ := trivial
  leases j job hj := by
    rw [hs.db] at hj
    cases hj
  told _ _ _ ha := by cases ha
  alone _ _ _ _ ha := by cases ha
  created _ _ _ _ _ ha := by
    obtain ⟨_, _, _, ha⟩ := ha
    cases ha
  sources := by
    have hempty : s.db.records = { s.db.records with
        trainingRuns := ∅, evaluationRuns := ∅, checkpoints := ∅, trainingMetrics := []
        trainingRunOutputs := ∅, attemptResumeDecisions := ∅, evaluationResults := ∅
        evaluationMetrics := ∅, qualityGateResults := ∅ } := by
      rw [hs.db]
      rfl
    rw [hempty]
    constructor
    all_goals intros; rename_i hrow; cases hrow

/-- **The invariant holds of every state that is reached.** -/
theorem knows_of_reaches {es : List (SysEvent env)} {c : System env} (h : Reaches s es c) :
    Knows env c.shared (pasts env s es) :=
  (knows_invariant env).run (disciplined_program env) (knows_initial h.1) (fun _ _ _ _ => trivial)
    (Runs.always_of_forall (Config.atStep_of_forall fun _ _ _ => trivial) _ es) h.2

/-- **What growth keeps is kept from any state of a run to its end.** -/
theorem kept_of_reaches {P : World → Prop} (hgrow : ∀ s s', s.Grows s' → P s → P s')
    {es fs : List (SysEvent env)} {c m : System env} (h : Reaches s es c) (hfs : fs <+: es)
    (hm : Runs.runFrom Config.step ({ shared := s } : System env) fs = some m) (hP : P m.shared) :
    P c.shared := by
  refine related_of_run (K := fun _ _ => True) (φ := fun _ _ _ => True)
    (R := fun s s' : World => P s → P s') (fun _ hP => hP) (fun _ _ _ h h' hP => h' (h hP)) ?_ ?_ ?_
    (disciplined_program env) (fun _ _ _ _ => trivial)
    (Runs.always_of_forall (Config.atStep_of_forall fun _ _ _ => trivial) _ es) h.2 hfs hm hP
  · exact fun p i _ op s _ _ _ _ => hgrow _ _ (perform_grows env p i s op)
  · exact fun p s => hgrow _ _ (s.stopHeartbeat_grows p)
  · exact fun a s => hgrow _ _ (beat_grows env s a.1 a.2)

end Step

end PosttrainPlatform
