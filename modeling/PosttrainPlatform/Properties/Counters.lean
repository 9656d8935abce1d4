import PosttrainPlatform.Properties.EvaluationRuns
import PosttrainPlatform.Properties.Lifecycle
import PosttrainPlatform.Services.Metrics

/-!
# The counters of `/metrics`

A counter is a count over current rows, and does not decrease as long as no row leaves what it counts.
Rows are never deleted and the terminal statuses of jobs are absorbing; the status FAILED of an
evaluation run is not.
-/

namespace PosttrainPlatform

open Programs PlatformCollector

/-! ### What one statement does -/

/-- A row of a job keeps its type. -/
theorem RowStep.jobType {maxAttempts : ℕ} {job job' : Job} (h : RowStep maxAttempts job job') :
    job'.jobType = job.jobType := by
  cases h <;> rfl

/-- A job with a terminal status keeps it, and its type. -/
theorem RowsStep.terminal {maxAttempts : ℕ} {jobs jobs' : Table JobId Job}
    (h : RowsStep maxAttempts jobs jobs') {j : JobId} {job : Job} (hj : jobs.lookup j = some job) :
    ∃ job', jobs'.lookup j = some job' ∧ (job.status.Terminal → job'.status = job.status) ∧
      job'.jobType = job.jobType := by
  obtain ⟨job', hj', rfl | hstep⟩ := h.persists j job hj
  · exact ⟨job', hj', fun _ => rfl, rfl⟩
  · refine ⟨job', hj', fun hterminal => ?_, hstep.jobType⟩
    obtain hsame | hedge := hstep.edge
    · exact hsame
    · exact absurd hterminal hedge.not_terminal

/-- The status FAILED of a run is taken back: an attempt that is live marks the run with another one. -/
def RevivesFailed (op : Op) (_ : Input) (db : Db) : Prop :=
  ∃ run j w k status setCompleted, op = .markRunStatus run j w k status setCompleted ∧
    db.Owns j w k ∧ status ≠ .failed ∧ ∃ row ∈ db.evaluationRuns.lookup run, row.status = .failed

section Step

variable {env : Env} {s s' : World}

/-- **A change that takes nothing back** decreases at most the failures of evaluations. -/
theorem counters_grow (hgrow : s.Grows s')
    (hrows : RowsStep env.settings.maxAttempts s.db.jobs s'.db.jobs)
    (hfailures : (collect s.db).evaluationFailures ≤ (collect s'.db).evaluationFailures) :
    (collect s.db).AtMost (collect s'.db) where
  jobsCreated := by
    refine labelsAtMost_of fun j job hj _ => ?_
    obtain ⟨job', hj', _, htype⟩ := hrows.terminal hj
    exact ⟨job', hj', rfl, htype⟩
  jobsCompleted := by
    refine labelsAtMost_of fun j job hj hs => ?_
    obtain ⟨job', hj', hsame, htype⟩ := hrows.terminal hj
    have hs : job.status = .succeeded := of_decide_eq_true hs
    refine ⟨job', hj', decide_eq_true ?_, htype⟩
    rw [hsame (hs ▸ trivial), hs]
  jobsFailed := by
    refine labelsAtMost_of fun j job hj hs => ?_
    obtain ⟨job', hj', hsame, htype⟩ := hrows.terminal hj
    have hs : job.status = .failed := of_decide_eq_true hs
    refine ⟨job', hj', decide_eq_true ?_, htype⟩
    rw [hsame (hs ▸ trivial), hs]
  jobsRetried := by
    show Table.count (fun key _ => decide (1 < key.2)) s.db.attempts ≤
      Table.count (fun key _ => decide (1 < key.2)) s'.db.attempts
    refine Table.count_le_count _ fun key row hrow hP => ?_
    obtain ⟨row', hrow'⟩ := Option.isSome_iff_exists.mp (hgrow.attempts key (by rw [hrow]; rfl))
    exact ⟨row', hrow', hP⟩
  evaluationRuns := by
    show Table.count (fun _ _ => true) s.db.evaluationRuns ≤
      Table.count (fun _ _ => true) s'.db.evaluationRuns
    refine Table.count_le_count _ fun run row hrow _ => ?_
    obtain ⟨row', hrow', _⟩ := hgrow.records.evaluationRuns run row hrow
    exact ⟨row', hrow', rfl⟩
  evaluationFailures := hfailures
  checkpointCreated := by
    show Table.count (fun _ _ => true) s.db.checkpoints ≤
      Table.count (fun _ _ => true) s'.db.checkpoints
    exact Table.count_le_of_extends _ hgrow.records.checkpoints
  checkpointResume := by
    show Table.count (fun _ step => step.isSome) s.db.attemptResumeDecisions ≤
      Table.count (fun _ step => step.isSome) s'.db.attemptResumeDecisions
    exact Table.count_le_of_extends _ hgrow.records.attemptResumeDecisions

/-- A run is counted as a failure. -/
def failedRun (_ : RunId) (row : EvaluationRun) : Bool := row.status = .failed

variable (p : ℕ) (i : Input)

/-- The runs after a live attempt has marked its run. -/
theorem markRunStatus_runs {run : RunId} {j : JobId} {w : WorkerId} {k : ℕ} (status : RunStatus)
    (setCompleted : Bool) {row : EvaluationRun} (howns : s.db.Owns j w k)
    (hrow : s.db.evaluationRuns.lookup run = some row) :
    ((Op.markRunStatus run j w k status setCompleted).perform env p i s).1.db.evaluationRuns =
      s.db.evaluationRuns.insert run
        { row with status, completedAt := if setCompleted then some i.now else none } := by
  simp only [Op.perform, EvaluationRunsRepo.markStatus, Db.fenced, if_pos howns, hrow,
    World.tryWrite, World.write]

/-- **A statement lets the failures of evaluations decrease exactly if it revives a failed run.** -/
theorem evaluationFailures_iff (op : Op) :
    (collect s.db).evaluationFailures ≤ (collect (op.perform env p i s).1.db).evaluationFailures ↔
      ¬ RevivesFailed op i s.db := by
  show Table.count failedRun s.db.evaluationRuns ≤
    Table.count failedRun (op.perform env p i s).1.db.evaluationRuns ↔ _
  constructor
  · intro hle hrevives
    obtain ⟨run, j, w, k, status, setCompleted, rfl, howns, hstatus, row, hrow, hfailed⟩ := hrevives
    rw [markRunStatus_runs p i status setCompleted howns hrow] at hle
    refine absurd hle (Nat.not_le.mpr ?_)
    refine Table.count_lt_count failedRun hrow (decide_eq_true hfailed) (fun row' hrow' => ?_)
      fun run' row' hrow' hP => ?_
    · rw [AList.lookup_insert] at hrow'
      cases hrow'
      exact decide_eq_false hstatus
    · obtain ⟨_, rfl⟩ | hold := lookup_insert_cases hrow'
      · exact absurd (of_decide_eq_true hP) hstatus
      · exact ⟨row', hold, hP⟩
  · intro hkeeps
    refine Table.count_le_count failedRun fun run row hrow hP => ?_
    obtain hkept | ⟨j, w, k, status, setCompleted, rfl, howns⟩ :=
      (perform_records env p i s op).keepsRun hrow
    · exact ⟨row, hkept, hP⟩
    · have hstatus : status = .failed := by
        by_contra hstatus
        exact hkeeps ⟨run, j, w, k, status, setCompleted, rfl, howns, hstatus, row, hrow,
          of_decide_eq_true hP⟩
      rw [markRunStatus_runs p i status setCompleted howns hrow, AList.lookup_insert]
      exact ⟨_, rfl, decide_eq_true hstatus⟩

/-- **A statement lets no counter decrease exactly if it revives no failed run.** -/
theorem counters_perform_iff (op : Op) :
    (collect s.db).AtMost (collect (op.perform env p i s).1.db) ↔ ¬ RevivesFailed op i s.db := by
  have hfailures : (collect s.db).evaluationFailures ≤
      (collect (op.perform env p i s).1.db).evaluationFailures ↔ ¬ RevivesFailed op i s.db :=
    evaluationFailures_iff p i op
  rw [← hfailures]
  constructor
  · intro h
    exact h.evaluationFailures
  · intro h
    exact counters_grow (perform_grows env p i s op) (perform_core env p i s op).rows h

end Step

/-! ### Every run -/

section Runs

variable {env : Env}

/-- The event lets no counter decrease. -/
def CountersGrow (c : System env) (e : SysEvent env) : Prop :=
  ∀ c', c.step e = some c' → (collect c.shared.db).AtMost (collect c'.shared.db)

theorem countersGrow_iff (c : System env) (e : SysEvent env) :
    CountersGrow c e ↔ Meets (fun op i db => ¬ RevivesFailed op i db) c e := by
  have hsame := Counters.AtMost.refl (collect c.shared.db)
  have hiff : ∀ {c'}, c.step e = some c' → ((collect c.shared.db).AtMost (collect c'.shared.db) ↔
      Meets (fun op i db => ¬ RevivesFailed op i db) c e) := by
    intro c' hstep
    refine Config.atStep_iff (I := fun s : World => (collect c.shared.db).AtMost (collect s.db))
      (φ := fun op i (s : World) => ¬ RevivesFailed op i s.db) hsame (fun p i _ op => ?_)
      (fun _ => hsame) (fun a => ?_) hstep
    · exact counters_perform_iff p i op
    · refine counters_grow (beat_grows env c.shared a.1 a.2) (beat_rows env c.shared a.1 a.2) ?_
      show _ ≤ (collect (c.shared.beat env a.1 a.2).db).evaluationFailures
      rw [beat_frame]
      exact le_refl _
  cases hstep : c.step e with
  | some c' =>
      rw [← hiff hstep]
      constructor
      · exact fun h => h c' hstep
      · intro h c'' hstep'
        rw [hstep] at hstep'
        cases hstep'
        exact h
  | none =>
      refine iff_of_true (fun c' hstep' => ?_) ?_
      · rw [hstep] at hstep'
        cases hstep'
      · cases e with
        | step p i =>
            intro call op k hat
            rw [Config.step, hat] at hstep
            cases hstep
        | _ => trivial

/-- **No counter ever decreases exactly if no attempt revives a failed run**, in every run of the
platform. -/
theorem counters_monotone_iff (c : System env) (es : List (SysEvent env)) :
    Runs.Always Config.step CountersGrow c es ↔
      Runs.Always Config.step (Meets fun op i db => ¬ RevivesFailed op i db) c es := by
  constructor
  · exact Runs.always_mono fun c e h => (countersGrow_iff c e).mp h
  · exact Runs.always_mono fun c e h => (countersGrow_iff c e).mpr h

/-- Counters that no event lets decrease have not decreased after a run. -/
theorem counters_of_always {c c' : System env} {es : List (SysEvent env)}
    (hgrow : Runs.Always Config.step CountersGrow c es)
    (hrun : Runs.runFrom Config.step c es = some c') :
    (collect c.shared.db).AtMost (collect c'.shared.db) :=
  Runs.run_invariant_of_always
    (I := fun m : System env => (collect c.shared.db).AtMost (collect m.shared.db))
    (fun _ _ m' h hok hstep => h.trans (hok m' hstep)) (.refl _) hgrow hrun

end Runs

/-- The first attempt of an evaluation marks the run as failed, and its worker dies. -/
def failedAndCrashed : List (SysEvent Env.standard) :=
  session 0 (.createEvaluation evaluationPayload) 6 { uuid := 1 } ++
    session 1 .schedulerRunOnce 8 {} ++ session 2 (.processJobMessage 1 7) 20 { now := 1 } ++
    [.crash 2]

/-- **A counter that decreases**: the second attempt takes the failure of the first one back. -/
theorem failure_uncounted :
    ¬ Runs.Always Config.step CountersGrow ({ shared := evaluationStart } : System .standard)
      (failedAndCrashed ++ secondAttempt) := by
  intro hgrow
  obtain ⟨m, hm, hfailed⟩ := exists_reaches evaluationStart_initial failedAndCrashed
    (P := fun c : System .standard => (collect c.shared.db).evaluationFailures = 1)
    (by decide +kernel)
  obtain ⟨c, hc, hnone⟩ := exists_reaches evaluationStart_initial (failedAndCrashed ++ secondAttempt)
    (P := fun c : System .standard => (collect c.shared.db).evaluationFailures = 0)
    (by decide +kernel)
  obtain ⟨m', hm', hrest⟩ := Runs.runFrom_append.mp hc.2
  rw [hm.2] at hm'
  cases hm'
  have hle := (counters_of_always (Runs.always_append hm.2 hgrow).2 hrest).evaluationFailures
  rw [hfailed, hnone] at hle
  exact absurd hle (by decide)

end PosttrainPlatform
