import PosttrainPlatform.Properties.Knows

/-!
# The status of an evaluation run

`mark_status` is fenced on the job, and looks neither at the status of the run nor at what an earlier
attempt made of it.  A run that has succeeded stays so as long as nobody claims its job again: the
live attempt has marked it itself, and does so once.
-/

namespace PosttrainPlatform

open Programs

section Ownership

variable {env : Env} {j : JobId} {w w' : WorkerId} {k k' : ℕ}

/-- A job has one live attempt. -/
theorem Db.Owns.unique {db : Db} (h : db.Owns j w k) (h' : db.Owns j w' k') : w = w' ∧ k = k' := by
  obtain ⟨job, hj, _, howner, hk⟩ := h
  obtain ⟨job', hj', _, howner', hk'⟩ := h'
  rw [Option.mem_def] at hj hj'
  rw [hj] at hj'
  cases hj'
  rw [howner] at howner'
  exact ⟨Option.some.inj howner', hk.symm.trans hk'⟩

/-- **Only a claim makes an attempt live.** -/
theorem owns_of_perform {p : ℕ} {i : Input} {s : World} {op : Op} (hok : LeasesOk s.db.jobs)
    (h : (op.perform env p i s).1.db.Owns j w k) : s.db.Owns j w k ∨ (op = .claim j w ∧
      (JobsRepo.claim s.db j w i.now env.settings.leaseDurationSeconds).2 = true) := by
  by_cases hclaim : op = .claim j w
  · subst hclaim
    obtain heq | ⟨job, hj, hcond, heq⟩ := JobsRepo.updateWhere_cases
      (r := JobsRepo.claim s.db j w i.now env.settings.leaseDurationSeconds) rfl
    · rw [Op.perform, World.write, heq] at h
      exact Or.inl h
    · exact Or.inr ⟨rfl, by rw [heq]⟩
  refine Or.inl ?_
  obtain ⟨job', hj', hown⟩ := h
  have hviews := (perform_core env p i s op).views
  have hv' := Core.view_of_lookup (c := (op.perform env p i s).1.db.core) hj'
  generalize hu : (⟨job', _, _⟩ : JobView) = v' at hv'
  have hown' : v'.job.OwnedBy w k := hu ▸ hown
  cases hv : s.db.core.view j with
  | none =>
      have hqueued := (hviews.new j v' hv hv').1.1
      rw [hown'.1] at hqueued
      cases hqueued
  | some v =>
      have hstep := hviews.moves j v v' hv hv'
      have hj := (Core.view_eq_some.mp hv).1
      suffices hbefore : v.job.OwnedBy w k from ⟨v.job, hj, hbefore⟩
      cases hstep with
      | skip => exact hown'
      | @transition _ _ status hto hfrom hp =>
          -- a job that waits has no owner
          have hedge := mem_sourcesFor hto hfrom
          rw [show status = .running from hown'.1] at hedge
          have hwaits : v.job.status = .queued := by
            revert hedge
            cases v.job.status <;> decide
          have hnone := hok j v.job hj (Or.inl hwaits)
          rw [show v.job.leaseOwner = some w from hown'.2.1] at hnone
          cases hnone
      | cancel hfrom hp hrows => cases hown'.1
      | setCancelRequested | updateConfig | softDelete | clearRetryDispatched | reserve =>
          exact hown'
      | claim hs hc hdue hp hact =>
          cases hown'.2.1
          exact absurd rfl hclaim
      | finalize hown hp hletter hrows => exact absurd hown'.1 (Job.finalized_not_running _ _)
      | reclaim hs hexp hrows => exact absurd hown'.1 (Job.reclaimed_not_running _ _ _)

/-- A heartbeat makes no attempt live. -/
theorem owns_of_beat {s : World} {p : ℕ} {now : Time} (h : (s.beat env p now).db.Owns j w k) :
    s.db.Owns j w k := by
  obtain ⟨job, hj, hown⟩ := h
  rw [Option.mem_def] at hj
  obtain hsame | ⟨job', w', k', t, hj', _, hmoved⟩ := beat_lookup env s p now j
  · rw [hsame] at hj
    exact ⟨job, hj, hown⟩
  · rw [hmoved] at hj
    cases hj
    exact ⟨job', hj', hown⟩

end Ownership

section Statuses

variable {env : Env} {p : ℕ} {s : World} {h : Pasts} {run : RunId}

/-- The runs after a statement: the old ones, new ones, and those whose status a live attempt has
set. -/
theorem RecordStep.evaluationRuns {db : Db} {i : Input} {op : Op} {c : Records}
    (hstep : RecordStep env db i op c) {row : EvaluationRun}
    (hrow : c.evaluationRuns.lookup run = some row) :
    db.evaluationRuns.lookup run = some row ∨
      (∃ row₀, op = .createEvaluationRun row₀ ∧ row = { row₀ with createdAt := i.now }) ∨
      ∃ j w k setCompleted row₀, op = .markRunStatus run j w k row.status setCompleted ∧
        db.Owns j w k ∧ db.evaluationRuns.lookup run = some row₀ ∧ row₀.SameInputs row := by
  cases hstep with
  | createEvaluationRun hfree =>
      obtain ⟨_, rfl⟩ | hrow := lookup_insert_cases hrow
      · exact Or.inr (Or.inl ⟨_, rfl, rfl⟩)
      · exact Or.inl hrow
  | markRunStatus howns hold =>
      obtain ⟨rfl, rfl⟩ | hrow := lookup_insert_cases hrow
      · exact Or.inr (Or.inr ⟨_, _, _, _, _, rfl, howns, hold, rfl, rfl, rfl, rfl, rfl, rfl⟩)
      · exact Or.inl hrow
  | _ => exact Or.inl hrow

/-- A live attempt sets the status of a run that is there. -/
theorem markRunStatus_answer {i : Input} {j : JobId} {w : WorkerId} {k : ℕ} {status : RunStatus}
    {setCompleted : Bool} {row : EvaluationRun} (howns : s.db.Owns j w k)
    (hrow : s.db.evaluationRuns.lookup run = some row) :
    ((Op.markRunStatus run j w k status setCompleted).perform env p i s).2 = .ok true := by
  simp only [Op.perform, EvaluationRunsRepo.markStatus, Db.fenced, if_pos howns, hrow,
    World.tryWrite, World.write]

/-- An attempt sets the status of the run of its own job. -/
theorem Knows.jobId_of_mark (hk : Knows env s h) {j : JobId} {w : WorkerId} {k : ℕ}
    {status : RunStatus} {setCompleted : Bool}
    (hop : Past.Justifies env (h p) (.markRunStatus run j w k status setCompleted))
    {row : EvaluationRun} (hrow : s.db.evaluationRuns.lookup run = some row) : row.jobId = j := by
  obtain ⟨⟨row₀, hevaluates⟩, _⟩ := hop
  obtain ⟨hj, row', hrow', hsame⟩ := hk.told p _ _ hevaluates.found run row₀ rfl
  rw [hrow] at hrow'
  cases hrow'
  exact hsame.1.trans hj

/-- An attempt that has marked its run for good marks it no more. -/
theorem not_marked_before {m : Past} {run : RunId} {j : JobId} {w : WorkerId} {k : ℕ}
    {status status' : RunStatus} {setCompleted setCompleted' : Bool} {b : Bool}
    (hop : m.InOrder (.markRunStatus run j w k status setCompleted)) (hs : status' ≠ .running) :
    ¬ m.Answered (.markRunStatus run j w k status' setCompleted') b := by
  intro hmarked
  have hlast : (Op.markRunStatus run j w k status' setCompleted').rank = 8 := if_neg hs
  obtain hzero | hless := hop
  · simp only [Op.rank] at hzero
    split at hzero <;> cases hzero
  · have hearlier := hless _ hmarked
    rw [hlast] at hearlier
    simp only [Op.rank] at hearlier
    split at hearlier <;> omega

/-- **The live attempt of a run that has succeeded has marked it itself.** -/
def OwnSuccess (s : World) (h : Pasts) : Prop :=
  ∀ run row w k, s.db.evaluationRuns.lookup run = some row → row.status = .succeeded →
    s.db.Owns row.jobId w k → ∃ p setCompleted,
      (h p).Answered (.markRunStatus run row.jobId w k .succeeded setCompleted) true

/-- **A live attempt never sets the status of a run that has succeeded.** -/
theorem OwnSuccess.not_marked_again (hown : OwnSuccess s h) (hk : Knows env s h) {j : JobId}
    {w : WorkerId} {k : ℕ} {status : RunStatus} {setCompleted : Bool}
    (hop : Past.Disciplined env (h p) (.markRunStatus run j w k status setCompleted))
    (howns : s.db.Owns j w k) {row : EvaluationRun}
    (hrow : s.db.evaluationRuns.lookup run = some row) : row.status ≠ .succeeded := by
  intro hs
  have hj : row.jobId = j := hk.jobId_of_mark hop.2 hrow
  subst hj
  obtain ⟨q, setCompleted', hmarked⟩ := hown run row w k hrow hs howns
  -- both marks belong to the thread of the attempt
  obtain ⟨⟨_, hbefore⟩, _⟩ := hk.justified (.of_answered hmarked)
  obtain ⟨⟨_, hnow⟩, _⟩ := hop.2
  obtain rfl : p = q := hk.sameThread hnow.attempts hbefore.attempts
  exact not_marked_before hop.1 (by decide) hmarked

/-- A run that a statement does not mark keeps its row. -/
theorem RecordStep.keepsRun {db : Db} {i : Input} {op : Op} {c : Records}
    (hstep : RecordStep env db i op c) {row : EvaluationRun}
    (hrow : db.evaluationRuns.lookup run = some row) :
    c.evaluationRuns.lookup run = some row ∨ ∃ j w k status setCompleted,
      op = .markRunStatus run j w k status setCompleted ∧ db.Owns j w k := by
  cases hstep with
  | createEvaluationRun hfree => exact Or.inl (Table.Extends.insert hfree _ run row hrow)
  | @markRunStatus run' _ _ _ _ _ _ _ howns hold =>
      by_cases hrun : run = run'
      · subst hrun
        exact Or.inr ⟨_, _, _, _, _, rfl, howns⟩
      · exact Or.inl ((AList.lookup_insert_ne hrun).trans hrow)
  | _ => exact Or.inl hrow

/-- The claim does not take a job whose evaluation run has already succeeded. -/
def ClaimsUnfinished (env : Env) : Op → Input → Db → Prop
  | .claim j w, i, db =>
      (JobsRepo.claim db j w i.now env.settings.leaseDurationSeconds).2 = true →
        ∀ r ∈ db.evaluationRuns.rows, r.2.jobId = j → r.2.status ≠ .succeeded
  | _, _, _ => True

def ClaimsUnfinished.check (env : Env) (i : Input) (db : Db) : Op → Bool
  | .claim j w =>
      (JobsRepo.claim db j w i.now env.settings.leaseDurationSeconds).2 = true →
        ∀ r ∈ db.evaluationRuns.rows, r.2.jobId = j → r.2.status ≠ .succeeded
  | _ => true

instance (env : Env) (op : Op) (i : Input) (db : Db) : Decidable (ClaimsUnfinished env op i db) :=
  decidable_of_iff (ClaimsUnfinished.check env i db op = true) (by
    cases op
    case claim => exact decide_eq_true_iff
    all_goals exact iff_of_true rfl trivial)

/-- **A run that has succeeded keeps its row.** -/
theorem OwnSuccess.kept (hown : OwnSuccess s h) (hk : Knows env s h) {op : Op}
    (hop : Past.Disciplined env (h p) op) (i : Input) {row : EvaluationRun}
    (hrow : s.db.evaluationRuns.lookup run = some row) (hs : row.status = .succeeded) :
    (op.perform env p i s).1.db.evaluationRuns.lookup run = some row := by
  obtain hkept | ⟨j, w, k, status, setCompleted, rfl, howns⟩ :=
    (perform_records env p i s op).keepsRun hrow
  · exact hkept
  · exact absurd hs (hown.not_marked_again hk hop howns hrow)

/-- **Every statement keeps the success of live attempts their own.** -/
theorem OwnSuccess.perform (hown : OwnSuccess s h) (hk : Knows env s h) {op : Op}
    (hop : Past.Disciplined env (h p) op) {i : Input} (hclaim : ClaimsUnfinished env op i s.db) :
    OwnSuccess (op.perform env p i s).1 (h.add p ⟨op, (op.perform env p i s).2⟩) := by
  intro run row w k hrow hs howns
  have hbefore := owns_of_perform hk.leases howns
  obtain hold | ⟨row₁, rfl, rfl⟩ | ⟨j, w', k', setCompleted, row₀, rfl, howns', hrow₀, hsame⟩ :=
    (perform_records env p i s op).evaluationRuns hrow
  · obtain hlive | ⟨rfl, hclaimed⟩ := hbefore
    · obtain ⟨q, setCompleted, hmarked⟩ := hown run row w k hold hs hlive
      exact ⟨q, setCompleted, hmarked.mono (Histories.subset_add h p q _)⟩
    · exact absurd hs (hclaim hclaimed (run, row) (Table.mem_rows.mpr hold) rfl)
  · have hqueued : row₁.status = .queued := hop.2.1
    rw [hs] at hqueued
    cases hqueued
  · obtain hlive | ⟨heq, _⟩ := hbefore
    · have hj : row.jobId = j := hsame.1.trans (hk.jobId_of_mark hop.2 hrow₀)
      subst hj
      obtain ⟨rfl, rfl⟩ := hlive.unique howns'
      rw [hs, markRunStatus_answer howns' hrow₀]
      refine ⟨p, setCompleted, Histories.mem_add.mpr (Or.inl ⟨rfl, rfl⟩)⟩
    · cases heq

/-- A change that leaves the runs alone and makes no attempt live. -/
theorem OwnSuccess.frame {s' : World} {h' : Pasts} (hown : OwnSuccess s h)
    (hruns : s'.db.evaluationRuns = s.db.evaluationRuns)
    (howns : ∀ j w k, s'.db.Owns j w k → s.db.Owns j w k) (hsub : ∀ q, h q ⊆ h' q) :
    OwnSuccess s' h' := by
  intro run row w k hrow hs hlive
  rw [hruns] at hrow
  obtain ⟨q, setCompleted, hmarked⟩ := hown run row w k hrow hs (howns _ _ _ hlive)
  exact ⟨q, setCompleted, hmarked.mono (hsub q)⟩

theorem ownSuccess_invariant (env : Env) :
    HistoryInvariant (M := platform env) (Past.Disciplined env) OwnSuccess (Knows env)
      fun op i s => ClaimsUnfinished env op i s.db where
  perform _ _ _ _ _ _ hk hown hop hclaim := hown.perform hk hop hclaim
  fault p e op s h _ hown _ :=
    hown.frame rfl (fun _ _ _ hlive => hlive) fun q => Histories.subset_add h p q _
  halt p s h _ hown := hown.frame rfl (fun _ _ _ hlive => hlive) fun _ _ hd => hd
  ambient a s h _ hown := by
    refine hown.frame ?_ (fun _ _ _ => owns_of_beat) fun _ _ hd => hd
    show (s.beat env a.1 a.2).db.evaluationRuns = _
    rw [beat_frame]

end Statuses

/-! ### Quality gates -/

/-- The result of a gate refers to a run that has succeeded. -/
def World.GatesRest (s : World) : Prop :=
  ∀ run gate, (s.db.qualityGateResults.lookup (run, gate)).isSome →
    ∃ row, s.db.evaluationRuns.lookup run = some row ∧ row.status = .succeeded

/-- A result of a gate after a statement is an old one, or refers to a run that has succeeded. -/
theorem RecordStep.gateResult {env : Env} {db : Db} {i : Input} {op : Op} {c : Records}
    (hstep : RecordStep env db i op c) {run : RunId} {gate : ℕ}
    (hresult : (c.qualityGateResults.lookup (run, gate)).isSome) :
    (db.qualityGateResults.lookup (run, gate)).isSome ∨
      ∃ row, db.evaluationRuns.lookup run = some row ∧ row.status = .succeeded := by
  cases hstep with
  | recordGateResult hrow hs hfree =>
      obtain ⟨result, hresult⟩ := Option.isSome_iff_exists.mp hresult
      obtain ⟨hkey, _⟩ | hold := lookup_insert_cases hresult
      · cases hkey
        exact Or.inr ⟨_, hrow, hs⟩
      · exact Or.inl (Option.isSome_iff_exists.mpr ⟨result, hold⟩)
  | _ => exact Or.inl hresult

theorem gates_invariant (env : Env) :
    HistoryInvariant (M := platform env) (Past.Disciplined env) (fun s _ => s.GatesRest)
      (fun s h => Knows env s h ∧ OwnSuccess s h) fun _ _ _ => True where
  perform p i _ op s h hk hgates hop _ := by
    intro run gate hresult
    have hbefore : ∃ row, s.db.evaluationRuns.lookup run = some row ∧ row.status = .succeeded := by
      obtain hold | hrun := (perform_records env p i s op).gateResult hresult
      · exact hgates run gate hold
      · exact hrun
    obtain ⟨row, hrow, hs⟩ := hbefore
    exact ⟨row, hk.2.kept hk.1 hop i hrow hs, hs⟩
  fault _ _ _ _ _ _ hgates _ := hgates
  halt _ _ _ _ hgates := hgates
  ambient a s _ _ hgates := by
    show (s.beat env a.1 a.2).GatesRest
    rw [beat_frame]
    exact hgates

/-! ### Every run -/

section Runs

variable {env : Env} {s : World} {es : List (SysEvent env)} {c : System env}

theorem ownSuccess_of_reaches (h : Reaches s es c)
    (hclaims : Runs.Always Config.step (Meets (ClaimsUnfinished env)) ({ shared := s } : System env)
      es) : OwnSuccess c.shared (pasts env s es) := by
  refine (ownSuccess_invariant env).run (disciplined_program env) (fun run row w k hrow => ?_)
    (fun fs m hfs hm => knows_of_reaches ⟨h.1, hm⟩) hclaims h.2
  rw [h.1.db] at hrow
  cases hrow

/-- **Where no claim takes a job whose evaluation run has succeeded, success is final**: the row of a
run that has succeeded never changes again, and every result of a quality gate refers to such a run. -/
theorem evaluation_success_final (h : Reaches s es c)
    (hclaims : Runs.Always Config.step (Meets (ClaimsUnfinished env)) ({ shared := s } : System env)
      es) :
    (∀ fs m, fs <+: es → Reaches s fs m → ∀ run row,
      m.shared.db.evaluationRuns.lookup run = some row → row.status = .succeeded →
        c.shared.db.evaluationRuns.lookup run = some row) ∧
    ∀ run gate, (c.shared.db.qualityGateResults.lookup (run, gate)).isSome →
      ∃ row, c.shared.db.evaluationRuns.lookup run = some row ∧ row.status = .succeeded := by
  have hprefix : ∀ fs m, fs <+: es → Runs.runFrom Config.step ({ shared := s } : System env) fs =
      some m → Knows env m.shared (pasts env s fs) ∧ OwnSuccess m.shared (pasts env s fs) := by
    rintro fs m ⟨gs, rfl⟩ hm
    exact ⟨knows_of_reaches ⟨h.1, hm⟩,
      ownSuccess_of_reaches ⟨h.1, hm⟩ (Runs.always_append hm hclaims).1⟩
  constructor
  · intro fs m hfs hm run row hrow hs
    refine related_of_run (K := fun s h => Knows env s h ∧ OwnSuccess s h)
      (R := fun s s' : World => s.db.evaluationRuns.lookup run = some row →
        s'.db.evaluationRuns.lookup run = some row) (fun _ hrow => hrow)
      (fun _ _ _ h h' hrow => h' (h hrow)) ?_ (fun _ _ hrow => hrow) ?_ (disciplined_program env)
      hprefix hclaims h.2 hfs hm.2 hrow
    · exact fun p i _ op s h hk hop _ hrow => hk.2.kept hk.1 hop i hrow hs
    · intro a s hrow
      show (s.beat env a.1 a.2).db.evaluationRuns.lookup run = some row
      rw [beat_frame]
      exact hrow
  · refine (gates_invariant env).run (disciplined_program env) (fun run gate hresult => ?_) hprefix
      (Runs.always_of_forall (Config.atStep_of_forall fun _ _ _ => trivial) _ es) h.2
    rw [h.1.db] at hresult
    cases hresult

end Runs

/-- A platform with what an evaluation needs. -/
def evaluationStart : World := World.evaluable .standard { taskType := "text" } [1] [2]

theorem evaluationStart_initial : evaluationStart.Initial := World.evaluable_initial _ _ _ _

/-- A subprocess that reports success at once. -/
def finalLine : Input where
  now := 1
  lines := [.json (.obj [("event", .str "final")])]

/-- An evaluation is created and admitted; its attempt marks the run, and its worker dies. -/
def markedAndCrashed : List (SysEvent Env.standard) :=
  session 0 (.createEvaluation evaluationPayload) 6 { uuid := 1 } ++
    session 1 .schedulerRunOnce 8 {} ++ session 2 (.processJobMessage 1 7) 20 finalLine ++ [.crash 2]

/-- A quality gate of the run is evaluated. -/
def gateEvaluated : List (SysEvent Env.standard) :=
  session 3 (.evaluateQualityGate 1 1) 5 {}

/-- The gate finds the run as the attempt has left it. -/
theorem evaluation_success_gated : ∃ c : System Env.standard,
    Reaches evaluationStart (markedAndCrashed ++ gateEvaluated) c ∧
      ∃ row ∈ c.shared.db.evaluationRuns.lookup 1,
        row.status = .succeeded ∧ row.completedAt = some 1 := by
  obtain ⟨m, hm, row, hrow, hs⟩ := exists_reaches evaluationStart_initial markedAndCrashed
    (P := fun c : System .standard => ∃ row ∈ c.shared.db.evaluationRuns.lookup 1,
      row.status = .succeeded ∧ row.completedAt = some 1) (by decide +kernel)
  obtain ⟨c, hc, _⟩ := exists_reaches evaluationStart_initial (markedAndCrashed ++ gateEvaluated)
    (P := fun c : System .standard => (c.shared.db.qualityGateResults.lookup (1, 1)).isSome = true)
    (by decide +kernel)
  have hfinal := evaluation_success_final hc (by decide +kernel)
  exact ⟨c, hc, row, hfinal.1 _ m (List.prefix_append _ _) hm 1 row hrow hs.1, hs⟩

/-- The lease is reclaimed, and a second attempt begins. -/
def secondAttempt : List (SysEvent Env.standard) :=
  session 4 .recoveryRunOnce 4 { now := 100 } ++ session 5 .schedulerRunOnce 8 { now := 200 } ++
    session 6 (.processJobMessage 1 8) 16 { now := 300 }

/-- **A success that is undone**: the second attempt sets the run back to RUNNING and takes away its
completion time, while the result of a gate refers to it. -/
theorem evaluation_success_undone :
    (∃ c : System Env.standard, Reaches evaluationStart markedAndCrashed c ∧
      ∃ row ∈ c.shared.db.evaluationRuns.lookup 1,
        row.status = .succeeded ∧ row.completedAt = some 1) ∧
    ∃ c : System Env.standard,
      Reaches evaluationStart (markedAndCrashed ++ gateEvaluated ++ secondAttempt) c ∧
      (c.shared.db.qualityGateResults.lookup (1, 1)).isSome = true ∧
        ∃ row ∈ c.shared.db.evaluationRuns.lookup 1,
          row.status = .running ∧ row.completedAt = none :=
  ⟨exists_reaches evaluationStart_initial _ (by decide +kernel),
    exists_reaches evaluationStart_initial _ (by decide +kernel)⟩

end PosttrainPlatform
