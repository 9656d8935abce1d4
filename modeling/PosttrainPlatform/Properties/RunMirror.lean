import PosttrainPlatform.Properties.EvaluationRuns
import PosttrainPlatform.Properties.Lifecycle

/-!
# How an evaluation run mirrors its job

The job of an evaluation is ended by its worker, by a cancellation or by recovery; its run is marked
by its worker alone.  A worker that ends the job has marked the run before.  The other endings leave
the run as it is, so the mirror holds where they find it as it should be.
-/

namespace PosttrainPlatform

open Programs

/-! ### Heartbeats -/

/-- The heartbeat thread was started by its worker, and gives up lost attempts only. -/
def Heartbeat.Fits (hb : Heartbeat) (s : World) (h : Past) : Prop :=
  h.Answered (.startHeartbeat hb.jobId hb.workerId hb.attemptNumber) () ∧
    (hb.abandoned = true → s.Lost hb.jobId hb.workerId hb.attemptNumber)

/-- **An attempt that is found abandoned is lost.** -/
structure Beats (s : World) (h : Pasts) : Prop where
  threads : ∀ p hb, s.heartbeats p = some hb → hb.Fits s (h p)
  told : ∀ p, (h p).Answered .abandoned true → ∃ j w k,
    (h p).Answered (.startHeartbeat j w k) () ∧ s.Lost j w k

section Heartbeats

variable {env : Env} {p : ℕ} {s s' : World} {h h' : Pasts}

theorem Heartbeat.Fits.mono {hb : Heartbeat} {m m' : Past} (hfits : hb.Fits s m)
    (hlost : ∀ j w k, s.Lost j w k → s'.Lost j w k) (hsub : m ⊆ m') : hb.Fits s' m' :=
  ⟨hfits.1.mono hsub, fun habandoned => hlost _ _ _ (hfits.2 habandoned)⟩

/-- What was told of lost attempts, after a change. -/
theorem Beats.told_mono (hb : Beats s h) (hlost : ∀ j w k, s.Lost j w k → s'.Lost j w k)
    (hsub : ∀ q, h q ⊆ h' q) {q : ℕ} (hq : (h q).Answered .abandoned true) :
    ∃ j w k, (h' q).Answered (.startHeartbeat j w k) () ∧ s'.Lost j w k := by
  obtain ⟨j, w, k, hstarted, hl⟩ := hb.told q hq
  exact ⟨j, w, k, hstarted.mono (hsub q), hlost j w k hl⟩

/-- A heartbeat thread that is stopped fits as before. -/
theorem Beats.stop (hb : Beats s h) (p : ℕ) {q : ℕ} {beat : Heartbeat}
    (hq : (s.stopHeartbeat p).heartbeats q = some beat) : beat.Fits (s.stopHeartbeat p) (h q) := by
  by_cases hqp : q = p
  · subst hqp
    simp only [World.stopHeartbeat, World.setHeartbeat, Function.update_self] at hq
    obtain ⟨beat', hbeat', rfl⟩ := Option.map_eq_some_iff.mp hq
    exact hb.threads q beat' hbeat'
  · simp only [World.stopHeartbeat, World.setHeartbeat, Function.update_of_ne hqp] at hq
    exact hb.threads q beat hq

theorem Beats.perform (hb : Beats s h) (hk : Knows env s h) (op : Op) (i : Input) :
    Beats (op.perform env p i s).1 (h.add p ⟨op, (op.perform env p i s).2⟩) := by
  have hlost : ∀ j w k, s.Lost j w k → (op.perform env p i s).1.Lost j w k :=
    (perform_grows env p i s op).lost hk.leases
  have hsub : ∀ q, h q ⊆ h.add p ⟨op, (op.perform env p i s).2⟩ q :=
    fun q => Histories.subset_add h p q _
  refine ⟨fun q beat hq => ?_, fun q hq => ?_⟩
  · by_cases hstart : ∃ j w k, op = .startHeartbeat j w k
    · obtain ⟨j, w, k, rfl⟩ := hstart
      by_cases hqp : q = p
      · subst hqp
        simp only [Op.perform, World.setHeartbeat, Function.update_self, Option.some.injEq] at hq
        subst hq
        exact ⟨Histories.mem_add.mpr (Or.inl ⟨rfl, rfl⟩), fun h => by cases h⟩
      · simp only [Op.perform, World.setHeartbeat, Function.update_of_ne hqp] at hq
        exact (hb.threads q beat hq).mono hlost (hsub q)
    · by_cases hstop : op = .stopHeartbeat
      · subst hstop
        exact (hb.stop p hq).mono (fun _ _ _ hl => hl) (hsub q)
      · push Not at hstart
        rw [perform_heartbeats env p i s hstart hstop] at hq
        exact (hb.threads q beat hq).mono hlost (hsub q)
  · obtain ⟨rfl, hnow⟩ | hold := Histories.answered_add hq
    · obtain ⟨rfl, heq⟩ := Sigma.mk.inj_iff.mp hnow
      have hany : (s.heartbeats q).any (fun hb => hb.abandoned) = true :=
        (Except.ok.inj (eq_of_heq heq)).symm
      cases hbeat : s.heartbeats q with
      | none =>
          rw [hbeat] at hany
          cases hany
      | some beat =>
          rw [hbeat] at hany
          obtain ⟨hstarted, hl⟩ := hb.threads q beat hbeat
          exact ⟨_, _, _, hstarted.mono (hsub q), hl hany⟩
    · exact hb.told_mono hlost hsub hold

/-- What a round of a heartbeat thread leaves in the threads. -/
theorem heartbeats_of_beat {now : Time} {q : ℕ} {beat : Heartbeat}
    (hq : (s.beat env p now).heartbeats q = some beat) : s.heartbeats q = some beat ∨
      ∃ j w k, s.heartbeats q = some { jobId := j, workerId := w, attemptNumber := k } ∧
        beat = { jobId := j, workerId := w, attemptNumber := k,
                 abandoned := !(JobsRepo.heartbeat s.db j w k now
                   env.settings.leaseDurationSeconds).2 } := by
  unfold World.beat at hq
  split at hq
  · rename_i j w k hbeat
    by_cases hqp : q = p
    · subst hqp
      simp only [World.setHeartbeat, Function.update_self, Option.some.injEq] at hq
      exact Or.inr ⟨j, w, k, hbeat, hq.symm⟩
    · simp only [World.setHeartbeat, Function.update_of_ne hqp] at hq
      exact Or.inl hq
  · exact Or.inl hq

/-- The heartbeat of a live attempt is accepted. -/
theorem heartbeat_of_owns {db : Db} {j : JobId} {w : WorkerId} {k : ℕ} (h : db.Owns j w k)
    (now lease : Time) : (JobsRepo.heartbeat db j w k now lease).2 = true := by
  obtain ⟨job, hj, hown⟩ := h
  rw [Option.mem_def] at hj
  simp only [JobsRepo.heartbeat, JobsRepo.updateWhere, hj, if_pos hown]

/-- **A heartbeat that is rejected finds a lost attempt.** -/
theorem Beats.beat (hb : Beats s h) (hk : Knows env s h) (p : ℕ) (now : Time) :
    Beats (s.beat env p now) h := by
  have hlost : ∀ j w k, s.Lost j w k → (s.beat env p now).Lost j w k :=
    (beat_grows env s p now).lost hk.leases
  refine ⟨fun q beat hq => ?_, fun q hq => hb.told_mono hlost (fun _ _ hd => hd) hq⟩
  obtain hold | ⟨j, w, k, hbeat, rfl⟩ := heartbeats_of_beat hq
  · exact (hb.threads q beat hold).mono hlost fun _ hd => hd
  · have hstarted := (hb.threads q _ hbeat).1
    refine ⟨hstarted, fun habandoned => hlost j w k ?_⟩
    refine hk.lost (hk.justified (.of_answered hstarted)) fun howns => ?_
    rw [heartbeat_of_owns howns] at habandoned
    cases habandoned

theorem beats_invariant (env : Env) :
    HistoryInvariant (M := platform env) (Past.Disciplined env) Beats (Knows env)
      fun _ _ _ => True where
  perform _ i _ op _ _ hk hb _ _ := hb.perform hk op i
  fault p _ _ _ h _ hb _ :=
    ⟨fun q beat hq => (hb.threads q beat hq).mono (fun _ _ _ hl => hl) (Histories.subset_add h p q _),
      fun _ hq => hb.told_mono (fun _ _ _ hl => hl) (fun r => Histories.subset_add h p r _)
        (Histories.answered_of_fault hq)⟩
  halt p _ _ _ hb := ⟨fun _ _ hq => hb.stop p hq, hb.told⟩
  ambient a _ _ hk hb := hb.beat hk a.1 a.2

/-- The live attempt of a thread has not been told that it is dead. -/
theorem not_fencedOut_of_owns (hk : Knows env s h) (hb : Beats s h) {t : Ticket}
    (ha : Past.Attempts (h p) t.jobId t.workerId t.attemptNumber)
    (howns : s.db.Owns t.jobId t.workerId t.attemptNumber) : ¬ Past.FencedOut (h p) t := by
  intro hfenced
  obtain ⟨status, setCompleted, hrefused⟩ | habandoned := hfenced
  · exact not_lost_of_owns howns (hk.told p _ _ hrefused rfl)
  · obtain ⟨j, w, k, hstarted, hlost⟩ := hb.told p habandoned
    obtain ⟨rfl, rfl, rfl⟩ := Past.Attempts.unique (hk.inOrder p)
      (hk.justified (.of_answered hstarted)) ha
    exact not_lost_of_owns howns hlost

end Heartbeats

/-! ### The endings that leave the run alone -/

/-- The job has an evaluation run. -/
def Db.Evaluates (db : Db) (j : JobId) : Prop := ∃ r ∈ db.evaluationRuns.rows, r.2.jobId = j

instance (db : Db) (j : JobId) : Decidable (db.Evaluates j) :=
  inferInstanceAs (Decidable (∃ r ∈ db.evaluationRuns.rows, r.2.jobId = j))

theorem evaluates_of_lookup {db : Db} {run : RunId} {row : EvaluationRun}
    (h : db.evaluationRuns.lookup run = some row) : db.Evaluates row.jobId :=
  ⟨(run, row), Table.mem_rows.mpr h, rfl⟩

/-- The statement does not end a job past its evaluation run: nobody cancels the job or changes its
status by hand, its last lease expires after the run has FAILED, and the run was inserted before the
job was claimed or ended. -/
def EndsWithRun (env : Env) : Op → Input → Db → Prop
  | .createEvaluationRun row, _, db =>
      ∀ job ∈ db.jobs.lookup row.jobId, job.attemptNumber = 0 ∧ ¬ job.status.Terminal
  | .transition j toStatus, _, db => db.Evaluates j →
      ∀ job ∈ db.jobs.lookup j, job.Present → job.status ∉ sourcesFor toStatus
  | .cancel j _, _, db => db.Evaluates j →
      ∀ job ∈ db.jobs.lookup j, job.Present → job.status ∉ sourcesFor JobStatus.cancelled.value
  | .finalize j w k .cancelled, _, db => db.Evaluates j → ¬ db.Owns j w k
  | .reclaim j _, i, db => db.Evaluates j →
      ∀ job ∈ db.jobs.lookup j, job.status = .running → job.LeaseExpired i.now →
        job.cancelRequested = false ∧ (env.settings.maxAttempts ≤ job.attemptNumber →
          ∀ r ∈ db.evaluationRuns.rows, r.2.jobId = j → r.2.status = .failed)
  | _, _, _ => True

def EndsWithRun.check (env : Env) (i : Input) (db : Db) : Op → Bool
  | .createEvaluationRun row =>
      ∀ job ∈ db.jobs.lookup row.jobId, job.attemptNumber = 0 ∧ ¬ job.status.Terminal
  | .transition j toStatus => db.Evaluates j →
      ∀ job ∈ db.jobs.lookup j, job.Present → job.status ∉ sourcesFor toStatus
  | .cancel j _ => db.Evaluates j →
      ∀ job ∈ db.jobs.lookup j, job.Present → job.status ∉ sourcesFor JobStatus.cancelled.value
  | .finalize j w k .cancelled => db.Evaluates j → ¬ db.Owns j w k
  | .reclaim j _ => decide (db.Evaluates j →
      ∀ job ∈ db.jobs.lookup j, job.status = .running → job.LeaseExpired i.now →
        job.cancelRequested = false ∧ (env.settings.maxAttempts ≤ job.attemptNumber →
          ∀ r ∈ db.evaluationRuns.rows, r.2.jobId = j → r.2.status = .failed))
  | _ => true

instance (env : Env) (op : Op) (i : Input) (db : Db) : Decidable (EndsWithRun env op i db) :=
  decidable_of_iff (EndsWithRun.check env i db op = true) (by
    cases op
    case createEvaluationRun | transition | cancel | reclaim => exact decide_eq_true_iff
    case finalize j w k ending =>
        cases ending <;> first | exact decide_eq_true_iff | exact iff_of_true rfl trivial
    all_goals exact iff_of_true rfl trivial)

/-! ### The run that a worker finds -/

section Worker

variable {env : Env} {p : ℕ} {s : World} {h : Pasts}

/-- **A worker that has claimed a job finds every evaluation run that the job will ever have.** -/
def Looked (s : World) (h : Pasts) : Prop :=
  ∀ p j w r, (h p).Answered (.claim j w) true → (h p).Answered (.findEvaluationRun j) r →
    ∀ run row, s.db.evaluationRuns.lookup run = some row → row.jobId = j →
      ∃ row₀, r = some (run, row₀)

/-- What `get_by_job_id` finds is all there is. -/
theorem only_of_getByJobId {db : Db} {j : JobId} {r : Option (RunId × EvaluationRun)}
    (hr : EvaluationRunsRepo.getByJobId db j = some r) {run : RunId} {row : EvaluationRun}
    (hrow : db.evaluationRuns.lookup run = some row) (hj : row.jobId = j) :
    ∃ row₀, r = some (run, row₀) := by
  have hmem : (run, row) ∈ db.evaluationRuns.rows.filter fun r => r.2.jobId = j :=
    List.mem_filter.mpr ⟨Table.mem_rows.mpr hrow, decide_eq_true hj⟩
  unfold EvaluationRunsRepo.getByJobId at hr
  split at hr
  · rename_i hnil
    rw [hnil] at hmem
    cases hmem
  · rename_i only hrows
    rw [hrows, List.mem_singleton] at hmem
    cases hr
    exact ⟨row, congrArg some hmem.symm⟩
  · cases hr

theorem Looked.perform (hl : Looked s h) (hk : Knows env s h) {op : Op}
    (hop : Past.Disciplined env (h p) op) {i : Input} (hends : EndsWithRun env op i s.db) :
    Looked (op.perform env p i s).1 (h.add p ⟨op, (op.perform env p i s).2⟩) := by
  intro q j w r hclaim hfind run row hrow hj
  obtain ⟨rfl, hnow⟩ | hclaimed := Histories.answered_add hclaim
  · -- nobody claims a job after looking for its run
    obtain ⟨rfl, _⟩ := Sigma.mk.inj_iff.mp hnow
    obtain ⟨_, hnow'⟩ | hfound := Histories.answered_add hfind
    · obtain ⟨hop', _⟩ := Sigma.mk.inj_iff.mp hnow'
      cases hop'
    · obtain hzero | hless := hop.1
      · cases hzero
      · exact absurd (hless _ hfound) (by simp [Op.rank])
  · obtain ⟨rfl, hnow⟩ | hfound := Histories.answered_add hfind
    · obtain ⟨rfl, heq⟩ := Sigma.mk.inj_iff.mp hnow
      obtain ⟨hr, hs⟩ := readOne_ok (eq_of_heq heq).symm
      rw [Op.perform, hs] at hrow
      exact only_of_getByJobId hr hrow hj
    · obtain hold | ⟨row₁, rfl, rfl⟩ | ⟨_, _, _, _, row₀, _, _, hrow₀, hsame⟩ :=
        (perform_records env p i s op).evaluationRuns hrow
      · exact hl q j w r hclaimed hfound run row hold hj
      · obtain ⟨job, hjob, hattempted⟩ := hk.told q _ _ hclaimed rfl
        have hunclaimed := (hends job (hj ▸ hjob)).1
        omega
      · exact hl q j w r hclaimed hfound run row₀ hrow₀ (hsame.1.symm.trans hj)

theorem looked_invariant (env : Env) :
    HistoryInvariant (M := platform env) (Past.Disciplined env) Looked (Knows env)
      fun op i s => EndsWithRun env op i s.db where
  perform _ _ _ _ _ _ hk hl hop hends := hl.perform hk hop hends
  fault _ _ _ _ _ _ hl _ := fun q j w r hclaim hfind =>
    hl q j w r (Histories.answered_of_fault hclaim) (Histories.answered_of_fault hfind)
  halt _ _ _ _ hl := hl
  ambient a s h _ hl := by
    intro q j w r hclaim hfind run row hrow
    refine hl q j w r hclaim hfind run row ?_
    have hframe : (s.beat env a.1 a.2).db.evaluationRuns = s.db.evaluationRuns := by
      rw [beat_frame]
    exact hframe ▸ hrow

/-- **A live attempt finds its run as it has marked it.** -/
def MarkStands (s : World) (h : Pasts) : Prop :=
  ∀ p run j w k status setCompleted,
    (h p).Answered (.markRunStatus run j w k status setCompleted) true → status ≠ .running →
      s.db.Owns j w k → ∀ row, s.db.evaluationRuns.lookup run = some row → row.status = status

/-- A live attempt that has come to an answer was live before. -/
theorem Knows.owned (hk : Knows env s h) {op : Op} {i : Input} {q : ℕ} {j : JobId} {w : WorkerId}
    {k : ℕ} (ha : Past.Attempts (h q) j w k) (howns : (op.perform env p i s).1.db.Owns j w k) :
    s.db.Owns j w k := by
  by_contra hno
  exact not_lost_of_owns howns
    ((perform_grows env p i s op).lost hk.leases _ _ _ (hk.lost ha hno))

theorem MarkStands.perform (hm : MarkStands s h) (hk : Knows env s h) {op : Op}
    (hop : Past.Disciplined env (h p) op) (i : Input) :
    MarkStands (op.perform env p i s).1 (h.add p ⟨op, (op.perform env p i s).2⟩) := by
  intro q run j w k status setCompleted hmark hstatus howns row hrow
  obtain ⟨rfl, hnow⟩ | hmarked := Histories.answered_add hmark
  · -- the mark itself
    obtain ⟨rfl, heq⟩ := Sigma.mk.inj_iff.mp hnow
    obtain ⟨db, hdb, hs⟩ := tryWrite_ok (eq_of_heq heq).symm
    obtain ⟨_, hfalse⟩ | ⟨_, _, hfalse⟩ | ⟨row₀, _, _, htrue⟩ := markStatus_cases hdb
    · cases hfalse
    · cases hfalse
    · cases htrue
      rw [Op.perform, hs, AList.lookup_insert] at hrow
      cases hrow
      rfl
  · obtain ⟨⟨run₀, hevaluates⟩, _⟩ := hk.justified (.of_answered hmarked)
    have hlive := hk.owned hevaluates.attempts howns
    obtain ⟨hj, row', hrow', hsame⟩ := hk.told q _ _ hevaluates.found run run₀ rfl
    obtain hkept | ⟨j', w', k', status', setCompleted', rfl, howns'⟩ :=
      (perform_records env p i s op).keepsRun hrow'
    · rw [show (op.perform env p i s).1.db.evaluationRuns.lookup run = some row' from hkept] at hrow
      cases hrow
      exact hm q run j w k status setCompleted hmarked hstatus hlive row hrow'
    · -- the live attempt marks its run for good only once
      obtain rfl : j = j' := hj.symm.trans (hsame.1.symm.trans (hk.jobId_of_mark hop.2 hrow'))
      obtain ⟨rfl, rfl⟩ := hlive.unique howns'
      obtain ⟨⟨_, hevaluates'⟩, _⟩ := hop.2
      obtain rfl : p = q := hk.sameThread hevaluates'.attempts hevaluates.attempts
      exact absurd hmarked (not_marked_before hop.1 hstatus)

theorem markStands_invariant (env : Env) :
    HistoryInvariant (M := platform env) (Past.Disciplined env) MarkStands (Knows env)
      fun _ _ _ => True where
  perform _ i _ _ _ _ hk hm hop _ := hm.perform hk hop i
  fault _ _ _ _ _ _ hm _ := fun q run j w k status setCompleted hmark =>
    hm q run j w k status setCompleted (Histories.answered_of_fault hmark)
  halt _ _ _ _ hm := hm
  ambient a s h _ hm := by
    intro q run j w k status setCompleted hmark hstatus howns row hrow
    refine hm q run j w k status setCompleted hmark hstatus (owns_of_beat howns) row ?_
    have hframe : (s.beat env a.1 a.2).db.evaluationRuns = s.db.evaluationRuns := by
      rw [beat_frame]
    exact hframe ▸ hrow

end Worker

/-! ### The mirror -/

/-- A job that has ended and its evaluation run have the same status. -/
def World.Mirrors (s : World) : Prop :=
  ∀ run row job, s.db.evaluationRuns.lookup run = some row →
    s.db.jobs.lookup row.jobId = some job → job.status.Terminal →
      row.status.value = job.status.value

/-- What the histories contribute to the mirror. -/
structure Followed (env : Env) (s : World) (h : Pasts) : Prop where
  knows : Knows env s h
  beats : Beats s h
  looked : Looked s h
  stands : MarkStands s h

section Mirror

variable {env : Env} {p : ℕ} {s : World} {h : Pasts}

/-- **A worker that ends the job of an evaluation has marked the run before.** -/
theorem Followed.marked (hf : Followed env s h) {j : JobId} {w : WorkerId} {k : ℕ} {ending : Ending}
    (hop : Past.Justifies env (h p) (.finalize j w k ending)) (howns : s.db.Owns j w k)
    {run : RunId} {row : EvaluationRun} (hrow : s.db.evaluationRuns.lookup run = some row)
    (hj : row.jobId = j) :
    (ending = .succeeded → row.status = .succeeded) ∧
      ∀ message classification domain, ending = .failed message classification domain →
        row.status = .failed := by
  obtain ⟨hattempts, outcome, hconcludes, hsucceeded, hfailed⟩ := hop
  have hfound : ∀ r, (h p).Answered (.findEvaluationRun j) r → ∃ row₀, r = some (run, row₀) :=
    fun r hr => hf.looked p j w r hattempts.claimed hr run row hrow hj
  have hstatus : ∀ {status}, status ≠ .running → Past.Marked (h p) ⟨j, w, k, run⟩ status →
      row.status = status := by
    rintro status hs ⟨setCompleted, hmarked⟩
    exact hf.stands p run j w k status setCompleted hmarked hs howns row hrow
  cases hconcludes with
  | @training runId trainingRun found final =>
      -- a job is created for one run
      obtain ⟨hjob, hlookup⟩ := hf.knows.told p _ _ found runId trainingRun rfl
      obtain ⟨q, htraining⟩ := hf.knows.sources.trainingRuns runId trainingRun hlookup
      obtain ⟨q', hevaluation⟩ := hf.knows.sources.evaluationRuns run row hrow
      rw [hjob] at htraining
      rw [hj] at hevaluation
      cases hf.knows.created q q' j _ _ htraining hevaluation
  | evaluation notTraining found succeeded failed =>
      obtain ⟨row₀, heq⟩ := hfound _ found
      cases heq
      refine ⟨fun he => hstatus (by decide) (succeeded (hsucceeded he)), ?_⟩
      intro message classification domain he
      obtain hmarked | hfenced := failed (hfailed message classification domain he)
      · exact hstatus (by decide) hmarked
      · exact absurd hfenced (not_fencedOut_of_owns hf.knows hf.beats hattempts howns)
  | simulated notTraining notEvaluation =>
      obtain ⟨_, heq⟩ := hfound _ notEvaluation
      cases heq

/-- The mirror after a statement that leaves the run alone. -/
theorem World.Mirrors.of_jobStep (hm : s.Mirrors) (hf : Followed env s h) {op : Op}
    (hop : Past.Disciplined env (h p) op) {i : Input} (hends : EndsWithRun env op i s.db)
    {run : RunId} {row : EvaluationRun} (hrow : s.db.evaluationRuns.lookup run = some row)
    {v v' : JobView} (hv : s.db.core.view row.jobId = some v)
    (hstep : JobStep env s.db.core i row.jobId op v v') (ht : v'.job.status.Terminal) :
    row.status.value = v'.job.status.value := by
  have hj : s.db.jobs.lookup row.jobId = some v.job := (Core.view_eq_some.mp hv).1
  have hevaluates := evaluates_of_lookup hrow
  cases hstep with
  | skip | setCancelRequested | updateConfig | softDelete | clearRetryDispatched | reserve =>
      exact hm run row v.job hrow hj ht
  | transition hto hfrom hp => exact absurd hfrom (hends hevaluates v.job hj hp)
  | cancel hfrom hp hrows => exact absurd hfrom (hends hevaluates v.job hj hp)
  | claim hs hc hdue hp hact => cases ht
  | @finalize _ w k ending _ _ hown hp hletter hrows =>
      have howns : s.db.Owns row.jobId w k := ⟨v.job, hj, hown⟩
      obtain ⟨hsucceeded, hfailed⟩ := hf.marked hop.2 howns hrow rfl
      cases ending with
      | cancelled => exact absurd howns (hends hevaluates)
      | succeeded =>
          rw [hsucceeded rfl]
          rfl
      | retry => cases ht
      | failed message classification domain =>
          rw [hfailed _ _ _ rfl]
          rfl
  | @reclaim _ t _ hs hexp hrows =>
      obtain ⟨hflag, hexhausted⟩ := hends hevaluates v.job hj hs hexp
      have hstatus : (v.job.reclaimed env.settings.maxAttempts t).status =
          if env.settings.maxAttempts ≤ v.job.attemptNumber then .failed else .queued := by
        simp only [Job.reclaimed, JobsRepo.reclaimedStatus, hflag, Bool.false_eq_true, if_false]
      simp only [hstatus] at ht ⊢
      by_cases hmax : env.settings.maxAttempts ≤ v.job.attemptNumber
      · rw [if_pos hmax, hexhausted hmax (run, row) (Table.mem_rows.mpr hrow) rfl]
        rfl
      · rw [if_neg hmax] at ht
        cases ht

/-- A job that a statement leaves alone was there before, or has just been created. -/
theorem job_of_perform {op : Op} {i : Input} {j : JobId} {job : Job}
    (hstill : ∀ v v', JobStep env s.db.core i j op v v' → v'.job = v.job)
    (hj : (op.perform env p i s).1.db.jobs.lookup j = some job) :
    s.db.jobs.lookup j = some job ∨ job.New := by
  have hviews := (perform_core env p i s op).views
  have hv' := Core.view_of_lookup (c := (op.perform env p i s).1.db.core) hj
  cases hv : s.db.core.view j with
  | none => exact Or.inr (hviews.new j _ hv hv').1
  | some v =>
      have hsame : job = v.job := hstill _ _ (hviews.moves j v _ hv hv')
      exact Or.inl (hsame ▸ (Core.view_eq_some.mp hv).1)

theorem Job.New.not_terminal {job : Job} (hn : job.New) : ¬ job.status.Terminal := by
  rw [hn.1]
  exact id

/-- **Every statement keeps the mirror.** -/
theorem World.Mirrors.perform (hm : s.Mirrors) (hf : Followed env s h) {op : Op}
    (hop : Past.Disciplined env (h p) op) {i : Input} (hends : EndsWithRun env op i s.db) :
    (op.perform env p i s).1.Mirrors := by
  intro run row job hrow hj ht
  obtain hold | ⟨row₁, rfl, rfl⟩ | ⟨j, w, k, setCompleted, row₀, rfl, howns, hrow₀, hsame⟩ :=
    (perform_records env p i s op).evaluationRuns hrow
  · have hviews := (perform_core env p i s op).views
    have hv' := Core.view_of_lookup (c := (op.perform env p i s).1.db.core) hj
    cases hv : s.db.core.view row.jobId with
    | none => exact absurd ht (hviews.new row.jobId _ hv hv').1.not_terminal
    | some v => exact hm.of_jobStep hf hop hends hold hv (hviews.moves row.jobId v _ hv hv') ht
  · obtain hold | hnew := job_of_perform (fun v v' hstep => by cases hstep; rfl) hj
    · exact absurd ht (hends job hold).2
    · exact absurd ht hnew.not_terminal
  · -- a run is marked while its job is running
    obtain hold | hnew := job_of_perform (fun v v' hstep => by cases hstep; rfl) hj
    · obtain ⟨job', hj', hown⟩ := howns
      rw [hsame.1.trans (hf.knows.jobId_of_mark hop.2 hrow₀)] at hold
      rw [Option.mem_def, hold] at hj'
      cases hj'
      rw [hown.1] at ht
      cases ht
    · exact absurd ht hnew.not_terminal

theorem mirrors_invariant (env : Env) :
    HistoryInvariant (M := platform env) (Past.Disciplined env) (fun s _ => s.Mirrors)
      (Followed env) fun op i s => EndsWithRun env op i s.db where
  perform _ _ _ _ _ _ hf hm hop hends := hm.perform hf hop hends
  fault _ _ _ _ _ _ hm _ := hm
  halt _ _ _ _ hm := hm
  ambient a s _ _ hm := by
    intro run row job hrow hj ht
    have hframe : (s.beat env a.1 a.2).db.evaluationRuns = s.db.evaluationRuns := by
      rw [beat_frame]
    have hrow' : s.db.evaluationRuns.lookup run = some row := hframe ▸ hrow
    obtain hsame | ⟨job', _, _, _, hj', hown, hmoved⟩ := beat_lookup env s a.1 a.2 row.jobId
    · exact hm run row job hrow' (hsame ▸ hj) ht
    · -- a lease is renewed while the job is running
      have heq : some _ = some job := hmoved.symm.trans hj
      cases heq
      exact hm run row job' hrow' hj' ht

end Mirror

/-! ### Every run -/

section Runs

variable {env : Env} {s : World} {es : List (SysEvent env)} {c : System env}

theorem followed_of_reaches (h : Reaches s es c)
    (hends : Runs.Always Config.step (Meets (EndsWithRun env)) ({ shared := s } : System env) es) :
    Followed env c.shared (pasts env s es) := by
  have hknows : ∀ fs m, fs <+: es →
      Runs.runFrom Config.step ({ shared := s } : System env) fs = some m →
        Knows env m.shared (pasts env s fs) := fun fs m _ hm => knows_of_reaches ⟨h.1, hm⟩
  have halways : Runs.Always Config.step (Config.AtStep fun _ _ _ => True)
      ({ shared := s } : System env) es :=
    Runs.always_of_forall (Config.atStep_of_forall fun _ _ _ => trivial) _ es
  refine ⟨knows_of_reaches h, ?_, ?_, ?_⟩
  · refine (beats_invariant env).run (disciplined_program env) ⟨fun p hb hp => ?_, fun _ ha => ?_⟩
      hknows halways h.2
    · rw [h.1.rest] at hp
      cases hp
    · cases ha
  · exact (looked_invariant env).run (disciplined_program env)
      (fun _ _ _ _ ha => by cases ha) hknows hends h.2
  · exact (markStands_invariant env).run (disciplined_program env)
      (fun _ _ _ _ _ _ _ ha => by cases ha) hknows halways h.2

/-- **Where no job ends past its evaluation run, the run mirrors the job**: in every state that is
reached, the run of a job that has ended has the same status. -/
theorem evaluation_run_mirrors_job (h : Reaches s es c)
    (hends : Runs.Always Config.step (Meets (EndsWithRun env)) ({ shared := s } : System env) es) :
    ∀ run row job, c.shared.db.evaluationRuns.lookup run = some row →
      c.shared.db.jobs.lookup row.jobId = some job → job.status.Terminal →
        row.status.value = job.status.value := by
  refine (mirrors_invariant env).run (disciplined_program env) (fun run row job hrow => ?_) ?_ hends
    h.2
  · rw [h.1.db] at hrow
    cases hrow
  · rintro fs m ⟨gs, rfl⟩ hm
    exact followed_of_reaches ⟨h.1, hm⟩ (Runs.always_append hm hends).1

end Runs

/-- A run of the platform in which an evaluation succeeds. -/
def evaluatedJob : List (SysEvent Env.standard) :=
  session 0 (.createEvaluation evaluationPayload) 6 { uuid := 1 } ++
    session 1 .schedulerRunOnce 8 {} ++ session 2 (.processJobMessage 1 7) 24 finalLine

/-- The job of `evaluatedJob` and its run have both succeeded. -/
theorem evaluated_job_mirrored : ∃ c : System Env.standard, Reaches evaluationStart evaluatedJob c ∧
    ∃ row job, c.shared.db.evaluationRuns.lookup 1 = some row ∧
      c.shared.db.jobs.lookup row.jobId = some job ∧ job.status = .succeeded ∧
        row.status.value = job.status.value := by
  obtain ⟨c, hc, row, hrow, job, hj, hs⟩ := exists_reaches evaluationStart_initial evaluatedJob
    (P := fun c : System .standard => ∃ row ∈ c.shared.db.evaluationRuns.lookup 1,
      ∃ job ∈ c.shared.db.jobs.lookup row.jobId, job.status = .succeeded) (by decide +kernel)
  have hmirror := evaluation_run_mirrors_job hc (by decide +kernel) 1 row job hrow hj
  exact ⟨c, hc, row, job, hrow, hj, hs, hmirror (by rw [hs]; trivial)⟩

/-- An evaluation is cancelled while it waits. -/
def cancelledWhileQueued : List (SysEvent Env.standard) :=
  session 0 (.createEvaluation evaluationPayload) 6 { uuid := 1 } ++ session 1 (.cancelJob 1) 2 {}

/-- An evaluation is cancelled between its success and the end of its job. -/
def cancelledAfterSuccess : List (SysEvent Env.standard) :=
  markedAndCrashed ++ session 3 (.cancelJob 1) 3 {} ++ session 4 .recoveryRunOnce 4 { now := 100 }

/-- **The run of a cancelled job is not cancelled**: it stays QUEUED or even reads SUCCEEDED. -/
theorem cancelled_job_not_mirrored :
    (∃ c : System Env.standard, Reaches evaluationStart cancelledWhileQueued c ∧
      ∃ row ∈ c.shared.db.evaluationRuns.lookup 1, row.status = .queued ∧
        ∃ job ∈ c.shared.db.jobs.lookup row.jobId, job.status = .cancelled) ∧
    ∃ c : System Env.standard, Reaches evaluationStart cancelledAfterSuccess c ∧
      ∃ row ∈ c.shared.db.evaluationRuns.lookup 1, row.status = .succeeded ∧
        ∃ job ∈ c.shared.db.jobs.lookup row.jobId, job.status = .cancelled :=
  ⟨exists_reaches evaluationStart_initial _ (by decide +kernel),
    exists_reaches evaluationStart_initial _ (by decide +kernel)⟩

end PosttrainPlatform
