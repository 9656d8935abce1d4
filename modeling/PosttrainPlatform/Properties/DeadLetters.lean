import PosttrainPlatform.Properties.Views

/-!
# Terminal failures and dead letters

The worker writes the dead letter of a job in the transaction that makes it FAILED.  Recovery makes a
job FAILED as well, when the last allowed attempt is lost, and writes no letter.
-/

namespace PosttrainPlatform

open Programs

/-- A reclamation that takes effect does not fail the job: it is flagged, or has attempts left. -/
def ReclaimsRetryable (env : Env) (op : Op) (i : Input) (c : Core) : Prop :=
  ∀ j t job, op = .reclaim j t → c.jobs.lookup j = some job → job.status = .running →
    job.LeaseExpired i.now →
      job.cancelRequested = true ∨ job.attemptNumber < env.settings.maxAttempts

def ReclaimsRetryable.check (env : Env) (i : Input) (c : Core) : Op → Bool
  | .reclaim j _ => decide (∀ job ∈ c.jobs.lookup j, job.status = .running → job.LeaseExpired i.now →
      job.cancelRequested = true ∨ job.attemptNumber < env.settings.maxAttempts)
  | _ => true

theorem ReclaimsRetryable.check_iff {env : Env} {op : Op} {i : Input} {c : Core} :
    check env i c op = true ↔ ReclaimsRetryable env op i c := by
  cases op
  case reclaim j t =>
      refine decide_eq_true_iff.trans ⟨?_, fun h job hj => h j t job rfl hj⟩
      rintro h _ _ job heq
      cases heq
      exact h job
  all_goals exact iff_of_true rfl fun _ _ _ h => by cases h

instance (env : Env) (op : Op) (i : Input) (c : Core) : Decidable (ReclaimsRetryable env op i c) :=
  decidable_of_iff _ ReclaimsRetryable.check_iff

/-- A job is FAILED exactly if it has a letter, and the letter tells its attempts. -/
def JobView.Lettered (v : JobView) : Prop :=
  (v.job.status = .failed ↔ v.letter.isSome) ∧
    ∀ row ∈ v.letter, row.lastAttemptNumber = v.job.attemptNumber ∧
      row.totalAttempts = v.job.attemptNumber

theorem JobView.Lettered.letter_none {v : JobView} (h : v.Lettered) (hs : v.job.status ≠ .failed) :
    v.letter = none := by
  cases hl : v.letter with
  | none => rfl
  | some row => exact absurd (h.1.mpr (by rw [hl]; rfl)) hs

/-- Neither FAILED nor with a letter. -/
theorem JobView.Lettered.of_none {v : JobView} (hs : v.job.status ≠ .failed)
    (hl : v.letter = none) : v.Lettered := by
  refine ⟨iff_of_false hs (by simp [hl]), fun row hrow => ?_⟩
  rw [hl] at hrow
  cases hrow

theorem JobView.Lettered.step {env : Env} {c : Core} {i : Input} {op : Op} {j : JobId}
    {v v' : JobView} (hv : c.view j = some v) (h : v.Lettered) (hrole : op.role ≠ .patch)
    (hrec : ReclaimsRetryable env op i c) (hstep : JobStep env c i j op v v') : v'.Lettered := by
  have hj := (Core.view_eq_some.mp hv).1
  cases hstep with
  | skip | setCancelRequested | updateConfig | softDelete | clearRetryDispatched | reserve => exact h
  | transition => exact absurd rfl hrole
  | cancel hfrom =>
      refine .of_none (by simp) (h.letter_none fun hf => ?_)
      rw [hf] at hfrom
      revert hfrom
      decide
  | claim hs => exact .of_none (by simp [Job.claimed]) (h.letter_none (by simp [hs]))
  | @finalize v w k ending rows' letter' hown hp hletter hrows =>
      have hnone := h.letter_none (by simp [hown.1])
      cases ending with
      | failed message classification domain =>
          obtain ⟨_, row, hlast, htotal, rfl⟩ := hletter
          refine ⟨iff_of_true rfl rfl, fun r hr => ?_⟩
          cases hr
          exact ⟨hlast.trans hown.2.2.symm, htotal.trans hown.2.2.symm⟩
      | cancelled | succeeded | retry =>
          exact .of_none (by simp [Job.finalized, Ending.jobStatus]) (hletter.trans hnone)
  | @reclaim v t rows' hs hexp hrows =>
      have hretry := hrec j t v.job rfl hj hs hexp
      refine .of_none ?_ (h.letter_none (by simp [hs]))
      simp only [Job.reclaimed, JobsRepo.reclaimedStatus]
      split
      · simp
      · rename_i hflag
        rw [if_neg (not_le.mpr (hretry.resolve_left hflag))]
        simp

/-- **In a run whose reclamations fail no job, a job is FAILED exactly if it has a dead letter**, and
the letter tells how many attempts it had. -/
theorem failed_iff_letter {env : Env} {s : World} {es : List (SysEvent env)} {c : System env}
    (h : Reaches s es c)
    (hpatch : Runs.Always Config.step NoPatch ({ shared := s } : System env) es)
    (hok : Runs.Always Config.step (Meets fun op i db => ReclaimsRetryable env op i db.core)
      ({ shared := s } : System env) es) :
    ∀ j job, c.shared.db.jobs.lookup j = some job →
      (job.status = .failed ↔ (c.shared.db.dlq.lookup j).isSome) ∧
        ∀ row ∈ c.shared.db.dlq.lookup j, row.lastAttemptNumber = job.attemptNumber ∧
          row.totalAttempts = job.attemptNumber := by
  intro j job hj
  have hboth := Config.always_atStep_and (not_transition_of_noPatch hpatch) hok
  refine each_job_of_reaches (P := JobView.Lettered) (φ := fun op i c => op.role ≠ .patch ∧
    ReclaimsRetryable env op i c) ?_ ?_ ?_ h hboth (Core.view_of_lookup hj)
  · intro job rows hn _
    exact .of_none (by simp [hn.1]) rfl
  · rintro c i op j v v' _ hv hP ⟨hrole, hrec⟩ hstep
    exact hP.step hv hrole hrec hstep
  · exact fun v w k t hP _ => hP

/-- Job 1 is admitted and claimed, its worker dies, and recovery takes it back. -/
def attemptLost (p : ℕ) (now : Time) : List (SysEvent Env.standard) :=
  session p .schedulerRunOnce 8 { now } ++ session (p + 1) (.processJobMessage 1 7) 1 { now } ++
    [.crash (p + 1)] ++ session (p + 2) .recoveryRunOnce 4 { now := now + 100 }

/-- All the three attempts of job 1 are lost. -/
def attemptsLost : List (SysEvent Env.standard) :=
  session 0 (.createJob noop) 1 { uuid := 1 } ++ attemptLost 1 0 ++ attemptLost 4 200 ++
    attemptLost 7 400

/-- **A FAILED job without a dead letter.** -/
theorem lost_job_without_letter : ∃ c : System Env.standard, Reaches World.fresh attemptsLost c ∧
    (∃ job ∈ c.shared.db.jobs.lookup 1, job.status = .failed) ∧
      (c.shared.db.dlq.lookup 1).isNone :=
  exists_reaches World.fresh_initial _ (by decide +kernel)

/-- A job that fails in its worker has its letter. -/
theorem failed_job_has_letter : ∃ c : System Env.standard,
    (∃ job ∈ c.shared.db.jobs.lookup 1, job.status = .failed) ∧
      (c.shared.db.dlq.lookup 1).isSome := by
  obtain ⟨c, hc, job, hj, hs⟩ := exists_reaches World.fresh_initial
    (admitJob broken ++ session 2 (.processJobMessage 1 7) 12 {})
    (P := fun c => ∃ job ∈ c.shared.db.jobs.lookup 1, job.status = .failed) (by decide +kernel)
  refine ⟨c, ⟨job, hj, hs⟩, ?_⟩
  exact (failed_iff_letter hc (by decide +kernel) (by decide +kernel) 1 job hj).1.mp hs

end PosttrainPlatform
