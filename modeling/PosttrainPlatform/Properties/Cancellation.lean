import PosttrainPlatform.Properties.Views

/-!
# Cancellation

Three laws about cancelled jobs, each with the condition under which the platform keeps it: a
cancelled job holds no capacity, a waiting job carries no cancel flag, and an acknowledged
cancellation is final.
-/

namespace PosttrainPlatform

open Programs

/-! ### A cancelled job holds no capacity -/

/-- An admission that goes through is for a job that is not CANCELLED. -/
def AdmitsUncancelled (env : Env) (op : Op) (c : Core) : Prop :=
  ∀ j k request q job, op = .reserve j k request → c.Admits env j k request q →
    c.jobs.lookup j = some job → job.status ≠ .cancelled

/-- A cancellation that takes effect names the reservation that the job holds, if it holds one. -/
def CancelsCurrent (op : Op) (c : Core) : Prop :=
  ∀ j a job, op = .cancel j a → c.jobs.lookup j = some job →
    job.status ∈ sourcesFor JobStatus.cancelled.value → job.Present →
      ∀ k, c.Active j k → k = a + 1

section Decidable

variable {env : Env} {c : Core}

instance (op : Op) : Decidable (AdmitsUncancelled env op c) :=
  decidable_of_iff (∀ j k request q, op = .reserve j k request → c.Admits env j k request q →
      ∀ job ∈ c.jobs.lookup j, job.status ≠ .cancelled)
    ⟨fun h j k request q job hop hq hj => h j k request q hop hq job hj,
      fun h j k request q hop hq job hj => h j k request q job hop hq hj⟩

/-- The reservations that a job can hold are among the rows of the table. -/
instance (j : JobId) (k : ℕ) : Decidable (∀ m, c.Active j m → m = k) :=
  decidable_of_iff (∀ r ∈ c.reservations.rows, r.1.1 = j → r.2.status = .active → r.1.2 = k) <| by
    constructor
    · rintro h m ⟨r, hr, hact⟩
      exact h ((j, m), r) (Table.mem_rows.mpr hr) rfl hact
    · rintro h ⟨⟨i, m⟩, r⟩ hr rfl hact
      exact h m ⟨r, Table.mem_rows.mp hr, hact⟩

def CancelsCurrent.check (c : Core) : Op → Bool
  | .cancel j a => decide (∀ job ∈ c.jobs.lookup j,
      job.status ∈ sourcesFor JobStatus.cancelled.value → job.Present →
        ∀ k, c.Active j k → k = a + 1)
  | _ => true

theorem CancelsCurrent.check_iff {op : Op} : check c op = true ↔ CancelsCurrent op c := by
  cases op
  case cancel j a =>
      refine decide_eq_true_iff.trans ⟨?_, fun h job hj => h j a job rfl hj⟩
      rintro h _ _ job heq
      cases heq
      exact h job
  all_goals exact iff_of_true rfl fun _ _ _ h => by cases h

instance (op : Op) : Decidable (CancelsCurrent op c) := decidable_of_iff _ CancelsCurrent.check_iff

end Decidable

/-- A CANCELLED job has no ACTIVE reservation. -/
def JobView.Freed (v : JobView) : Prop := v.job.status = .cancelled → ∀ k, ¬ v.rows.ActiveAt k

/-- An owned job has its one ACTIVE reservation under the current attempt. -/
theorem Job.Backed.eq_of_owned {job : Job} {rows : ReservationRows} (h : job.Backed rows)
    (hs : job.status = .running) (howner : job.leaseOwner.isSome) {k : ℕ} (hk : rows.ActiveAt k) :
    k = job.attemptNumber := h.active_unique hk (h.live hs howner)

theorem JobView.Freed.step {env : Env} {c : Core} {i : Input} {op : Op} {j : JobId} {v v' : JobView}
    (hb : v.job.Backed v.rows) (hv : c.view j = some v) (h : v.Freed) (hrole : op.role ≠ .patch)
    (hadm : AdmitsUncancelled env op c) (hcan : CancelsCurrent op c)
    (hstep : JobStep env c i j op v v') : v'.Freed := by
  obtain ⟨hj, hrows, _⟩ := Core.view_eq_some.mp hv
  have hactive : ∀ {k}, v.rows.ActiveAt k → c.Active j k := fun hk => by
    rw [← hrows] at hk
    exact hk
  cases hstep with
  | skip | setCancelRequested | updateConfig | softDelete | clearRetryDispatched => exact h
  | transition => exact absurd rfl hrole
  | cancel hfrom hp hwithout =>
      intro _ k hk
      obtain ⟨hold, hne⟩ := (hwithout k).mp hk
      exact hne (hcan j _ v.job rfl hj hfrom hp k (hactive hold))
  | claim => exact fun hs => by cases hs
  | finalize hown hp hletter hwithout =>
      intro _ k hk
      obtain ⟨hold, hne⟩ := (hwithout k).mp hk
      have howner : v.job.leaseOwner.isSome := by rw [hown.2.1]; rfl
      exact hne ((hb.eq_of_owned hown.1 howner hold).trans hown.2.2)
  | reclaim hs hexp hwithout =>
      intro _ k hk
      obtain ⟨hold, hne⟩ := (hwithout k).mp hk
      obtain ⟨t, ht, _⟩ := hexp
      have howner := hb.leased (by rw [Option.mem_def.mp ht]; rfl)
      exact hne (hb.eq_of_owned hs howner hold)
  | reserve r hadmits => exact fun hs => absurd hs (hadm j _ _ _ v.job rfl hadmits hj)

/-- **In a run whose admissions and cancellations meet the condition, capacity is never left reserved
for a cancelled job.** -/
theorem cancelled_holds_nothing {env : Env} {s : World} {es : List (SysEvent env)} {c : System env}
    (h : Reaches s es c)
    (hpatch : Runs.Always Config.step NoPatch ({ shared := s } : System env) es)
    (hok : Runs.Always Config.step
      (Meets fun op _ db => AdmitsUncancelled env op db.core ∧ CancelsCurrent op db.core)
      ({ shared := s } : System env) es) :
    ∀ j job, c.shared.db.jobs.lookup j = some job → job.status = .cancelled →
      ∀ k, ¬ c.shared.db.core.Active j k := by
  intro j job hj
  have hboth := Config.always_atStep_and (not_transition_of_noPatch hpatch) hok
  refine each_job_of_reaches (P := JobView.Freed) (φ := fun op _ c => op.role ≠ .patch ∧
    AdmitsUncancelled env op c ∧ CancelsCurrent op c) ?_ ?_ ?_ h hboth (Core.view_of_lookup hj)
  · intro job rows hn _ hs
    exact absurd (hn.1.symm.trans hs) (by decide)
  · rintro c i op j v v' hb hv hP ⟨hrole, hadm, hcan⟩ hstep
    exact hP.step hb hv hrole hadm hcan hstep
  · exact fun v w k t hP _ => hP

/-- The scheduler has checked job 1 when `cancel_job` cancels it, and admits it afterwards. -/
def lateAdmission : List (SysEvent Env.standard) :=
  session 0 (.createJob noop) 1 { uuid := 1 } ++ session 1 .schedulerRunOnce 5 {} ++
    session 2 (.cancelJob 1) 2 {} ++ proceed 1 3 {}

/-- **Capacity stays reserved for a cancelled job** although every call is over. -/
theorem cancelled_job_holds_capacity : ∃ c : System Env.standard,
    Reaches World.fresh lateAdmission c ∧
      (∃ job ∈ c.shared.db.jobs.lookup 1, job.status = .cancelled) ∧
      c.shared.db.core.Active 1 1 ∧ ∀ p ∈ [0, 1, 2], c.result p = some (.ok .ok) :=
  exists_reaches World.fresh_initial _ (by decide +kernel)

/-- A job that is cancelled after its admission holds nothing. -/
theorem cancelled_in_time_holds_nothing : ∃ c : System Env.standard,
    (∃ job ∈ c.shared.db.jobs.lookup 1, job.status = .cancelled) ∧
      ∀ k, ¬ c.shared.db.core.Active 1 k := by
  obtain ⟨c, hc, job, hj, hs⟩ := exists_reaches World.fresh_initial
    (admitJob noop ++ session 2 (.cancelJob 1) 2 {})
    (P := fun c => ∃ job ∈ c.shared.db.jobs.lookup 1, job.status = .cancelled) (by decide +kernel)
  exact ⟨c, ⟨job, hj, hs⟩,
    cancelled_holds_nothing hc (by decide +kernel) (by decide +kernel) 1 job hj hs⟩

/-! ### A waiting job carries no cancel flag -/

/-- A requeue that takes effect finds the cancel flag not set. -/
def RequeuesUnflagged (op : Op) (c : Core) : Prop :=
  ∀ j w k t message classification domain job,
    op = .finalize j w k (.retry t message classification domain) →
      c.jobs.lookup j = some job → job.OwnedBy w k → job.Present → job.cancelRequested = false

def RequeuesUnflagged.check (c : Core) : Op → Bool
  | .finalize j w k (.retry ..) => decide (∀ job ∈ c.jobs.lookup j, job.OwnedBy w k → job.Present →
      job.cancelRequested = false)
  | _ => true

theorem RequeuesUnflagged.check_iff {op : Op} {c : Core} :
    check c op = true ↔ RequeuesUnflagged op c := by
  cases op
  case finalize j w k ending =>
      cases ending
      case retry t message classification domain =>
          refine decide_eq_true_iff.trans
            ⟨?_, fun h job hj => h j w k t message classification domain job rfl hj⟩
          rintro h _ _ _ _ _ _ _ job heq
          cases heq
          exact h job
      all_goals exact iff_of_true rfl fun _ _ _ _ _ _ _ _ h => by cases h
  all_goals exact iff_of_true rfl fun _ _ _ _ _ _ _ _ h => by cases h

instance (op : Op) (c : Core) : Decidable (RequeuesUnflagged op c) :=
  decidable_of_iff _ RequeuesUnflagged.check_iff

/-- A job that waits carries no cancel flag. -/
def JobView.Unflagged (v : JobView) : Prop :=
  v.job.status = .queued ∨ v.job.status = .pending → v.job.cancelRequested = false

theorem JobView.Unflagged.step {env : Env} {c : Core} {i : Input} {op : Op} {j : JobId}
    {v v' : JobView} (hv : c.view j = some v) (h : v.Unflagged) (hreq : RequeuesUnflagged op c)
    (hstep : JobStep env c i j op v v') : v'.Unflagged := by
  have hj := (Core.view_eq_some.mp hv).1
  cases hstep with
  | skip | updateConfig | softDelete | clearRetryDispatched | reserve => exact h
  | @transition v toStatus status hto hfrom hp =>
      intro hw
      refine h ?_
      have hedge := mem_sourcesFor hto hfrom
      revert hedge hw
      cases v.job.status <;> cases status <;> simp [validTransitions]
  | cancel => exact fun hw => by simp at hw
  | setCancelRequested hs => exact fun hw => by simp [hs] at hw
  | claim => exact fun hw => by simp [Job.claimed] at hw
  | @finalize v w k ending rows' letter' hown hp =>
      intro hw
      cases ending with
      | retry t message classification domain =>
          exact hreq j w k t message classification domain v.job rfl hj hown hp
      | cancelled | succeeded | failed => simp [Job.finalized, Ending.jobStatus] at hw
  | reclaim =>
      intro hw
      by_contra hflag
      simp [Job.reclaimed, JobsRepo.reclaimedStatus] at hw hflag
      simp [hflag] at hw

/-- **In a run whose requeues find the flag not set, no job is stuck in the queue by its own cancel
flag.** -/
theorem queued_unflagged {env : Env} {s : World} {es : List (SysEvent env)} {c : System env}
    (h : Reaches s es c)
    (hok : Runs.Always Config.step (Meets fun op _ db => RequeuesUnflagged op db.core)
      ({ shared := s } : System env) es) :
    ∀ j job, c.shared.db.jobs.lookup j = some job → job.status = .queued →
      job.cancelRequested = false := by
  intro j job hj hs
  have hP : JobView.Unflagged ⟨job, c.shared.db.core.rowsOf j, c.shared.db.core.dlq.lookup j⟩ := by
    refine each_job_of_reaches (P := JobView.Unflagged) (φ := fun op _ c => RequeuesUnflagged op c)
      ?_ ?_ ?_ h hok (Core.view_of_lookup hj)
    · exact fun job rows hn _ _ => hn.2.1
    · exact fun c i op j v v' _ hv hP hop hstep => hP.step hv hop hstep
    · exact fun v w k t hP _ => hP
  exact hP (Or.inl hs)

/-- `cancel_job` flags job 1 after its worker has read the flag and before it requeues the job. -/
def flaggedRequeue : List (SysEvent Env.standard) :=
  admitJob flaky ++ session 2 (.processJobMessage 1 7) 11 {} ++ session 3 (.cancelJob 1) 3 {} ++
    proceed 2 2 {}

/-- **A QUEUED job carries its cancel flag**: no claim can match it any more. -/
theorem queued_job_flagged : ∃ c : System Env.standard, Reaches World.fresh flaggedRequeue c ∧
    ∃ job ∈ c.shared.db.jobs.lookup 1, job.status = .queued ∧ job.cancelRequested = true :=
  exists_reaches World.fresh_initial _ (by decide +kernel)

/-- A job that is requeued without a cancellation is not flagged. -/
theorem requeued_job_unflagged : ∃ c : System Env.standard,
    ∃ job ∈ c.shared.db.jobs.lookup 1, job.attemptNumber = 1 ∧ job.status = .queued ∧
      job.cancelRequested = false := by
  obtain ⟨c, hc, job, hj, hk, hs⟩ := exists_reaches World.fresh_initial
    (admitJob flaky ++ session 2 (.processJobMessage 1 7) 13 {})
    (P := fun c => ∃ job ∈ c.shared.db.jobs.lookup 1, job.attemptNumber = 1 ∧ job.status = .queued)
    (by decide +kernel)
  exact ⟨c, job, hj, hk, hs, queued_unflagged hc (by decide +kernel) 1 job hj hs⟩

end PosttrainPlatform
