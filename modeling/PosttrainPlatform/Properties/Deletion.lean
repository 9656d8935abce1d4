import PosttrainPlatform.Properties.Views

/-!
# Soft-deleted jobs

`soft_delete` takes any job, but finalisation and the listing of stale leases only see jobs that are
not deleted.  A job that is deleted while it holds a reservation is stranded; a job that is not lets
everything behind it be finished or reclaimed.
-/

namespace PosttrainPlatform

open Programs

/-! ### Runs that strand nothing -/

/-- A deletion finds no ACTIVE reservation. -/
def DeletesUnreserved (op : Op) (c : Core) : Prop := ∀ j, op = .softDelete j → ∀ k, ¬ c.Active j k

/-- An admission that goes through is for a job that is not deleted. -/
def AdmitsPresent (env : Env) (op : Op) (c : Core) : Prop :=
  ∀ j k request q job, op = .reserve j k request → c.Admits env j k request q →
    c.jobs.lookup j = some job → job.Present

instance (c : Core) (j : JobId) : Decidable (∀ k, ¬ c.Active j k) :=
  decidable_of_iff (∀ r ∈ c.reservations.rows, r.1.1 = j → r.2.status ≠ .active) <| by
    constructor
    · rintro h m ⟨r, hr, hact⟩
      exact h ((j, m), r) (Table.mem_rows.mpr hr) rfl hact
    · rintro h ⟨⟨i, m⟩, r⟩ hr rfl hact
      exact h m ⟨r, Table.mem_rows.mp hr, hact⟩

def DeletesUnreserved.check (c : Core) : Op → Bool
  | .softDelete j => decide (∀ k, ¬ c.Active j k)
  | _ => true

theorem DeletesUnreserved.check_iff {op : Op} {c : Core} :
    check c op = true ↔ DeletesUnreserved op c := by
  cases op
  case softDelete j =>
      refine decide_eq_true_iff.trans ⟨?_, fun h => h j rfl⟩
      rintro h _ heq
      cases heq
      exact h
  all_goals exact iff_of_true rfl fun _ h => by cases h

instance (op : Op) (c : Core) : Decidable (DeletesUnreserved op c) :=
  decidable_of_iff _ DeletesUnreserved.check_iff

instance (env : Env) (op : Op) (c : Core) : Decidable (AdmitsPresent env op c) :=
  decidable_of_iff (∀ j k request q, op = .reserve j k request → c.Admits env j k request q →
      ∀ job ∈ c.jobs.lookup j, job.Present)
    ⟨fun h j k request q job hop hq hj => h j k request q hop hq job hj,
      fun h j k request q hop hq job hj => h j k request q job hop hq hj⟩

/-- A deleted job has no ACTIVE reservation. -/
def JobView.Unstranded (v : JobView) : Prop := ¬ v.job.Present → ∀ k, ¬ v.rows.ActiveAt k

theorem JobView.Unstranded.step {env : Env} {c : Core} {i : Input} {op : Op} {j : JobId}
    {v v' : JobView} (hv : c.view j = some v) (h : v.Unstranded) (hdel : DeletesUnreserved op c)
    (hadm : AdmitsPresent env op c) (hstep : JobStep env c i j op v v') : v'.Unstranded := by
  obtain ⟨hj, hrows, _⟩ := Core.view_eq_some.mp hv
  cases hstep with
  | skip | transition | setCancelRequested | updateConfig | clearRetryDispatched | claim => exact h
  | cancel hfrom hp hwithout => exact fun hd => absurd hp hd
  | softDelete =>
      intro _ k hk
      refine hdel j rfl k ?_
      rw [← hrows] at hk
      exact hk
  | finalize hown hp hletter hwithout => exact fun hd => absurd hp hd
  | reclaim hs hexp hwithout => exact fun hd k hk => h hd k ((hwithout k).mp hk).1
  | reserve r hadmits => exact fun hd => absurd (hadm j _ _ _ v.job rfl hadmits hj) hd

/-- Nothing is stranded: a deleted job holds no ACTIVE reservation, a finalisation whose fencing
check passes finds the job and is not rolled back, and an expired RUNNING job is listed as stale. -/
structure NothingStranded (env : Env) (db : Db) : Prop where
  deleted : ∀ j job, db.jobs.lookup j = some job → ¬ job.Present → ∀ k, ¬ db.core.Active j k
  found : ∀ j w k status t, (JobsRepo.finalizeAttempt db j w k status t).2 = true →
    (JobsRepo.get (JobsRepo.finalizeAttempt db j w k status t).1 j).isSome
  committed : ∀ j w k ending now db' b, db.Owns j w k →
    finalizeTx env db j w k ending now = some (db', b) → b = true
  listed : ∀ j job now, db.jobs.lookup j = some job → job.status = .running →
    job.LeaseExpired now → (j, job) ∈ JobsRepo.listStaleLeases db now

/-- A finalised row is found again when the row it comes from was present. -/
theorem get_finalizeAttempt {db : Db} {j : JobId} {w : WorkerId} {k : ℕ} {status : JobStatus}
    {t : Option Time} (hpresent : ∀ job, db.jobs.lookup j = some job → job.OwnedBy w k → job.Present)
    (h : (JobsRepo.finalizeAttempt db j w k status t).2 = true) :
    (JobsRepo.get (JobsRepo.finalizeAttempt db j w k status t).1 j).isSome := by
  generalize hr : JobsRepo.finalizeAttempt db j w k status t = r at h
  obtain rfl | ⟨job, hj, hown, rfl⟩ := JobsRepo.updateWhere_cases hr
  · cases h
  · have hp : job.deletedAt = none := hpresent job hj hown
    unfold JobsRepo.get
    simp only [Table.lookup_insert_eq, if_true]
    rw [Option.filter_some, if_pos (by simp [Job.Present, hp])]
    rfl

theorem nothingStranded_of {env : Env} {db : Db} (hb : db.core.Backed)
    (hdel : ∀ j job, db.jobs.lookup j = some job → ¬ job.Present → ∀ k, ¬ db.core.Active j k) :
    NothingStranded env db := by
  have hlive : ∀ j job, db.jobs.lookup j = some job → job.status = .running →
      job.leaseOwner.isSome → job.Present := by
    intro j job hj hs howner
    by_contra hd
    exact hdel j job hj hd _ ((hb.job j job hj).live hs howner)
  have howned : ∀ j w k job, db.jobs.lookup j = some job → job.OwnedBy w k → job.Present := by
    intro j w k job hj hown
    exact hlive j job hj hown.1 (by rw [hown.2.1]; rfl)
  refine ⟨hdel, fun j w k status t => get_finalizeAttempt (howned j w k), ?_, ?_⟩
  · rintro j w k ending now db' b ⟨job, hj, hown⟩ htx
    have hmatched : (JobsRepo.finalizeAttempt db j w k ending.jobStatus ending.nextRetryAt?).2 =
        true := by
      unfold JobsRepo.finalizeAttempt JobsRepo.updateWhere
      rw [Option.mem_def.mp hj]
      simp only [hown, if_true]
    have hget := get_finalizeAttempt (howned j w k) hmatched
    unfold finalizeTx at htx
    simp only at htx
    split at htx
    · cases htx
    rename_i db₁ hfin
    have hframe := AttemptsRepo.finalize_frame hfin
    have hfound : (JobsRepo.get db₁ j).isSome := by
      rw [hframe]
      exact hget
    rw [if_pos ⟨hmatched, hfound⟩] at htx
    split at htx
    · cases htx
    obtain ⟨db₃, _, heq⟩ := Option.map_eq_some_iff.mp htx
    cases heq
    rfl
  · intro j job now hj hs hexp
    have howner : job.leaseOwner.isSome := by
      obtain ⟨t, ht, _⟩ := hexp
      exact (hb.job j job hj).leased (by rw [Option.mem_def.mp ht]; rfl)
    refine List.mem_filter.mpr ⟨Table.mem_rows.mpr hj, ?_⟩
    exact decide_eq_true ⟨hs, hexp, hlive j job hj hs howner⟩

/-- **In a run that deletes only jobs without an ACTIVE reservation, and admits no deleted ones,
nothing is ever stranded.** -/
theorem deleted_jobs_strand_nothing {env : Env} {s : World} {es : List (SysEvent env)}
    {c : System env} (h : Reaches s es c)
    (hok : Runs.Always Config.step
      (Meets fun op _ db => DeletesUnreserved op db.core ∧ AdmitsPresent env op db.core)
      ({ shared := s } : System env) es) : NothingStranded env c.shared.db := by
  refine nothingStranded_of (backed_of_reaches h) fun j job hj => ?_
  refine each_job_of_reaches (P := JobView.Unstranded) (φ := fun op _ c =>
    DeletesUnreserved op c ∧ AdmitsPresent env op c) ?_ ?_ ?_ h hok (Core.view_of_lookup hj)
  · intro job rows hn _ hd
    exact absurd hn.2.2.2.2.2.2 hd
  · rintro c i op j v v' _ hv hP ⟨hdel, hadm⟩ hstep
    exact hP.step hv hdel hadm hstep
  · exact fun v w k t hP _ => hP

/-! ### A stranded job -/

/-- A deleted job that is not RUNNING, with an ACTIVE reservation. -/
def Core.Stranded (c : Core) (j : JobId) (k : ℕ) : Prop :=
  ∃ v, c.view j = some v ∧ ¬ v.job.Present ∧ v.job.status ≠ .running ∧ v.rows.ActiveAt k

theorem JobStep.stranded {env : Env} {c : Core} {i : Input} {op : Op} {j : JobId} {k : ℕ}
    {v v' : JobView} (hv : c.view j = some v) (hd : ¬ v.job.Present) (hs : v.job.status ≠ .running)
    (hk : v.rows.ActiveAt k) (h : JobStep env c i j op v v') :
    ¬ v'.job.Present ∧ v'.job.status ≠ .running ∧ v'.rows.ActiveAt k := by
  cases h with
  | skip | updateConfig | clearRetryDispatched => exact ⟨hd, hs, hk⟩
  | transition hto hfrom hp => exact absurd hp hd
  | cancel hfrom hp => exact absurd hp hd
  | setCancelRequested hr => exact absurd hr hs
  | softDelete => exact ⟨by simp [Job.Present], hs, hk⟩
  | claim hq hc hdue hp => exact absurd hp hd
  | finalize hown => exact absurd hown.1 hs
  | reclaim hr => exact absurd hr hs
  | @reserve v k' request q r hadm =>
      refine ⟨hd, hs, ?_⟩
      have hne : k ≠ k' := by
        rintro rfl
        obtain ⟨row, hrow, _⟩ := hk
        rw [← (Core.view_eq_some.mp hv).2.1] at hrow
        have hnone := hadm.2.2.1
        rw [Core.rowsOf, Option.mem_def, hnone] at hrow
        cases hrow
      obtain ⟨row, hrow, hact⟩ := hk
      exact ⟨row, (Function.update_of_ne hne _ _).trans hrow, hact⟩

theorem CoreStep.stranded {env : Env} {c c' : Core} {i : Input} {op : Op} {j : JobId} {k : ℕ}
    (h : CoreStep env c i op c') (hc : c.Stranded j k) : c'.Stranded j k := by
  obtain ⟨v, hv, hd, hs, hk⟩ := hc
  obtain ⟨job', hj', _⟩ := h.rows.persists j v.job (Core.view_eq_some.mp hv).1
  have hv' := Core.view_of_lookup hj'
  exact ⟨_, hv', JobStep.stranded hv hd hs hk (h.views.moves j v _ hv hv')⟩

/-- **No statement, heartbeat or crash ever releases the reservation of a stranded job.** -/
theorem stranded_forever {env : Env} {j : JobId} {k : ℕ} {c c' : System env}
    {es : List (SysEvent env)} (hc : c.shared.db.core.Stranded j k)
    (hrun : Runs.runFrom Config.step c es = some c') : c'.shared.db.core.Stranded j k := by
  refine Runs.run_invariant (I := fun c : System env => c.shared.db.core.Stranded j k) ?_ hc hrun
  intro c e c' hc hstep
  apply Config.shared_of_step (M := platform env) (I := fun s => s.db.core.Stranded j k) hc ?_
    (fun _ => hc) ?_ hstep
  · exact fun p i _ op _ _ _ => (perform_core env p i c.shared op).stranded hc
  · intro a
    obtain heq | ⟨m, job, w, l, t, hj, hown, heq⟩ := beat_core env c.shared a.1 a.2
    · simpa only [platform, heq] using hc
    · obtain ⟨v, hv, hd, hs, hk⟩ := hc
      have hne : j ≠ m := by
        rintro rfl
        have hj' : c.shared.db.core.jobs.lookup j = some job := hj
        have heq' := (Core.view_eq_some.mp hv).1.symm.trans hj'
        cases heq'
        exact hs hown.1
      refine ⟨v, ?_, hd, hs, hk⟩
      simp only [platform, heq]
      rw [Core.view_putJob_of_ne _ _ hne]
      exact hv

/-- Job 1 is deleted after its admission. -/
def admittedThenDeleted : List (SysEvent Env.standard) :=
  admitJob noop ++ session 2 (.deleteJob 1) 2 {}

/-- **A deleted job strands its reservation**: whatever happens from then on, it stays ACTIVE. -/
theorem deleted_job_strands_reservation : ∃ c : System Env.standard,
    Reaches World.fresh admittedThenDeleted c ∧ ∀ es c',
      Runs.runFrom Config.step c es = some c' →
        (∃ job ∈ c'.shared.db.jobs.lookup 1, ¬ job.Present) ∧ c'.shared.db.core.Active 1 1 := by
  obtain ⟨c, hc, ⟨job, hj, hd, hs⟩, hact⟩ := exists_reaches World.fresh_initial
    admittedThenDeleted (P := fun c =>
      (∃ job ∈ c.shared.db.jobs.lookup 1, ¬ job.Present ∧ job.status ≠ .running) ∧
        c.shared.db.core.Active 1 1) (by decide +kernel)
  have hstranded : c.shared.db.core.Stranded 1 1 := ⟨_, Core.view_of_lookup hj, hd, hs, hact⟩
  refine ⟨c, hc, fun es c' hrun => ?_⟩
  obtain ⟨v, hv, hd, _, hact⟩ := stranded_forever hstranded hrun
  obtain ⟨hj, hrows, _⟩ := Core.view_eq_some.mp hv
  rw [← hrows] at hact
  exact ⟨⟨v.job, hj, hd⟩, hact⟩

/-- A job that is deleted before its admission strands nothing. -/
theorem deleted_waiting_job_strands_nothing : ∃ c : System Env.standard,
    (∃ job ∈ c.shared.db.jobs.lookup 1, ¬ job.Present) ∧
      NothingStranded .standard c.shared.db := by
  obtain ⟨c, hc, hd⟩ := exists_reaches World.fresh_initial
    (session 0 (.createJob noop) 1 { uuid := 1 } ++ session 1 (.deleteJob 1) 2 {} ++
      session 2 .schedulerRunOnce 2 {})
    (P := fun c : System .standard => ∃ job ∈ c.shared.db.jobs.lookup 1, ¬ job.Present)
    (by decide +kernel)
  exact ⟨c, hd, deleted_jobs_strand_nothing hc (by decide +kernel)⟩

end PosttrainPlatform
