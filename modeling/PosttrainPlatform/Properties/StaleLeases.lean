import PosttrainPlatform.Lib.Latest
import PosttrainPlatform.Properties.Rows
import PosttrainPlatform.System

/-!
# Recovery takes a job from silent workers only

A claim and every heartbeat round that still finds its attempt move the end of the lease of a job.
Nothing else does, so the lease that recovery finds expired is the one that the last of them has
left: its worker has been silent for longer than the lease lasts, whatever has happened in between.
-/

namespace PosttrainPlatform

open Programs

/-- A claim, or a heartbeat that goes through: for which attempt of which worker, and when by the
clock that it reads. -/
structure Extension where
  workerId : WorkerId
  attemptNumber : ℕ
  time : Time

/-- The event gives the lease of the job a new end. -/
inductive Extends {env : Env} (j : JobId) (c : System env) : SysEvent env → Extension → Prop
  | claim {p : ℕ} {i : Input} {w : WorkerId} {job : Job} (hop : c.pending p = some (.claim j w))
      (hj : c.shared.db.jobs.lookup j = some job)
      (hclaim : JobsRepo.Claimable c.shared.db j i.now job) :
      Extends j c (.step p i) ⟨w, job.attemptNumber + 1, i.now⟩
  | heartbeat {p : ℕ} {now : Time} {w : WorkerId} {k : ℕ} {job : Job}
      (hbeat : c.shared.heartbeats p = some { jobId := j, workerId := w, attemptNumber := k })
      (hj : c.shared.db.jobs.lookup j = some job) (hown : job.OwnedBy w k) :
      Extends j c (.ambient (p, now)) ⟨w, k, now⟩

/-- The lease of the row, if it has one, is the one that the extension has left there. -/
def Job.LeasedBy (leaseDurationSeconds : Time) (o : Option Extension) (job : Job) : Prop :=
  ∀ t ∈ job.leaseExpiresAt, ∃ x ∈ o, t = x.time + leaseDurationSeconds ∧
    job.leaseOwner = some x.workerId ∧ job.attemptNumber = x.attemptNumber

/-- The same of the row of job `j`. -/
def LeasedBy (leaseDurationSeconds : Time) (j : JobId) (o : Option Extension)
    (jobs : Table JobId Job) : Prop :=
  ∀ job ∈ jobs.lookup j, job.LeasedBy leaseDurationSeconds o

section Rows

variable {d : Time} {j : JobId} {o : Option Extension} {c : Core}

theorem Job.leasedBy_none {job : Job} (h : job.leaseExpiresAt = none) : job.LeasedBy d o := by
  intro t ht
  rw [h] at ht
  cases ht

/-- A row whose lease columns are those of another one. -/
theorem Job.LeasedBy.of_eq {job job' : Job} (h : job.LeasedBy d o)
    (hlease : job'.leaseExpiresAt = job.leaseExpiresAt) (howner : job'.leaseOwner = job.leaseOwner)
    (hattempt : job'.attemptNumber = job.attemptNumber) : job'.LeasedBy d o := by
  intro t ht
  rw [howner, hattempt]
  exact h t (hlease ▸ ht)

theorem LeasedBy.put {i : JobId} {row : Job} (h : LeasedBy d j o c.jobs)
    (hrow : i = j → row.LeasedBy d o) : LeasedBy d j o (c.putJob i row).jobs := by
  intro job hjob
  rw [Option.mem_def, Core.lookup_putJob] at hjob
  by_cases hij : j = i
  · rw [if_pos hij, Option.some.injEq] at hjob
    exact hjob ▸ hrow hij.symm
  · rw [if_neg hij] at hjob
    exact h job hjob

/-- The row is rewritten, and keeps its lease columns. -/
theorem LeasedBy.keep {i : JobId} {job row : Job} (h : LeasedBy d j o c.jobs)
    (hi : c.jobs.lookup i = some job) (hlease : row.leaseExpiresAt = job.leaseExpiresAt)
    (howner : row.leaseOwner = job.leaseOwner) (hattempt : row.attemptNumber = job.attemptNumber) :
    LeasedBy d j o (c.putJob i row).jobs :=
  h.put fun hij => (h job (hij ▸ hi)).of_eq hlease howner hattempt

/-- The row is rewritten, and loses its lease. -/
theorem LeasedBy.drop {i : JobId} {row : Job} (h : LeasedBy d j o c.jobs)
    (hrow : row.leaseExpiresAt = none) : LeasedBy d j o (c.putJob i row).jobs :=
  h.put fun _ => Job.leasedBy_none hrow

/-- **A statement that claims nothing here leaves the lease, or takes it away.** -/
theorem CoreStep.leasedBy {env : Env} {c' : Core} {i : Input} {op : Op}
    (hcore : CoreStep env c i op c') (h : LeasedBy d j o c.jobs)
    (hclaim : ∀ w job, op = .claim j w → c.jobs.lookup j = some job → job.status = .queued →
      job.cancelRequested = false → job.Due i.now → job.Present →
      ¬ c.Active j (job.attemptNumber + 1)) : LeasedBy d j o c'.jobs := by
  cases hcore with
  | skip => exact h
  | reserve => exact h
  | createJob => exact h.drop rfl
  | transition hj => exact h.keep hj rfl rfl rfl
  | cancel hj hfrom hp hrel =>
      rw [hrel.jobs_eq]
      exact h.keep hj rfl rfl rfl
  | setCancelRequested hj => exact h.keep hj rfl rfl rfl
  | updateConfig hj => exact h.keep hj rfl rfl rfl
  | softDelete hj => exact h.keep hj rfl rfl rfl
  | clearRetryDispatched hj => exact h.keep hj rfl rfl rfl
  | @claim i w job lease hj hs hc hdue hp hact =>
      refine h.put fun hij => ?_
      subst hij
      exact absurd hact (hclaim w job rfl hj hs hc hdue hp)
  | finalize hj hown hp hdlq hrel =>
      rw [hrel.jobs_eq, hdlq.jobs_eq]
      exact h.drop rfl
  | reclaim hj hs hexp hrel =>
      rw [hrel.jobs_eq]
      exact h.drop rfl

end Rows

section Events

variable {env : Env} {j : JobId} {c c' : System env} {e : SysEvent env}

/-- The row that a claim leaves. -/
theorem claim_leasedBy (p : ℕ) {s : World} {w : WorkerId} {i : Input} {job : Job}
    (hj : s.db.jobs.lookup j = some job) (hclaim : JobsRepo.Claimable s.db j i.now job) :
    LeasedBy env.settings.leaseDurationSeconds j (some ⟨w, job.attemptNumber + 1, i.now⟩)
      ((Op.claim j w).perform env p i s).1.db.jobs := by
  have hr : ((Op.claim j w).perform env p i s).1.db.jobs =
      s.db.jobs.insert j (job.claimed w i.now env.settings.leaseDurationSeconds) := by
    simp only [Op.perform, World.write, JobsRepo.claim, JobsRepo.updateWhere, hj, if_pos hclaim]
    rfl
  rw [hr]
  intro row hrow
  rw [Option.mem_def, Table.lookup_insert_eq, if_pos rfl, Option.some.injEq] at hrow
  subst hrow
  rintro t ht
  cases ht
  exact ⟨_, rfl, rfl, rfl, rfl⟩

/-- The row that a heartbeat leaves. -/
theorem beat_leasedBy {s : World} {p : ℕ} {now : Time} {w : WorkerId} {k : ℕ} {job : Job}
    (hbeat : s.heartbeats p = some { jobId := j, workerId := w, attemptNumber := k })
    (hj : s.db.jobs.lookup j = some job) (hown : job.OwnedBy w k) :
    LeasedBy env.settings.leaseDurationSeconds j (some ⟨w, k, now⟩)
      (s.beat env p now).db.jobs := by
  have hr : (s.beat env p now).db.jobs = s.db.jobs.insert j
      { job with leaseExpiresAt := some (now + env.settings.leaseDurationSeconds) } := by
    unfold World.beat JobsRepo.heartbeat JobsRepo.updateWhere
    simp only [hbeat, hj, if_pos hown]
    rfl
  rw [hr]
  intro row hrow
  rw [Option.mem_def, Table.lookup_insert_eq, if_pos rfl, Option.some.injEq] at hrow
  subst hrow
  rintro t ht
  cases ht
  exact ⟨_, rfl, rfl, hown.2.1, hown.2.2⟩

/-- A heartbeat that does not find its attempt in job `j` leaves its row. -/
theorem beat_lookup_of_not_extends {p : ℕ} {now : Time}
    (hnone : ∀ x, ¬ Extends j c (.ambient (p, now)) x) :
    (c.shared.beat env p now).db.jobs.lookup j = c.shared.db.jobs.lookup j := by
  unfold World.beat
  split
  · rename_i j' w k hbeat
    simp only [World.setHeartbeat]
    generalize hr : JobsRepo.heartbeat c.shared.db j' w k now env.settings.leaseDurationSeconds = r
    obtain rfl | ⟨job, hj, hown, rfl⟩ := JobsRepo.updateWhere_cases hr
    · rfl
    · by_cases hjj : j = j'
      · subst hjj
        exact absurd (.heartbeat hbeat hj hown) (hnone _)
      · exact (Table.lookup_insert_eq _ _ _ _).trans (if_neg hjj)
  · rfl

/-- What an extension leaves. -/
theorem leasedBy_of_extends {x : Extension} (hstep : c.step e = some c') (h : Extends j c e x) :
    LeasedBy env.settings.leaseDurationSeconds j (some x) c'.shared.db.jobs := by
  cases h with
  | @claim p i w job hop hj hclaim =>
      obtain ⟨call, k, hat⟩ := Config.pending_eq_some.mp hop
      obtain ⟨_, _, h, _⟩ | ⟨q, i', call', op, k', heq, hat', rfl⟩ | ⟨_, _, _, _, _, h, _⟩ |
        ⟨_, _, _, _, h, _⟩ | ⟨_, h, _⟩ := Config.step_cases hstep
      · cases h
      · cases heq
        have hthread := hat.symm.trans hat'
        cases hthread
        exact claim_leasedBy p hj hclaim
      · cases h
      · cases h
      · cases h
  | @heartbeat p now w k job hbeat hj hown =>
      obtain ⟨_, _, h, _⟩ | ⟨_, _, _, _, _, h, _⟩ | ⟨_, _, _, _, _, h, _⟩ |
        ⟨_, _, _, _, h, _⟩ | ⟨a, heq, rfl⟩ := Config.step_cases hstep
      · cases h
      · cases h
      · cases h
      · cases h
      · cases heq
        exact beat_leasedBy hbeat hj hown

/-- What every other event leaves. -/
theorem leasedBy_of_not_extends {o : Option Extension} (hstep : c.step e = some c')
    (hnone : ∀ x, ¬ Extends j c e x)
    (h : LeasedBy env.settings.leaseDurationSeconds j o c.shared.db.jobs) :
    LeasedBy env.settings.leaseDurationSeconds j o c'.shared.db.jobs := by
  obtain ⟨p, call, rfl, hp, rfl⟩ | ⟨p, i, call, op, k, rfl, hat, rfl⟩ |
    ⟨p, x, call, op, k, rfl, hat, rfl⟩ | ⟨p, call, op, k, rfl, hat, rfl⟩ | ⟨⟨p, now⟩, rfl, rfl⟩ :=
    Config.step_cases hstep
  · exact h
  · refine (perform_core env p i c.shared op).leasedBy h ?_
    rintro w job rfl hj hs hc hdue hp hact
    exact hnone _ (.claim (Config.pending_eq_some.mpr ⟨call, k, hat⟩) hj ⟨hs, hc, hdue, hp, hact⟩)
  · exact h
  · exact h
  · intro job hjob
    have hsame := beat_lookup_of_not_extends hnone
    exact h job (hsame.symm.trans hjob)

/-- **The lease of a job is the one that its last claim or heartbeat has left.** -/
theorem leasedBy_of_reaches {s : World} {es : List (SysEvent env)} (hreach : Reaches s es c) :
    ∃ o, Runs.Latest Config.step (Extends j) { shared := s } es o ∧
      LeasedBy env.settings.leaseDurationSeconds j o c.shared.db.jobs := by
  refine Runs.latest_of_run
    (P := fun o c => LeasedBy env.settings.leaseDurationSeconds j o c.shared.db.jobs)
    (fun _ _ _ _ hstep h => leasedBy_of_extends hstep h)
    (fun _ _ _ _ hstep hnone h => leasedBy_of_not_extends hstep hnone h) ?_ hreach.2
  intro job hjob
  rw [hreach.1.db] at hjob
  cases hjob

end Events

/-- What `reclaim` finds and leaves when it takes a job. -/
theorem reclaimTx_eq_true {env : Env} {db db' : Db} {j : JobId} {t now : Time}
    (h : reclaimTx env db j t now = some (db', true)) :
    ∃ job, db.jobs.lookup j = some job ∧ job.status = .running ∧ job.LeaseExpired now ∧
      db'.jobs.lookup j = some (job.reclaimed env.settings.maxAttempts t) := by
  unfold reclaimTx at h
  generalize hr : JobsRepo.reclaimStale db j env.settings.maxAttempts t now = r at h
  obtain rfl | ⟨job, hj, hc, rfl⟩ := JobsRepo.updateWhere_cases hr
  · cases h
  · simp only [Table.lookup_insert_eq, if_true] at h
    obtain ⟨db₁, hrel, heq⟩ := Option.map_eq_some_iff.mp h
    cases heq
    refine ⟨job, hj, hc.1, hc.2, ?_⟩
    have hjobs := congrArg (fun jobs : Table JobId Job => jobs.lookup j)
      (release_core hrel).jobs_eq
    exact hjobs.trans ((Table.lookup_insert_eq _ _ _ _).trans (if_pos rfl))

theorem tryWrite_eq_ok {β : Type} {s s' : World} {r : Option (Db × β)} {b : β}
    (h : s.tryWrite r = (s', .ok b)) : ∃ db, r = some (db, b) ∧ s' = { s with db } := by
  cases r with
  | none => cases h
  | some r =>
      cases h
      exact ⟨r.1, rfl, rfl⟩

/-- **Recovery takes a job from a silent worker only.** When `reclaim` succeeds, the last claim or
heartbeat of the job was made for the attempt that the row still names, longer than a lease before;
no other one has gone through since, and afterwards the attempt owns the job no more. -/
theorem reclaimed_after_silence {env : Env} {s : World} {es : List (SysEvent env)} {c : System env}
    {p : ℕ} {i : Input} {j : JobId} {t : Time} {s' : World} (hreach : Reaches s es c)
    (hreclaim : (Op.reclaim j t).perform env p i c.shared = (s', .ok true)) :
    ∃ x, Runs.Latest Config.step (Extends j) ({ shared := s } : System env) es (some x) ∧
      x.time + env.settings.leaseDurationSeconds < i.now ∧
      (∃ job ∈ c.shared.db.jobs.lookup j, job.OwnedBy x.workerId x.attemptNumber) ∧
      ∃ job ∈ s'.db.jobs.lookup j, ∀ w k, ¬ job.OwnedBy w k := by
  obtain ⟨db, htx, rfl⟩ := tryWrite_eq_ok hreclaim
  obtain ⟨job, hj, hrun, ⟨expiry, hexpiry, hlt⟩, hafter⟩ := reclaimTx_eq_true htx
  obtain ⟨o, hlatest, hleased⟩ := leasedBy_of_reaches (j := j) hreach
  obtain ⟨x, hx, hend, howner, hattempt⟩ := hleased job hj expiry hexpiry
  rw [Option.mem_def] at hx
  subst hx
  refine ⟨x, hlatest, hend ▸ hlt, ⟨job, hj, hrun, howner, hattempt⟩, _, hafter, ?_⟩
  exact fun w k hown => job.reclaimed_not_running _ t hown.1

/-- Worker 7 runs job 1, renews its lease once, and is heard of no more; recovery is about to take
the job. -/
def fallenSilent : List (SysEvent Env.standard) :=
  admitJob noop ++ session 2 (.processJobMessage 1 7) 4 {} ++ [.ambient (2, 25), .crash 2] ++
    session 3 .recoveryRunOnce 2 { now := 56 }

theorem fallenSilent_reclaimed : ∃ x,
    Runs.Latest Config.step (Extends 1) ({ shared := World.fresh } : System Env.standard)
      fallenSilent (some x) ∧ x.time + 30 < 56 := by
  obtain ⟨c, hreach, hok⟩ := exists_reaches World.fresh_initial fallenSilent
    (P := fun c => ((Op.reclaim 1 60).perform Env.standard 3 { now := 56 } c.shared).2 = .ok true)
    (by decide +kernel)
  obtain ⟨x, hlatest, hsilent, _⟩ := reclaimed_after_silence hreach (Prod.ext rfl hok)
  exact ⟨x, hlatest, hsilent⟩

end PosttrainPlatform
