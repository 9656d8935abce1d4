import PosttrainPlatform.Lib.Fencing
import PosttrainPlatform.Properties.Effects

/-!
# What can happen to a job row

`RowStep` is the view that one job has of the statements and heartbeats of the whole platform.
-/

namespace PosttrainPlatform

/-- **What one statement, or one heartbeat, can do to a job row.** -/
inductive RowStep (maxAttempts : ℕ) (job : Job) : Job → Prop
  | transition {toStatus : String} {status : JobStatus}
      (hto : JobStatus.parse toStatus = some status) (hfrom : job.status ∈ sourcesFor toStatus)
      (hp : job.Present) : RowStep maxAttempts job { job with status }
  | setCancelRequested (hs : job.status = .running) (hp : job.Present) :
      RowStep maxAttempts job { job with cancelRequested := true }
  | updateConfig (config : Dict) : RowStep maxAttempts job { job with config := some config }
  | softDelete (now : Time) : RowStep maxAttempts job { job with deletedAt := some now }
  | clearRetryDispatched : RowStep maxAttempts job { job with nextRetryAt := none }
  | claim (w : WorkerId) {now lease : Time} (hs : job.status = .queued)
      (hc : job.cancelRequested = false) (hdue : job.Due now) (hp : job.Present) :
      RowStep maxAttempts job (job.claimed w now lease)
  | heartbeat {w : WorkerId} {k : ℕ} (t : Time) (hown : job.OwnedBy w k) :
      RowStep maxAttempts job { job with leaseExpiresAt := some t }
  | finalize {w : WorkerId} {k : ℕ} {ending : Ending} (hown : job.OwnedBy w k) :
      RowStep maxAttempts job (job.finalized ending)
  | reclaim {t now : Time} (hs : job.status = .running) (hexp : job.LeaseExpired now) :
      RowStep maxAttempts job (job.reclaimed maxAttempts t)

/-- A row as `create_and_enqueue` inserts it. -/
def Job.New (job : Job) : Prop :=
  job.status = .queued ∧ job.cancelRequested = false ∧ job.attemptNumber = 0 ∧
    job.leaseOwner = none ∧ job.leaseExpiresAt = none ∧ job.nextRetryAt = none ∧ job.deletedAt = none

/-- The legal sources of a status, for a text that names it. -/
theorem mem_sourcesFor {toStatus : String} {status s : JobStatus}
    (hto : JobStatus.parse toStatus = some status) (hs : s ∈ sourcesFor toStatus) :
    status ∈ validTransitions s := by
  have htext : status.value = toStatus := by
    have h := List.find?_some hto
    exact eq_of_beq h
  obtain ⟨_, hany⟩ := List.mem_filter.mp hs
  obtain ⟨t, ht, heq⟩ := List.any_eq_true.mp hany
  have hvalue : t.value = status.value := (eq_of_beq heq).trans htext.symm
  have ht' : t = status := by
    revert hvalue
    cases t <;> cases status <;> decide
  exact ht' ▸ ht

theorem Job.finalized_not_running (job : Job) (ending : Ending) :
    (job.finalized ending).status ≠ .running := by
  cases ending <;> simp [Job.finalized, Ending.jobStatus]

theorem Job.reclaimed_not_running (job : Job) (maxAttempts : ℕ) (t : Time) :
    (job.reclaimed maxAttempts t).status ≠ .running := by
  simp only [Job.reclaimed, JobsRepo.reclaimedStatus]
  split
  · simp
  · split <;> simp

/-- How the rows of two cores compare: rows stay, and move by row steps. -/
structure RowsStep (maxAttempts : ℕ) (jobs jobs' : Table JobId Job) : Prop where
  persists : ∀ j job, jobs.lookup j = some job →
    ∃ job', jobs'.lookup j = some job' ∧ (job' = job ∨ RowStep maxAttempts job job')
  new : ∀ j job', jobs.lookup j = none → jobs'.lookup j = some job' → job'.New

namespace RowsStep

variable {maxAttempts : ℕ} {jobs : Table JobId Job}

theorem refl (jobs : Table JobId Job) : RowsStep maxAttempts jobs jobs where
  persists j job hj := ⟨job, hj, Or.inl rfl⟩
  new j job' hnone hj := by
    rw [hnone] at hj
    cases hj

theorem put {j : JobId} {job job' : Job} (hj : jobs.lookup j = some job)
    (h : RowStep maxAttempts job job') : RowsStep maxAttempts jobs (jobs.insert j job') where
  persists i row hi := by
    rw [Table.lookup_insert_eq]
    by_cases hij : i = j
    · subst hij
      rw [hj] at hi
      cases hi
      exact ⟨job', by rw [if_pos rfl], Or.inr h⟩
    · exact ⟨row, by rw [if_neg hij, hi], Or.inl rfl⟩
  new i row hnone hi := by
    rw [Table.lookup_insert_eq] at hi
    by_cases hij : i = j
    · subst hij
      rw [hj] at hnone
      cases hnone
    · rw [if_neg hij, hnone] at hi
      cases hi

theorem create {j : JobId} {job : Job} (hj : jobs.lookup j = none) (h : job.New) :
    RowsStep maxAttempts jobs (jobs.insert j job) where
  persists i row hi := by
    have hij : i ≠ j := fun hij => by
      rw [hij, hj] at hi
      cases hi
    exact ⟨row, by rw [Table.lookup_insert_eq, if_neg hij, hi], Or.inl rfl⟩
  new i row hnone hi := by
    rw [Table.lookup_insert_eq] at hi
    by_cases hij : i = j
    · rw [if_pos hij] at hi
      cases hi
      exact h
    · rw [if_neg hij, hnone] at hi
      cases hi

end RowsStep

theorem Core.Released.jobs_eq {c c' : Core} {j : JobId} {k : ℕ} (h : c.Released j k c') :
    c'.jobs = c.jobs := by
  obtain ⟨rfl, _⟩ | ⟨r, _, _, rfl⟩ := h
  · rfl
  · rfl

theorem Core.Buried.jobs_eq {c c' : Core} {j : JobId} {k : ℕ} {ending : Ending}
    (h : c.Buried j k ending c') : c'.jobs = c.jobs := by
  cases ending with
  | failed message classification domain =>
      obtain ⟨_, row, _, _, rfl⟩ := h
      rfl
  | cancelled | succeeded | retry t message classification domain =>
      cases h
      rfl

/-- **The statements move every job row by row steps.** -/
theorem CoreStep.rows {env : Env} {c c' : Core} {i : Input} {op : Op} (h : CoreStep env c i op c') :
    RowsStep env.settings.maxAttempts c.jobs c'.jobs := by
  cases h with
  | skip => exact .refl _
  | createJob hj => exact .create hj ⟨rfl, rfl, rfl, rfl, rfl, rfl, rfl⟩
  | transition hj hto hfrom hp => exact .put hj (.transition hto hfrom hp)
  | cancel hj hfrom hp hrel =>
      rw [hrel.jobs_eq]
      exact .put hj (.transition (by decide) hfrom hp)
  | setCancelRequested hj hs hp => exact .put hj (.setCancelRequested hs hp)
  | updateConfig hj => exact .put hj (.updateConfig _)
  | softDelete hj => exact .put hj (.softDelete _)
  | clearRetryDispatched hj => exact .put hj .clearRetryDispatched
  | claim hj hs hc hdue hp hact => exact .put hj (.claim _ hs hc hdue hp)
  | finalize hj hown hp hdlq hrel =>
      rw [hrel.jobs_eq, hdlq.jobs_eq]
      exact .put hj (.finalize hown)
  | reclaim hj hs hexp hrel =>
      rw [hrel.jobs_eq]
      exact .put hj (.reclaim hs hexp)
  | reserve => exact .refl _

/-- A heartbeat writes the table of jobs and the state of its own thread. -/
theorem beat_frame (env : Env) (s : World) (p : ℕ) (now : Time) :
    s.beat env p now =
      { s with
        db := { s.db with jobs := (s.beat env p now).db.jobs }
        heartbeats := (s.beat env p now).heartbeats } := by
  unfold World.beat
  split
  · rename_i j w k _
    have hframe := JobsRepo.updateWhere_frame s.db j (fun job => job.OwnedBy w k)
      fun job => { job with leaseExpiresAt := some (now + env.settings.leaseDurationSeconds) }
    exact congrArg (fun db => ({ s with db := db } : World).setHeartbeat p _) hframe
  · rfl

/-- What a round of a heartbeat thread does to the core. -/
theorem beat_core (env : Env) (s : World) (p : ℕ) (now : Time) :
    (s.beat env p now).db.core = s.db.core ∨
      ∃ j job w k t, s.db.jobs.lookup j = some job ∧ job.OwnedBy w k ∧
        (s.beat env p now).db.core = s.db.core.putJob j { job with leaseExpiresAt := some t } := by
  unfold World.beat
  split
  · rename_i j w k _
    simp only
    generalize hr : JobsRepo.heartbeat s.db j w k now env.settings.leaseDurationSeconds = r
    obtain rfl | ⟨job, hj, hown, rfl⟩ := JobsRepo.updateWhere_cases hr
    · exact Or.inl rfl
    · exact Or.inr ⟨j, job, w, k, _, hj, hown, rfl⟩
  · exact Or.inl rfl

/-- What a heartbeat does to one job row: nothing, or it moves the end of a lease that is held. -/
theorem beat_lookup (env : Env) (s : World) (p : ℕ) (now : Time) (j : JobId) :
    (s.beat env p now).db.jobs.lookup j = s.db.jobs.lookup j ∨
      ∃ job w k t, s.db.jobs.lookup j = some job ∧ job.OwnedBy w k ∧
        (s.beat env p now).db.jobs.lookup j = some { job with leaseExpiresAt := some t } := by
  obtain h | ⟨m, job, w, k, t, hm, hown, h⟩ := beat_core env s p now
  · exact Or.inl (congrArg (fun c : Core => c.jobs.lookup j) h)
  · have hlookup := congrArg (fun c : Core => c.jobs.lookup j) h
    simp only [Core.lookup_putJob] at hlookup
    by_cases hjm : j = m
    · subst hjm
      rw [if_pos rfl] at hlookup
      exact Or.inr ⟨job, w, k, t, hm, hown, hlookup⟩
    · rw [if_neg hjm] at hlookup
      exact Or.inl hlookup

theorem beat_rows (env : Env) (s : World) (p : ℕ) (now : Time) :
    RowsStep env.settings.maxAttempts s.db.jobs (s.beat env p now).db.jobs := by
  obtain h | ⟨j, job, w, k, t, hj, hown, h⟩ := beat_core env s p now
  · have hjobs : (s.beat env p now).db.jobs = s.db.jobs := congrArg Core.jobs h
    rw [hjobs]
    exact .refl _
  · have hjobs : (s.beat env p now).db.jobs =
        s.db.jobs.insert j { job with leaseExpiresAt := some t } := congrArg Core.jobs h
    rw [hjobs]
    exact .put hj (.heartbeat t hown)

end PosttrainPlatform
