import PosttrainPlatform.Properties.Cancellation

/-!
# An acknowledged cancellation is final

A job is settled when no claim can match it any more: it is flagged, terminal or deleted.  Settled
jobs stay settled whatever happens.  The contract `acknowledged` adds what a `cancel_job` call that
returns has made sure of.
-/

namespace PosttrainPlatform

open Programs Service

/-! ### Settled jobs -/

/-- No claim can match the row. -/
def Job.Settled (job : Job) : Prop :=
  job.cancelRequested = true ∨ validTransitions job.status = [] ∨ ¬ job.Present

/-- No row is PENDING: `create_and_enqueue` commits QUEUED rows. -/
def Job.Enqueued (job : Job) : Prop := job.status ≠ .pending

theorem RowStep.settled {maxAttempts : ℕ} {job job' : Job} (h : RowStep maxAttempts job job')
    (hs : job.Settled) : job'.Settled := by
  cases h with
  | transition hto hfrom hp =>
      have hedge := mem_sourcesFor hto hfrom
      obtain hf | ht | hd := hs
      · exact Or.inl hf
      · rw [ht] at hedge
        cases hedge
      · exact absurd hp hd
  | setCancelRequested hr hp => exact Or.inl rfl
  | updateConfig config => exact hs
  | softDelete now => exact Or.inr (Or.inr (by simp [Job.Present]))
  | clearRetryDispatched => exact hs
  | claim w hq hc hdue hp =>
      obtain hf | ht | hd := hs
      · rw [hc] at hf
        cases hf
      · rw [hq] at ht
        cases ht
      · exact absurd hp hd
  | heartbeat t hown => exact hs
  | finalize hown =>
      obtain hf | ht | hd := hs
      · exact Or.inl hf
      · rw [hown.1] at ht
        cases ht
      · exact Or.inr (Or.inr hd)
  | reclaim hr hexp =>
      obtain hf | ht | hd := hs
      · exact Or.inl hf
      · rw [hr] at ht
        cases ht
      · exact Or.inr (Or.inr hd)

theorem RowStep.enqueued {maxAttempts : ℕ} {job job' : Job} (h : RowStep maxAttempts job job')
    (hs : job.Enqueued) : job'.Enqueued := by
  cases h with
  | @transition toStatus status hto hfrom hp =>
      have hedge := mem_sourcesFor hto hfrom
      rintro rfl
      revert hedge
      cases job.status <;> simp [validTransitions]
  | setCancelRequested | updateConfig | softDelete | clearRetryDispatched | heartbeat => exact hs
  | claim => exact fun h => by cases h
  | @finalize w k ending hown => cases ending <;> simp [Job.Enqueued, Job.finalized, Ending.jobStatus]
  | reclaim =>
      simp only [Job.Enqueued, Job.reclaimed, JobsRepo.reclaimedStatus]
      split
      · simp
      · split <;> simp

theorem Job.Settled.not_claimable {db : Db} {j : JobId} {now : Time} {job : Job} (h : job.Settled) :
    ¬ JobsRepo.Claimable db j now job := by
  rintro ⟨hq, hc, _, hp, _⟩
  obtain hf | ht | hd := h
  · rw [hc] at hf
    cases hf
  · rw [hq] at ht
    cases ht
  · exact hd hp

/-- Job `j` exists and is settled. -/
def Db.Settled (db : Db) (j : JobId) : Prop := ∃ job, db.jobs.lookup j = some job ∧ job.Settled

def Db.Exists (db : Db) (j : JobId) : Prop := ∃ job, db.jobs.lookup j = some job

def Db.AllEnqueued (db : Db) : Prop := ∀ j job, db.jobs.lookup j = some job → job.Enqueued

section Steps

variable {maxAttempts : ℕ} {db db' : Db} (h : RowsStep maxAttempts db.jobs db'.jobs)

include h

theorem Db.Settled.step {j : JobId} (hs : db.Settled j) : db'.Settled j := by
  obtain ⟨job, hj, hs⟩ := hs
  obtain ⟨job', hj', hstep⟩ := h.persists j job hj
  obtain rfl | hstep := hstep
  · exact ⟨_, hj', hs⟩
  · exact ⟨job', hj', hstep.settled hs⟩

theorem Db.Exists.step {j : JobId} (hs : db.Exists j) : db'.Exists j := by
  obtain ⟨job, hj⟩ := hs
  obtain ⟨job', hj', _⟩ := h.persists j job hj
  exact ⟨job', hj'⟩

theorem Db.AllEnqueued.step (hs : db.AllEnqueued) : db'.AllEnqueued := by
  intro j job' hj'
  cases hj : db.jobs.lookup j with
  | none =>
      rw [Job.Enqueued, (h.new j job' hj hj').1]
      decide
  | some job =>
      obtain ⟨row, hrow, hstep⟩ := h.persists j job hj
      rw [hj'] at hrow
      cases hrow
      obtain rfl | hstep := hstep
      · exact hs j _ hj
      · exact hstep.enqueued (hs j job hj)

end Steps

/-! ### The contract -/

/-- A cancel signal does not come to a job that is back in the queue unflagged. -/
def SignalsInTime (op : Op) (db : Db) : Prop :=
  ∀ j job, op = .setCancelRequested j → db.jobs.lookup j = some job → job.Present →
    job.status = .queued → job.cancelRequested = true

def SignalsInTime.check (db : Db) : Op → Bool
  | .setCancelRequested j => decide (∀ job ∈ db.jobs.lookup j, job.Present → job.status = .queued →
      job.cancelRequested = true)
  | _ => true

theorem SignalsInTime.check_iff {op : Op} {db : Db} : check db op = true ↔ SignalsInTime op db := by
  cases op
  case setCancelRequested j =>
      refine decide_eq_true_iff.trans ⟨?_, fun h job hj => h j job rfl hj⟩
      rintro h _ job heq
      cases heq
      exact h job
  all_goals exact iff_of_true rfl fun _ _ h => by cases h

instance (op : Op) (db : Db) : Decidable (SignalsInTime op db) :=
  decidable_of_iff _ SignalsInTime.check_iff

/-- Jobs stay, settled jobs stay settled, and a cancellation that has returned has settled its
job. -/
def acknowledged (env : Env) : Contract (platform env) where
  inv s := s.db.AllEnqueued
  rely _ s s' := ∀ j, (s.db.Exists j → s'.db.Exists j) ∧ (s.db.Settled j → s'.db.Settled j)
  mayStep op _ s := SignalsInTime op s.db
  post _ call outcome s := ∀ j r, call = .cancelJob j → outcome = .returned r → s.db.Settled j

variable {env : Env}

/-- Every change of rows is one that the contract allows. -/
theorem acknowledged_guarantee {p : ℕ} {s s' : World} (hI : s.db.AllEnqueued)
    (h : RowsStep env.settings.maxAttempts s.db.jobs s'.db.jobs) :
    (acknowledged env).Guarantee p s s' :=
  ⟨hI.step h, fun _ _ _ => ⟨fun hj => hj.step h, fun hj => hj.step h⟩⟩

theorem acknowledged_keeps (p : ℕ) (call : Call) (op : Op) : (acknowledged env).Keeps p call op :=
  fun s i hI _ => acknowledged_guarantee hI (perform_core env p i s op).rows

/-! ### What the two writes of `cancel_job` make sure of -/

theorem cancelTx_settles {db db' : Db} {j : JobId} {a : ℕ} (h : cancelTx db j a = some (db', true)) :
    db'.Settled j := by
  unfold cancelTx at h
  generalize hr : JobsRepo.conditionalTransition db j (sourcesFor JobStatus.cancelled.value)
    .cancelled = r at h
  obtain rfl | ⟨job, hj, hc, rfl⟩ := JobsRepo.updateWhere_cases hr
  · cases h
  · obtain ⟨db₁, hrel, heq⟩ := Option.map_eq_some_iff.mp h
    cases heq
    have hjobs : db'.jobs = db.jobs.insert j { job with status := .cancelled } :=
      (release_core hrel).jobs_eq
    refine ⟨{ job with status := .cancelled }, ?_, Or.inr (Or.inl rfl)⟩
    rw [hjobs, Table.lookup_insert_eq, if_pos rfl]

theorem setCancelRequested_settles {db : Db} {j : JobId} (hj : db.Exists j) (hI : db.AllEnqueued)
    (hsignal : SignalsInTime (.setCancelRequested j) db) :
    (JobsRepo.setCancelRequested db j).1.Settled j := by
  obtain ⟨job, hj⟩ := hj
  generalize hr : JobsRepo.setCancelRequested db j = r
  by_cases hcond : job.status = .running ∧ job.Present
  · unfold JobsRepo.setCancelRequested JobsRepo.updateWhere at hr
    simp only [hj] at hr
    rw [if_pos hcond] at hr
    subst hr
    refine ⟨{ job with cancelRequested := true }, ?_, Or.inl rfl⟩
    rw [Table.lookup_insert_eq, if_pos rfl]
  · -- no row matched: the job has left RUNNING, or is deleted
    unfold JobsRepo.setCancelRequested JobsRepo.updateWhere at hr
    simp only [hj] at hr
    rw [if_neg hcond] at hr
    subst hr
    refine ⟨job, hj, ?_⟩
    by_cases hp : job.Present
    · have hnp : job.status ≠ .pending := hI j job hj
      cases hs : job.status with
      | pending => exact absurd hs hnp
      | queued => exact Or.inl (hsignal j job rfl hj hp hs)
      | running => exact absurd ⟨hs, hp⟩ hcond
      | succeeded | failed | cancelled => exact Or.inr (Or.inl (by rw [hs]; rfl))
    · exact Or.inr (Or.inr hp)

/-! ### The program of `cancel_job` -/

section Cancel

variable {p : ℕ} {call : Call} {s : World} {j : JobId} {α : Type}

/-- The postcondition of `cancel_job`. -/
def Acknowledges (j : JobId) (r : Except Exn α) (s : World) : Prop :=
  ∀ a, r = .ok a → s.db.Settled j

theorem post_died (p : ℕ) (call : Call) (s : World) : (acknowledged env).post p call .died s :=
  fun _ _ _ h => by cases h

/-- Once the job is settled the rest of the call does not matter. -/
theorem safe_of_settled {prog : Service α} (hs : s.db.Settled j) :
    (acknowledged env).Safe p call (Acknowledges j) prog s := by
  refine Contract.safe_of_stable (φ := (acknowledged env).Keeps p call)
    (R := fun s : World => s.db.Settled j) (Prog.all_of_forall (acknowledged_keeps p call) prog) ?_
    (fun s s' hs hR _ => (hR j).2 hs)
    (fun s _ _ => post_died p call _) (fun r s hs a _ => hs) hs
  exact fun op i s hkeep hs hI hm => ⟨hkeep s i hI hm, hs.step (perform_core env p i s op).rows⟩

theorem safe_cancelQueued (current : Job) :
    (acknowledged env).Safe p call (Acknowledges j) (cancelQueued j current) s := by
  refine Contract.Safe.perform_bind (fun s₁ i _ hI hm => acknowledged_keeps p call _ s₁ i hI hm)
    (fun s _ => post_died p call _) (fun e s _ a h => by cases h) ?_
  intro s₁ i matched _ _ _ _ hr
  cases matched with
  | false => exact fun a h => by cases h
  | true =>
      intro _ _
      have hr : (s₁.tryWrite (cancelTx s₁.db j current.attemptNumber)).2 = .ok true := hr
      change (s₁.tryWrite (cancelTx s₁.db j current.attemptNumber)).1.db.Settled j
      cases htx : cancelTx s₁.db j current.attemptNumber with
      | none =>
          rw [htx] at hr
          cases hr
      | some r =>
          rw [htx] at hr
          obtain ⟨db', b⟩ := r
          cases hr
          exact cancelTx_settles htx

theorem safe_cancelRunning (hj : s.db.Exists j) :
    (acknowledged env).Safe p call (Acknowledges j) (cancelRunning j) s := by
  refine Contract.Safe.perform_bind (fun s₁ i _ hI hm => acknowledged_keeps p call _ s₁ i hI hm)
    (fun s _ => post_died p call _) (fun e s _ a h => by cases h) ?_
  intro s₁ i matched hR hI hm _ _
  exact safe_of_settled (setCancelRequested_settles ((hR j).1 hj) hI hm)

theorem safe_getJobOr404 : (acknowledged env).Safe p call
    (fun r s => ∀ current, r = .ok current → s.db.Exists j) (getJobOr404 j) s := by
  refine Contract.Safe.perform_bind (fun s₁ i _ hI hm => acknowledged_keeps p call _ s₁ i hI hm)
    (fun s _ => post_died p call _) (fun e s _ a h => by cases h) ?_
  intro s₁ i row _ _ _ _ hr
  cases hr
  cases hget : JobsRepo.get s₁.db j with
  | none => exact fun a h => by cases h
  | some current => exact fun a _ => ⟨current, (Option.filter_eq_some_iff.mp hget).1⟩

theorem safe_cancelJob : (acknowledged env).Safe p call (Acknowledges j) (cancelJob j) s := by
  refine safe_getJobOr404.bind (fun current s hj => ?_) fun e s _ a h => by cases h
  cases current.status with
  | pending | queued => exact safe_cancelQueued current
  | running => exact safe_cancelRunning (hj current rfl)
  | succeeded | failed | cancelled => exact fun a h => by cases h

end Cancel

/-! ### Every run -/

theorem acknowledged_sound (env : Env) : (acknowledged env).Sound where
  rely_refl _ _ _ := ⟨id, id⟩
  rely_trans _ _ _ _ h h' j := ⟨(h' j).1 ∘ (h j).1, (h' j).2 ∘ (h j).2⟩
  ambient a s hI := by
    have hrows := beat_rows env s a.1 a.2
    exact ⟨hI.step hrows, fun _ _ => ⟨fun hj => hj.step hrows, fun hj => hj.step hrows⟩⟩
  halt p s hI := ⟨hI, fun _ _ _ => ⟨id, id⟩⟩
  idle_stable _ _ _ _ _ := trivial
  post_stable _ _ _ _ _ h hR _ j r hcall ho := (hR j).2 (h j r hcall ho)
  safe p call s _ _ _ := by
    cases call with
    | cancelJob j =>
        refine safe_cancelJob.bind (fun _ s hs => ?_) fun e s _ => ?_
        · intro i r hcall _
          cases hcall
          exact hs () rfl
        · exact fun i r _ ho => by cases ho
    | _ =>
        refine Contract.safe_of_all (Prog.all_of_forall (acknowledged_keeps p _) _)
          (fun _ _ => post_died p _ _) ?_
        exact fun r s i r' hcall _ => by cases hcall

/-- **In a run whose cancel signals come in time, no attempt starts after a cancellation has been
acknowledged.** -/
theorem no_claim_after_acknowledgement {env : Env} {s : World} {es : List (SysEvent env)}
    {c : System env} (h : Reaches s es c)
    (hok : Runs.Always Config.step (Meets fun op _ db => SignalsInTime op db)
      ({ shared := s } : System env) es)
    {p : ℕ} {j : JobId} {r : Reply}
    (hp : c.threads p = some { call := .cancelJob j, prog := .ret r }) (w : WorkerId)
    (now lease : Time) : JobsRepo.claim c.shared.db j w now lease = (c.shared.db, false) := by
  have hI : s.db.AllEnqueued := by
    intro i job hi
    rw [h.1.db] at hi
    cases hi
  have hallow : Runs.Always Config.step (acknowledged env).Allows ({ shared := s } : System env)
      es := by
    exact Runs.always_mono (fun c e he =>
      Contract.allows_of_atStep (fun _ => trivial) (fun _ _ => trivial) he) hok
  have hvalid := Contract.valid_run (acknowledged_sound env)
    (Contract.valid_of_unstarted (C := acknowledged env) hI fun _ => trivial) hallow h.2
  have hthread := hvalid.2 p
  rw [hp] at hthread
  obtain ⟨job, hj, hs⟩ := hthread j r rfl rfl
  generalize hr : JobsRepo.claim c.shared.db j w now lease = result
  obtain rfl | ⟨row, hrow, hclaim, _⟩ := JobsRepo.updateWhere_cases hr
  · rfl
  · rw [hj] at hrow
    cases hrow
    exact absurd hclaim hs.not_claimable

/-- `cancel_job` reads job 1 as RUNNING, the worker requeues it, and no row is flagged. -/
def lostSignal : List (SysEvent Env.standard) :=
  admitJob flaky ++ session 2 (.processJobMessage 1 7) 9 {} ++ session 3 (.cancelJob 1) 1 {} ++
    proceed 2 4 {} ++ proceed 3 2 {}

/-- The next pass of the scheduler, and the next claim of job 1. -/
def startedAgain : List (SysEvent Env.standard) :=
  session 4 .schedulerRunOnce 8 { now := 100 } ++
    session 5 (.processJobMessage 1 8) 1 { now := 100 }

/-- **An acknowledged cancellation is lost**: `cancel_job` has returned, and job 1 is claimed again. -/
theorem acknowledged_cancellation_lost : ∃ c : System Env.standard, Reaches World.fresh lostSignal c ∧
    c.result 3 = some (.ok .ok) ∧ ¬ c.shared.db.Owns 1 8 2 ∧
      ∃ c' ∈ Runs.runFrom Config.step c startedAgain, c'.shared.db.Owns 1 8 2 :=
  exists_reaches World.fresh_initial _ (by decide +kernel)

/-- The call is a `cancel_job` of job `j`. -/
def Call.cancels (j : JobId) : Call → Bool
  | .cancelJob i => i == j
  | _ => false

/-- The cancellation of a waiting job is acknowledged, and nobody can claim the job. -/
theorem cancelled_job_not_claimed : ∃ c : System Env.standard, c.result 2 = some (.ok .ok) ∧
    ∀ w now lease, JobsRepo.claim c.shared.db 1 w now lease = (c.shared.db, false) := by
  obtain ⟨c, hc, hresult, t, ht, hcall⟩ := exists_reaches World.fresh_initial
    (admitJob noop ++ session 2 (.cancelJob 1) 2 {})
    (P := fun c => c.result 2 = some (.ok .ok) ∧ ∃ t ∈ c.threads 2, Call.cancels 1 t.call = true)
    (by decide +kernel)
  obtain ⟨call, hp⟩ := Config.result_eq_ok.mp hresult
  rw [Option.mem_def, hp] at ht
  cases ht
  cases call with
  | cancelJob j =>
      obtain rfl : j = 1 := eq_of_beq hcall
      exact ⟨c, hresult, no_claim_after_acknowledgement hc (by decide +kernel) hp⟩
  | _ => cases hcall

end PosttrainPlatform
