import PosttrainPlatform.Properties.Lifecycle

/-!
# Backoff

A requeued job carries a deadline in `next_retry_at`, and `claim` respects it.  Only
`clear_retry_dispatched` takes a deadline away without looking at it; where it takes none that is
still ahead, no retry starts early.
-/

namespace PosttrainPlatform

open Programs

/-- The clock reading that an event brings along. -/
def clockReading {env : Env} : SysEvent env → Option Time
  | .step _ i => some i.now
  | .ambient a => some a.2
  | .start .. | .fault .. | .crash _ => none

/-- The clock never goes back. -/
def MonotoneClock {env : Env} (es : List (SysEvent env)) : Prop :=
  (es.filterMap clockReading).Pairwise (· ≤ ·)

instance {env : Env} (es : List (SysEvent env)) : Decidable (MonotoneClock es) :=
  inferInstanceAs (Decidable (List.Pairwise _ _))

/-- A clear that takes effect on a queued job finds no deadline that is still ahead. -/
def ClearsDue (op : Op) (i : Input) (db : Db) : Prop :=
  ∀ j job, op = .clearRetryDispatched j → db.jobs.lookup j = some job → job.status = .queued →
    job.Due i.now

def ClearsDue.check (i : Input) (db : Db) : Op → Bool
  | .clearRetryDispatched j =>
      decide (∀ job ∈ db.jobs.lookup j, job.status = .queued → job.Due i.now)
  | _ => true

theorem ClearsDue.check_iff {op : Op} {i : Input} {db : Db} :
    check i db op = true ↔ ClearsDue op i db := by
  cases op
  case clearRetryDispatched j =>
      refine decide_eq_true_iff.trans ⟨?_, fun h job hj => h j job rfl hj⟩
      intro h j' job heq
      cases heq
      exact h job
  all_goals exact iff_of_true rfl fun _ _ h => by cases h

instance (op : Op) (i : Input) (db : Db) : Decidable (ClearsDue op i db) :=
  decidable_of_iff _ ClearsDue.check_iff

/-- The step takes job `j` from RUNNING back to QUEUED with the deadline `t`. -/
def Requeues {env : Env} (j : JobId) (t : Time) (c c' : System env) : Prop :=
  (∃ job ∈ c.shared.db.jobs.lookup j, job.status = .running) ∧
    ∃ job ∈ c'.shared.db.jobs.lookup j, job.status = .queued ∧ job.nextRetryAt = some t

instance {env : Env} (j : JobId) (t : Time) (c c' : System env) : Decidable (Requeues j t c c') :=
  inferInstanceAs (Decidable (_ ∧ _))

/-- The job holds no lease, and waits for `t` if it waits. -/
structure Job.Resting (t : Time) (job : Job) : Prop where
  owner : job.leaseOwner = none
  expiry : job.leaseExpiresAt = none
  enqueued : job.status ≠ .pending
  deadline : job.status = .queued → job.nextRetryAt = some t

/-- Whoever requeues a job takes its lease away. -/
theorem RowStep.resting {maxAttempts : ℕ} {job job' : Job} {t : Time}
    (h : RowStep maxAttempts job job') (hrun : job.status = .running) (hq : job'.status = .queued)
    (ht : job'.nextRetryAt = some t) : job'.Resting t := by
  have hne : job'.status ≠ .pending := by simp [hq]
  cases h with
  | @transition toStatus status hto hfrom =>
      have hedge := mem_sourcesFor hto hfrom
      have hq : status = .queued := hq
      rw [hrun, hq] at hedge
      simp [validTransitions] at hedge
  | setCancelRequested | updateConfig | softDelete | clearRetryDispatched | heartbeat =>
      rw [show job.status = JobStatus.queued from hq] at hrun
      cases hrun
  | claim => cases hq
  | finalize => exact ⟨rfl, rfl, hne, fun _ => ht⟩
  | reclaim => exact ⟨rfl, rfl, hne, fun _ => ht⟩

/-- **A resting job keeps its deadline, or the deadline has passed.** -/
theorem JobStep.resting {env : Env} {db : Db} {i : Input} {j : JobId} {op : Op} {v v' : JobView}
    {t : Time} (hv : db.core.view j = some v) (h : v.job.Resting t) (hop : ClearsDue op i db)
    (hstep : JobStep env db.core i j op v v') : v'.job.Resting t ∨ t ≤ i.now := by
  have hdue : v.job.status = .queued → v.job.Due i.now → t ≤ i.now := by
    intro hs hdue
    exact hdue t (h.deadline hs)
  cases hstep with
  | skip | setCancelRequested | updateConfig | softDelete | reserve =>
      exact Or.inl ⟨h.owner, h.expiry, h.enqueued, h.deadline⟩
  | @transition v toStatus status hto hfrom =>
      have hedge := mem_sourcesFor hto hfrom
      have hpending := h.enqueued
      have hnot : status ≠ .pending ∧ status ≠ .queued := by
        revert hedge hpending
        cases v.job.status <;> cases status <;> simp [validTransitions]
      exact Or.inl ⟨h.owner, h.expiry, hnot.1, fun hs => absurd hs hnot.2⟩
  | cancel => exact Or.inl ⟨h.owner, h.expiry, by simp, by simp⟩
  | clearRetryDispatched =>
      by_cases hs : v.job.status = .queued
      · exact Or.inr (hdue hs (hop j v.job rfl (Core.view_eq_some.mp hv).1 hs))
      · exact Or.inl ⟨h.owner, h.expiry, h.enqueued, fun hq => absurd hq hs⟩
  | claim hs _ hready => exact Or.inr (hdue hs hready)
  | finalize hown =>
      have howner := hown.2.1
      rw [h.owner] at howner
      cases howner
  | reclaim hs hexp =>
      obtain ⟨u, hu, _⟩ := hexp
      rw [h.expiry] at hu
      cases hu

/-- A heartbeat leaves a resting job alone. -/
theorem beat_resting {env : Env} {s : World} {p : ℕ} {now : Time} {j : JobId} {job : Job} {t : Time}
    (hj : s.db.jobs.lookup j = some job) (h : job.Resting t) :
    (s.beat env p now).db.jobs.lookup j = some job := by
  obtain hsame | ⟨row, w, k, u, hrow, hown, _⟩ := beat_lookup env s p now j
  · exact hsame.trans hj
  · have heq : row = job := Option.some.inj (hrow.symm.trans hj)
    have howner := hown.2.1
    rw [heq, h.owner] at howner
    cases howner

/-- The state before the deadline: job `j` rests, unless `t` has passed by the time `now`. -/
def RestsUntil {env : Env} (j : JobId) (t now : Time) (c : System env) : Prop :=
  (∃ job, c.shared.db.jobs.lookup j = some job ∧ job.Resting t) ∨ t ≤ now

theorem RestsUntil.step {env : Env} {j : JobId} {t now : Time} {c c' : System env}
    {e : SysEvent env} (h : RestsUntil j t now c) (hclock : ∀ r ∈ clockReading e, r ≤ now)
    (hok : Meets ClearsDue c e) (hstep : c.step e = some c') : RestsUntil j t now c' := by
  rcases h with ⟨job, hj, hrest⟩ | hpassed
  swap
  · exact Or.inr hpassed
  apply Config.shared_of_step (M := platform env)
    (I := fun s => (∃ job, s.db.jobs.lookup j = some job ∧ job.Resting t) ∨ t ≤ now)
    (Or.inl ⟨job, hj, hrest⟩) ?_ (fun _ => Or.inl ⟨job, hj, hrest⟩)
    (fun _ => Or.inl ⟨job, beat_resting hj hrest, hrest⟩) hstep
  intro p i call op k he hat
  subst he
  have hcore := perform_core env p i c.shared op
  obtain ⟨job', hj', _⟩ := hcore.rows.persists j job hj
  have hmove := hcore.views.moves j _ _ (Core.view_of_lookup hj) (Core.view_of_lookup hj')
  rcases hmove.resting (Core.view_of_lookup hj) hrest (hok call op k hat) with hrest' | hpassed
  · exact Or.inl ⟨job', hj', hrest'⟩
  · exact Or.inr (hpassed.trans (hclock i.now rfl))

/-- **A job that has been requeued is not claimed before its deadline**, in a run whose clears find
no deadline ahead. -/
theorem no_claim_before_deadline {env : Env} {c c₁ c₂ : System env} {e : SysEvent env}
    {gs : List (SysEvent env)} {j : JobId} {t : Time} {p : ℕ} {i : Input}
    (hstep : c.step e = some c₁) (hreq : Requeues j t c c₁)
    (hrun : Runs.runFrom Config.step c₁ gs = some c₂)
    (hclock : MonotoneClock (gs ++ [.step p i]))
    (hok : Runs.Always Config.step (Meets ClearsDue) c₁ gs)
    (hclaim : ClaimsJob j c₂ (.step p i) = true) : t ≤ i.now := by
  obtain ⟨⟨job, hj, hs⟩, job₁, hj₁, hs₁, ht⟩ := hreq
  have hrest : job₁.Resting t := by
    obtain ⟨row, hrow, hmove⟩ := (step_rows hstep).persists j job hj
    have hsame : row = job₁ := Option.some.inj (hrow.symm.trans hj₁)
    subst hsame
    rcases hmove with rfl | hmove
    · rw [hs] at hs₁
      cases hs₁
    · exact hmove.resting hs hs₁ ht
  have hreadings : ∀ e ∈ gs, ∀ r ∈ clockReading e, r ≤ i.now := by
    intro e he r hr
    unfold MonotoneClock at hclock
    rw [List.filterMap_append] at hclock
    apply (List.pairwise_append.mp hclock).2.2 r (List.mem_filterMap.mpr ⟨e, he, hr⟩)
    exact List.mem_cons_self
  have hend : RestsUntil j t i.now c₂ := by
    apply Runs.run_invariant_of_always (I := RestsUntil j t i.now) ?_ (Or.inl ⟨job₁, hj₁, hrest⟩)
      (Runs.always_and hok (Runs.always_of_mem hreadings c₁)) hrun
    intro m e m' hm hboth hmove
    exact hm.step hboth.2 hboth.1 hmove
  rcases hend with ⟨job₂, hj₂, hrest₂⟩ | hpassed
  · obtain ⟨call, op, k, _, hop⟩ := ClaimsJob.atOp hclaim
    obtain ⟨w, rfl, row, hrow, hready⟩ := Op.claims_eq_true.mp hop
    have hsame : row = job₂ := Option.some.inj (hrow.symm.trans hj₂)
    subst hsame
    exact hready.2.2.1 t (hrest₂.deadline hready.1)
  · exact hpassed

/-- The first attempt of job 1 fails at time 0, and recovery has listed the retry at time 2 and written
its event.  Before it clears the deadline, the second attempt fails as well. -/
def staleClear : List (SysEvent Env.standard) :=
  failedOnce ++ session 3 .recoveryRunOnce 3 { now := 2 } ++
    session 4 .schedulerRunOnce 8 { now := 2 } ++ session 5 (.processJobMessage 1 7) 12 { now := 2 }

/-- The clear, and the next admission of job 1, at time 3. -/
def clearedAndAdmitted : List (SysEvent Env.standard) :=
  proceed 3 1 { now := 2 } ++ session 6 .schedulerRunOnce 8 { now := 3 } ++
    [.start 7 (.processJobMessage 1 7)]

/-- **The backoff is bypassed**: job 1 is requeued for time 6 and claimed at time 3. -/
theorem retry_claimed_early : ∃ c : System Env.standard, Reaches World.fresh staleClear c ∧
    (∃ c₁ ∈ c.step (.step 5 { now := 2 }), Requeues 1 6 c c₁ ∧
      ∃ c₂ ∈ Runs.runFrom Config.step c₁ clearedAndAdmitted,
        ClaimsJob 1 c₂ (.step 7 { now := 3 }) = true) ∧
      MonotoneClock (staleClear ++ [.step 5 { now := 2 }] ++ clearedAndAdmitted ++
        [.step 7 { now := 3 }]) :=
  exists_reaches World.fresh_initial _ (by decide +kernel)

/-- The second attempt of job 1 is admitted when its deadline has passed. -/
def admittedLater : List (SysEvent Env.standard) :=
  session 4 .schedulerRunOnce 8 { now := 2 } ++ [.start 5 (.processJobMessage 1 7)]

/-- A retry that nobody clears starts when it is due. -/
theorem retry_claimed_in_time : ∃ c c₁ c₂ : System Env.standard, Requeues 1 2 c c₁ ∧
    Runs.runFrom Config.step c₁ admittedLater = some c₂ ∧
      ClaimsJob 1 c₂ (.step 5 { now := 2 }) = true ∧ (2 : Time) ≤ 2 := by
  have hrun : ∃ c ∈ Runs.runFrom Config.step ({ shared := World.fresh } : System Env.standard)
      (admitJob flaky ++ session 2 (.processJobMessage 1 7) 12 {}),
      ∃ c₁ ∈ c.step (.step 2 {}), Requeues 1 2 c c₁ ∧
        Runs.Always Config.step (Meets ClearsDue) c₁ admittedLater ∧
        ∃ c₂ ∈ Runs.runFrom Config.step c₁ admittedLater,
          ClaimsJob 1 c₂ (.step 5 { now := 2 }) = true := by
    decide +kernel
  obtain ⟨c, _, c₁, hstep, hreq, hok, c₂, hc₂, hclaim⟩ := hrun
  exact ⟨c, c₁, c₂, hreq, hc₂, hclaim,
    no_claim_before_deadline hstep hreq hc₂ (by decide +kernel) hok hclaim⟩

end PosttrainPlatform
