import PosttrainPlatform.Properties.Alone
import PosttrainPlatform.Properties.Rows

/-!
# One backoff law

The policy says how long the attempt after attempt `k` has to wait.  The worker waits as long when
attempt `k` fails; recovery, which reclaims a lost attempt `k`, computes the delay of attempt `k + 1`.
-/

namespace PosttrainPlatform

open Programs Service

/-! ### Delays -/

/-- The delays that the policy allows after attempt `k`. -/
def backoffBand (settings : Settings) (k : ℕ) : Set ℚ :=
  Set.Icc (cappedDelay settings k) (cappedDelay settings k * (1 + settings.jitterRatio))

/-- No delay and no jitter is negative. -/
structure Settings.Sensible (settings : Settings) : Prop where
  base : 0 ≤ settings.baseDelaySeconds
  max : 0 ≤ settings.maxDelaySeconds
  jitter : 0 ≤ settings.jitterRatio

section Delays

variable {settings : Settings} {k : ℕ}

/-- The exponential part doubles with each attempt. -/
theorem uncapped_succ (settings : Settings) (k : ℕ) :
    settings.baseDelaySeconds * 2 ^ (((k + 1 : ℕ) : ℤ) - 1) =
      2 * (settings.baseDelaySeconds * 2 ^ ((k : ℤ) - 1)) := by
  rw [show ((k + 1 : ℕ) : ℤ) - 1 = ((k : ℤ) - 1) + 1 by push_cast; ring,
    zpow_add_one₀ (two_ne_zero), ← mul_assoc, mul_comm]

theorem uncapped_nonneg (h : settings.Sensible) (k : ℕ) :
    0 ≤ settings.baseDelaySeconds * 2 ^ ((k : ℤ) - 1) :=
  mul_nonneg h.base (zpow_nonneg (by norm_num) _)

theorem cappedDelay_nonneg (h : settings.Sensible) (k : ℕ) : 0 ≤ cappedDelay settings k :=
  le_min (uncapped_nonneg h k) h.max

theorem cappedDelay_le_succ (h : settings.Sensible) (k : ℕ) :
    cappedDelay settings k ≤ cappedDelay settings (k + 1) := by
  unfold cappedDelay
  have hbase := uncapped_nonneg h k
  rw [uncapped_succ]
  exact min_le_min (by linarith) le_rfl

/-- Two attempts have the same delay when it has reached the cap, or is zero. -/
theorem cappedDelay_succ_le_iff (h : settings.Sensible) (k : ℕ) :
    cappedDelay settings (k + 1) ≤ cappedDelay settings k ↔ settings.baseDelaySeconds = 0 ∨
      settings.maxDelaySeconds ≤ settings.baseDelaySeconds * 2 ^ ((k : ℤ) - 1) := by
  have hpow : (0 : ℚ) < 2 ^ ((k : ℤ) - 1) := zpow_pos (by norm_num) _
  have hbase := uncapped_nonneg h k
  unfold cappedDelay
  rw [uncapped_succ]
  constructor
  · intro hle
    rcases le_or_gt settings.maxDelaySeconds (settings.baseDelaySeconds * 2 ^ ((k : ℤ) - 1)) with
      hcap | hcap
    · exact Or.inr hcap
    · refine Or.inl ?_
      rw [min_eq_left hcap.le] at hle
      rcases min_le_iff.mp hle with hdouble | hmax
      · have hzero : settings.baseDelaySeconds * 2 ^ ((k : ℤ) - 1) = 0 := by linarith
        exact (mul_eq_zero.mp hzero).resolve_right hpow.ne'
      · exact absurd hmax (not_le.mpr hcap)
  · rintro (hzero | hcap)
    · rw [hzero, zero_mul, mul_zero]
    · rw [min_eq_right hcap, min_eq_right (by linarith)]

/-- The delay that `compute_next_retry_at` computes is one of those that the policy allows. -/
theorem delay_mem_band (h : settings.Sensible) (now : Time) {draw : ℚ} (hdraw : 0 ≤ draw)
    (hdraw' : draw ≤ 1) : computeNextRetryAt settings k now draw - now ∈ backoffBand settings k := by
  have hjitter : 0 ≤ cappedDelay settings k * settings.jitterRatio :=
    mul_nonneg (cappedDelay_nonneg h k) h.jitter
  unfold computeNextRetryAt
  constructor
  · have := mul_nonneg hdraw hjitter
    linarith
  · have := mul_le_of_le_one_left hjitter hdraw'
    linarith

/-- The delay of the next attempt is allowed for this one, whatever is drawn, if both are the same. -/
theorem next_delay_mem_band (h : settings.Sensible) (now : Time) {draw : ℚ} (hdraw : 0 ≤ draw)
    (hdraw' : draw ≤ 1) (hsame : cappedDelay settings (k + 1) ≤ cappedDelay settings k) :
    computeNextRetryAt settings (k + 1) now draw - now ∈ backoffBand settings k := by
  have heq := le_antisymm hsame (cappedDelay_le_succ h k)
  have hmem := delay_mem_band (k := k + 1) h now hdraw hdraw'
  unfold backoffBand at hmem ⊢
  rwa [heq] at hmem

/-- The largest draw leaves the band, unless both delays are the same. -/
theorem same_of_full_draw (h : settings.Sensible) {now : Time}
    (hmem : computeNextRetryAt settings (k + 1) now 1 - now ∈ backoffBand settings k) :
    cappedDelay settings (k + 1) ≤ cappedDelay settings k := by
  have hupper : cappedDelay settings (k + 1) * (1 + settings.jitterRatio) ≤
      cappedDelay settings k * (1 + settings.jitterRatio) := by
    have := hmem.2
    unfold computeNextRetryAt at this
    linarith
  exact le_of_mul_le_mul_right hupper (by linarith [h.jitter])

end Delays

/-! ### The two paths -/

/-- A call that takes no time, with random fractions. -/
structure Supply.Instant (supply : Supply) (now : Time) : Prop where
  clock : ∀ op s, (supply op s).now = now
  drawn : ∀ op s, 0 ≤ (supply op s).draw ∧ (supply op s).draw ≤ 1

/-- The job waits for a retry, after a delay from the set. -/
def RetriesAfter (db : Db) (j : JobId) (now : Time) (delays : Set ℚ) : Prop :=
  ∀ job, db.jobs.lookup j = some job → job.status = .queued →
    ∃ t, job.nextRetryAt = some t ∧ t - now ∈ delays

/-- **One backoff law** for attempt `k`: whether it has failed in the worker, or has been lost and
reclaimed by recovery, the next one waits as long as the policy says. -/
structure OneBackoffLaw (env : Env) (k : ℕ) : Prop where
  failed : ∀ (p : ℕ) (supply : Supply) (now : Time) (s : World) (j : JobId) (w : WorkerId)
    (job : Job) (outcome : AttemptOutcome) (loaded : Option Job), supply.Instant now →
    s.db.jobs.lookup j = some job → job.OwnedBy w k →
    RetriesAfter (evalAlone env p supply (conclude env j w k outcome loaded) s).2.db j now
      (backoffBand env.settings k)
  lost : ∀ (p : ℕ) (supply : Supply) (now : Time) (s : World) (j : JobId) (job : Job),
    supply.Instant now → s.db.jobs.lookup j = some job → job.status = .running →
    job.attemptNumber = k →
    RetriesAfter (evalAlone env p supply reclaimStaleLeases s).2.db j now
      (backoffBand env.settings k)
  monotone : cappedDelay env.settings k ≤ cappedDelay env.settings (k + 1)
  bounded : ∀ d ∈ backoffBand env.settings k,
    d ≤ env.settings.maxDelaySeconds * (1 + env.settings.jitterRatio)

section Rows

variable {env : Env} {c c' : Core} {i : Input} {j j' : JobId}

/-- What `finalize` does to the rows. -/
theorem CoreStep.finalize_row {w : WorkerId} {k : ℕ} {ending : Ending}
    (h : CoreStep env c i (.finalize j w k ending) c') (j' : JobId) :
    c'.jobs.lookup j' = c.jobs.lookup j' ∨ j' = j ∧ ∃ job, c.jobs.lookup j = some job ∧
      c'.jobs.lookup j = some (job.finalized ending) := by
  cases h with
  | skip => exact Or.inl rfl
  | finalize hj hown hp hdlq hrel =>
      rw [hrel.jobs_eq, hdlq.jobs_eq, Core.lookup_putJob, Core.lookup_putJob, if_pos rfl]
      by_cases hjj : j' = j
      · exact Or.inr ⟨hjj, _, hj, rfl⟩
      · exact Or.inl (if_neg hjj)

/-- What `reclaim` does to the rows. -/
theorem CoreStep.reclaim_row {t : Time} (h : CoreStep env c i (.reclaim j t) c') (j' : JobId) :
    c'.jobs.lookup j' = c.jobs.lookup j' ∨ j' = j ∧ ∃ job, c.jobs.lookup j = some job ∧
      job.status = .running ∧
      c'.jobs.lookup j = some (job.reclaimed env.settings.maxAttempts t) := by
  cases h with
  | skip => exact Or.inl rfl
  | reclaim hj hs hexp hrel =>
      rw [hrel.jobs_eq, Core.lookup_putJob, Core.lookup_putJob, if_pos rfl]
      by_cases hjj : j' = j
      · exact Or.inr ⟨hjj, _, hj, hs, rfl⟩
      · exact Or.inl (if_neg hjj)

end Rows

section Paths

variable {env : Env} {p : ℕ} {supply : Supply} {now : Time} {s : World} {j : JobId} {job : Job}
  {k : ℕ}

/-- A row that is not queued waits for no retry. -/
theorem retriesAfter_of_row {db : Db} {delays : Set ℚ} (hj : db.jobs.lookup j = some job)
    (hrow : job.status = .queued → ∃ t, job.nextRetryAt = some t ∧ t - now ∈ delays) :
    RetriesAfter db j now delays := by
  intro row hrow' hs
  cases hj.symm.trans hrow'
  exact hrow hs

/-- The finalisation of a running job. -/
theorem retriesAfter_finish {w : WorkerId} {ending : Ending} {delays : Set ℚ}
    (hj : s.db.jobs.lookup j = some job) (hs : job.status = .running)
    (hending : ∀ t m c d, ending = .retry t m c d → t - now ∈ delays) :
    RetriesAfter (evalAlone env p supply (finish j w k ending) s).2.db j now delays := by
  have hrow : RetriesAfter
      ((Op.finalize j w k ending).perform env p (supply (.finalize j w k ending) s) s).1.db j now
      delays := by
    obtain hsame | ⟨_, row, hrow, hfinal⟩ :=
      (perform_core env p (supply (.finalize j w k ending) s) s (.finalize j w k ending)).finalize_row j
    · refine retriesAfter_of_row (hsame.trans hj) fun hq => ?_
      rw [hs] at hq
      cases hq
    · refine retriesAfter_of_row hfinal fun hq => ?_
      cases ending with
      | retry t m c d => exact ⟨t, rfl, hending t m c d rfl⟩
      | cancelled | succeeded | failed => cases hq
  have hlast : (evalAlone env p supply (finish j w k ending) s).2 =
      ((Op.finalize j w k ending).perform env p (supply (.finalize j w k ending) s) s).1 :=
    evalAlone_last (.finalize j w k ending) (fun b s => by cases b <;> rfl) s
  rw [hlast]
  exact hrow

/-- **The worker's path.** -/
theorem retriesAfter_conclude (h : env.settings.Sensible) (hsupply : supply.Instant now)
    (hj : s.db.jobs.lookup j = some job) (hs : job.status = .running) (w : WorkerId)
    (outcome : AttemptOutcome) (loaded : Option Job) :
    RetriesAfter (evalAlone env p supply (conclude env j w k outcome loaded) s).2.db j now
      (backoffBand env.settings k) := by
  have hrest : job.status ≠ .queued := by simp [hs]
  have hkept : RetriesAfter s.db j now (backoffBand env.settings k) :=
    retriesAfter_of_row hj fun hq => absurd hq hrest
  have hfinish : ∀ ending, (∀ t m c d, ending = .retry t m c d →
      t - now ∈ backoffBand env.settings k) →
      RetriesAfter (evalAlone env p supply (finish j w k ending) s).2.db j now
        (backoffBand env.settings k) := fun ending => retriesAfter_finish hj hs
  rw [show evalAlone env p supply (conclude env j w k outcome loaded) s = _ from evalAlone_read rfl]
  by_cases habandoned : (s.heartbeats p).any fun hb => hb.abandoned
  · rw [if_pos habandoned]
    exact hkept
  rw [if_neg habandoned, evalAlone_read rfl]
  by_cases hseen : cancelSeen (JobsRepo.get s.db j) loaded = true
  · rw [if_pos hseen]
    exact hfinish .cancelled nofun
  rw [if_neg hseen]
  cases outcome with
  | succeeded => exact hfinish .succeeded nofun
  | failed message classification domain =>
      by_cases hretry : isRetryable (classification.getD "unknown") k env.settings.maxAttempts = true
      · let i := supply (.nextRetryAt k) s
        have hending : evalAlone env p supply (endingOf env k (.failed message classification domain)) s =
            (.ok (.retry (computeNextRetryAt env.settings k i.now i.draw) message
              (classification.getD "unknown") domain), s) := by
          show evalAlone env p supply (if _ then _ else _) s = _
          rw [if_pos hretry, evalAlone_read rfl]
          rfl
        rw [evalAlone, Prog.eval_bind_ok hending]
        refine hfinish _ fun t m c d heq => ?_
        cases heq
        rw [← hsupply.clock (.nextRetryAt k) s]
        exact delay_mem_band h _ (hsupply.drawn _ _).1 (hsupply.drawn _ _).2
      · have hending : evalAlone env p supply (endingOf env k (.failed message classification domain)) s =
            (.ok (.failed message (classification.getD "unknown") domain), s) := by
          show evalAlone env p supply (if _ then _ else _) s = _
          rw [if_neg hretry]
          rfl
        rw [evalAlone, Prog.eval_bind_ok hending]
        exact hfinish _ nofun

/-! ### Recovery's path -/

/-- Job `j` is still lost in attempt `k`, or has been reclaimed with a delay from the set. -/
def LostOrReclaimed (j : JobId) (job : Job) (now : Time) (delays : Set ℚ) (s : World) : Prop :=
  s.db.jobs.lookup j = some job ∨ ∃ row, s.db.jobs.lookup j = some row ∧ row.status ≠ .running ∧
    (row.status = .queued → ∃ t, row.nextRetryAt = some t ∧ t - now ∈ delays)

/-- The delays that recovery draws for attempt `k`, if it is not the last one. -/
def recoveryDelays (env : Env) (k : ℕ) : Set ℚ :=
  { d | k < env.settings.maxAttempts ∧ ∃ now draw : ℚ, 0 ≤ draw ∧ draw ≤ 1 ∧
    d = computeNextRetryAt env.settings (k + 1) now draw - now }

/-- One `reclaim`. -/
theorem LostOrReclaimed.reclaim {delays : Set ℚ} (h : LostOrReclaimed j job now delays s)
    {j' : JobId} {t : Time} {i : Input}
    (ht : j' = j → s.db.jobs.lookup j = some job → job.attemptNumber < env.settings.maxAttempts →
      t - now ∈ delays) :
    LostOrReclaimed j job now delays ((Op.reclaim j' t).perform env p i s).1 := by
  obtain hsame | ⟨rfl, row, hrow, hrun, hreclaimed⟩ :=
    (perform_core env p i s (.reclaim j' t)).reclaim_row j
  · have hsame : ((Op.reclaim j' t).perform env p i s).1.db.jobs.lookup j = s.db.jobs.lookup j := hsame
    unfold LostOrReclaimed
    rw [hsame]
    exact h
  · rcases h with hlost | ⟨row', hrow', hnot, _⟩
    · cases hlost.symm.trans hrow
      refine Or.inr ⟨_, hreclaimed, ?_, fun hq => ⟨t, if_pos hq, ht rfl hlost ?_⟩⟩
      · show JobsRepo.reclaimedStatus job env.settings.maxAttempts ≠ .running
        unfold JobsRepo.reclaimedStatus
        split
        · simp
        · split <;> simp
      · by_contra hlast
        have hq : JobsRepo.reclaimedStatus job env.settings.maxAttempts = .queued := hq
        unfold JobsRepo.reclaimedStatus at hq
        rw [if_pos (not_lt.mp hlast)] at hq
        split at hq <;> cases hq
    · cases hrow'.symm.trans hrow
      exact absurd hrun hnot

/-- The turn of an object whose row is the one in the table, and the turns after it. -/
theorem LostOrReclaimed.turn (hsupply : supply.Instant now) (hk : job.attemptNumber = k)
    (h : LostOrReclaimed j job now (recoveryDelays env k) s) {j' : JobId} {row : Job}
    (hrow : s.db.jobs.lookup j' = some row) {rest : Bool → Service ℕ}
    (hrest : ∀ b s', LostOrReclaimed j job now (recoveryDelays env k) s' →
      LostOrReclaimed j job now (recoveryDelays env k) (evalAlone env p supply (rest b) s').2) :
    LostOrReclaimed j job now (recoveryDelays env k) (evalAlone env p supply
      (exec (.nextRetryAt (row.attemptNumber + 1)) >>= fun t =>
        exec (.reclaim j' t) >>= rest) s).2 := by
  rw [evalAlone_read rfl]
  generalize ht : computeNextRetryAt env.settings (row.attemptNumber + 1)
    (supply (.nextRetryAt (row.attemptNumber + 1)) s).now
    (supply (.nextRetryAt (row.attemptNumber + 1)) s).draw = t
  have hreclaimed : LostOrReclaimed j job now (recoveryDelays env k)
      ((Op.reclaim j' t).perform env p (supply (.reclaim j' t) s) s).1 := by
    refine h.reclaim fun hjj hlost hmore => ?_
    subst hjj
    cases hrow.symm.trans hlost
    rw [← ht, hsupply.clock, hk]
    exact ⟨hk ▸ hmore, now, _, (hsupply.drawn _ _).1, (hsupply.drawn _ _).2, rfl⟩
  obtain ⟨b, s', hperform, heval⟩ | ⟨e, s', hperform, heval⟩ :=
    evalAlone_cases (.reclaim j' t) rest s
  · rw [hperform] at hreclaimed
    rw [heval]
    exact hrest b s' hreclaimed
  · rw [hperform] at hreclaimed
    rw [heval]
    exact hreclaimed

/-- The loop, over objects that are expired. -/
theorem LostOrReclaimed.loop (hsupply : supply.Instant now) (hk : job.attemptNumber = k)
    (js : List JobId) (reclaimed : ℕ) (h : LostOrReclaimed j job now (recoveryDelays env k) s) :
    LostOrReclaimed j job now (recoveryDelays env k)
      (evalAlone env p supply (reclaimAll (js.map fun j => (j, none)) reclaimed) s).2 := by
  induction js generalizing s reclaimed with
  | nil => exact h
  | cons j' js ih =>
      have hrefresh : evalAlone env p supply (refresh j' none) s =
          evalAlone env p supply (found .databaseError (s.db.jobs.lookup j')) s := evalAlone_read rfl
      cases hrow : s.db.jobs.lookup j' with
      | none =>
          rw [hrow] at hrefresh
          show LostOrReclaimed j job now (recoveryDelays env k)
            (evalAlone env p supply (refresh j' none >>= _) s).2
          rw [evalAlone, Prog.eval_bind_error (hrefresh.trans rfl)]
          exact h
      | some row =>
          rw [hrow] at hrefresh
          show LostOrReclaimed j job now (recoveryDelays env k)
            (evalAlone env p supply (refresh j' none >>= _) s).2
          rw [evalAlone, Prog.eval_bind_ok (hrefresh.trans rfl)]
          exact h.turn hsupply hk hrow fun b s' hs' => ih _ hs'

/-- **Recovery's path.** -/
theorem lostOrReclaimed_reclaimStaleLeases (hsupply : supply.Instant now)
    (hj : s.db.jobs.lookup j = some job) (hk : job.attemptNumber = k) :
    LostOrReclaimed j job now (recoveryDelays env k)
      (evalAlone env p supply reclaimStaleLeases s).2 := by
  have hlost : LostOrReclaimed j job now (recoveryDelays env k) s := Or.inl hj
  unfold reclaimStaleLeases
  rw [evalAlone_read rfl]
  generalize hstale : JobsRepo.listStaleLeases s.db (supply .listStaleLeases s).now = stale
  cases stale with
  | nil => exact hlost
  | cons c rest =>
      obtain ⟨j', row⟩ := c
      have hrow : s.db.jobs.lookup j' = some row := by
        have hmem : (j', row) ∈ JobsRepo.listStaleLeases s.db (supply .listStaleLeases s).now := by
          rw [hstale]
          exact List.mem_cons_self
        exact Table.mem_rows.mp (List.mem_filter.mp hmem).1
      have hrest : (rest.map fun r => (r.1, (none : Option Job))) =
          (rest.map Prod.fst).map fun j => (j, none) := by
        rw [List.map_map]
        rfl
      refine hlost.turn hsupply hk hrow fun b s' hs' => ?_
      rw [hrest]
      exact hs'.loop hsupply hk _ _

end Paths

/-! ### The law -/

/-- Job 1, lost in attempt `k` at time 0. -/
def lostJob (k : ℕ) : Job where
  jobType := "noop"
  status := .running
  config := none
  priority := 0
  createdAt := 0
  leaseOwner := some 7
  leaseExpiresAt := some 0
  attemptNumber := k

def lostWorld (k : ℕ) : World where
  db := { Db.initial with jobs := AList.insert 1 (lostJob k) ∅ }

/-- Recovery requeues the lost job, with the delay of the next attempt. -/
theorem lostWorld_reclaimed (env : Env) (k : ℕ) :
    (evalAlone env 0 (fun _ _ => { now := 1, draw := 1 }) reclaimStaleLeases
      (lostWorld k)).2.db.jobs.lookup 1 = some ((lostJob k).reclaimed env.settings.maxAttempts
        (computeNextRetryAt env.settings (k + 1) 1 1)) := by
  have hstale : JobsRepo.listStaleLeases (lostWorld k).db 1 = [(1, lostJob k)] := by
    show List.filter _ [(1, lostJob k)] = _
    rw [List.filter_cons_of_pos, List.filter_nil]
    exact decide_eq_true ⟨rfl, ⟨0, rfl, by norm_num⟩, rfl⟩
  unfold reclaimStaleLeases
  rw [evalAlone_read rfl]
  show (evalAlone env 0 _ (reclaimAll (loadedOnce (JobsRepo.listStaleLeases (lostWorld k).db 1)) 0)
    (lostWorld k)).2.db.jobs.lookup 1 = _
  rw [hstale]
  show (evalAlone env 0 _ (exec (.nextRetryAt (k + 1)) >>= fun t =>
    exec (.reclaim 1 t) >>= fun won => pure (if won then 1 else 0)) (lostWorld k)).2.db.jobs.lookup 1 = _
  rw [evalAlone_read rfl, evalAlone_last _ (fun _ _ => rfl)]
  generalize ht : computeNextRetryAt env.settings (k + 1) 1 1 = t
  have hexpired : (lostJob k).status = .running ∧ (lostJob k).LeaseExpired 1 :=
    ⟨rfl, 0, rfl, by norm_num⟩
  have hreclaim : JobsRepo.reclaimStale (lostWorld k).db 1 env.settings.maxAttempts t 1 =
      ({ (lostWorld k).db with
        jobs := (lostWorld k).db.jobs.insert 1 ((lostJob k).reclaimed env.settings.maxAttempts t) },
        true) := by
    unfold JobsRepo.reclaimStale JobsRepo.updateWhere
    rw [show (lostWorld k).db.jobs.lookup 1 = some (lostJob k) from rfl]
    exact if_pos hexpired
  show (World.tryWrite _ (reclaimTx env (lostWorld k).db 1 t 1)).1.db.jobs.lookup 1 = _
  unfold reclaimTx
  rw [hreclaim]
  rfl

/-- **Both paths obey one law exactly if attempt `k` is the last one, or its delay is zero or has reached
the cap.** -/
theorem one_backoff_law_iff (env : Env) (h : env.settings.Sensible) (k : ℕ) :
    OneBackoffLaw env k ↔ env.settings.maxAttempts ≤ k ∨ env.settings.baseDelaySeconds = 0 ∨
      env.settings.maxDelaySeconds ≤ env.settings.baseDelaySeconds * 2 ^ ((k : ℤ) - 1) := by
  constructor
  · intro hlaw
    by_contra hnot
    push Not at hnot
    obtain ⟨hlast, hbase, hcap⟩ := hnot
    obtain ⟨t, ht, hmem⟩ := hlaw.lost 0 (fun _ _ => { now := 1, draw := 1 }) 1 (lostWorld k) 1
      (lostJob k) ⟨fun _ _ => rfl, fun _ _ => ⟨zero_le_one, le_rfl⟩⟩ rfl rfl rfl _
      (lostWorld_reclaimed env k) (if_neg (not_le.mpr hlast))
    have ht' : some (computeNextRetryAt env.settings (k + 1) 1 1) = some t :=
      (if_pos (if_neg (not_le.mpr hlast))).symm.trans ht
    cases ht'
    rcases (cappedDelay_succ_le_iff h k).mp (same_of_full_draw h hmem) with hzero | hreached
    · exact hbase hzero
    · exact absurd hcap (not_lt.mpr hreached)
  · intro hcond
    refine ⟨fun p supply now s j w job outcome loaded hsupply hj hown => ?_,
      fun p supply now s j job hsupply hj hs hk => ?_, cappedDelay_le_succ h k, fun d hd => ?_⟩
    · exact retriesAfter_conclude h hsupply hj hown.1 w outcome loaded
    · intro row hrow hq
      rcases lostOrReclaimed_reclaimStaleLeases (p := p) hsupply hj hk with
        hlost | ⟨row', hrow', _, hretry⟩
      · cases hlost.symm.trans hrow
        rw [hs] at hq
        cases hq
      · cases hrow'.symm.trans hrow
        obtain ⟨t, ht, hmore, now', draw, hdraw, hdraw', heq⟩ := hretry hq
        refine ⟨t, ht, ?_⟩
        rw [heq]
        exact next_delay_mem_band h now' hdraw hdraw'
          ((cappedDelay_succ_le_iff h k).mpr (hcond.resolve_left (not_le.mpr hmore)))
    · refine hd.2.trans (mul_le_mul_of_nonneg_right (min_le_right _ _) ?_)
      linarith [h.jitter]

/-- The settings without a delay. -/
def impatient : Env := { Env.standard with settings := { Settings.default with baseDelaySeconds := 0 } }

/-- With the default settings recovery makes the second attempt wait twice as long. -/
theorem lost_attempt_waits_longer : ¬ OneBackoffLaw Env.standard 1 := by
  intro h
  obtain ⟨t, ht, hmem⟩ := h.lost 0 (fun _ _ => { now := 1, draw := 1 }) 1 (lostWorld 1) 1 (lostJob 1)
    ⟨fun _ _ => rfl, fun _ _ => ⟨zero_le_one, le_rfl⟩⟩ rfl rfl rfl _
    (lostWorld_reclaimed Env.standard 1) rfl
  cases (show some (computeNextRetryAt Settings.default 2 1 1) = some t from ht)
  have hupper : computeNextRetryAt Settings.default 2 1 1 - 1 ≤
      cappedDelay Settings.default 1 * (1 + Settings.default.jitterRatio) := hmem.2
  revert hupper
  decide +kernel

/-- Without a delay there is nothing to disagree about. -/
theorem impatient_law : OneBackoffLaw impatient 1 :=
  (one_backoff_law_iff impatient ⟨le_refl 0, by decide +kernel, by decide +kernel⟩ 1).mpr
    (Or.inr (Or.inl rfl))

end PosttrainPlatform
