import PosttrainPlatform.Properties.Lifecycle

/-!
# Status changes through the API

The other writers of a status maintain lease, reservation and capacity beside it; `transition` writes
the status alone.  So a PATCH keeps the three together exactly where they do not have to move.
-/

namespace PosttrainPlatform

open Programs Service

/-- The lease and the reservations of a job fit its status. -/
structure Job.Consistent (job : Job) (reservations : Table (JobId × ℕ) Reservation) (j : JobId) :
    Prop where
  running : job.status = .running → job.leaseOwner.isSome ∧ job.leaseExpiresAt.isSome ∧
    JobsRepo.HasReservation reservations j job.attemptNumber
  idle : job.status ≠ .running → job.leaseOwner = none ∧ job.leaseExpiresAt = none
  settled : job.status.Terminal → ∀ k, ¬ JobsRepo.HasReservation reservations j k

/-- Every job that is not deleted is consistent. -/
def Db.Consistent (db : Db) : Prop :=
  ∀ j job, db.jobs.lookup j = some job → job.Present → job.Consistent db.reservations j

/-- The PATCH matches nothing, enqueues the job, or cancels a queued job without a reservation. -/
def PatchFits (db : Db) (j : JobId) (toStatus : String) : Prop :=
  ∀ job, db.jobs.lookup j = some job → job.Present → job.status ∈ sourcesFor toStatus →
    toStatus = JobStatus.queued.value ∨ (toStatus = JobStatus.cancelled.value ∧
      job.status = .queued ∧ ∀ k, ¬ JobsRepo.HasReservation db.reservations j k)

/-- **What a PATCH of a status owes the other tables.** -/
structure PatchLaw (env : Env) (p : ℕ) (s : World) (j : JobId) (toStatus : String) : Prop where
  /-- Lease and reservations fit the new status. -/
  consistent : ∀ r s', EndsAlone env p (updateJob j (some toStatus) none) s r s' → s'.db.Consistent
  /-- Every RUNNING job is listed as stale once time passes. -/
  recoverable : ∀ r s', EndsAlone env p (updateJob j (some toStatus) none) s r s' →
    ∀ i job, s'.db.jobs.lookup i = some job → job.Present → job.status = .running →
      ∃ t, ∀ now, t < now → (i, job) ∈ JobsRepo.listStaleLeases s'.db now
  /-- A PATCH to CANCELLED does to reservations and capacity what `cancel_job` does. -/
  cancels : toStatus = JobStatus.cancelled.value → ∀ r s' r' s'',
    EndsAlone env p (updateJob j (some toStatus) none) s r s' →
      EndsAlone env p (cancelJob j) s r' s'' →
        s'.db.reservations = s''.db.reservations ∧ s'.db.capacity = s''.db.capacity

/-! ### The two calls, run alone -/

section Alone

variable {env : Env} {p : ℕ} {s s' : World} {j : JobId}

/-- The statement only reads a job. -/
def Op.ReadsJob (op : Op) : Prop := ∃ j, op = .getJob j

/-- A program that only reads jobs leaves everything alone. -/
theorem ends_reads {α : Type} {prog : Service α} {r : Except Exn α} (hp : prog.All Op.ReadsJob)
    (h : EndsAlone env p prog s r s') : s' = s := by
  apply Prog.Leads.invariant (I := fun m => m = s) h hp ?_ rfl
  intro op i m hop hm
  obtain ⟨j, rfl⟩ := hop
  exact hm

theorem reads_getIf (matched : Bool) (j : JobId) : (getIf matched j).All Op.ReadsJob :=
  all_getIf ⟨j, rfl⟩

theorem reads_getJobOr404 (j : JobId) : (getJobOr404 j).All Op.ReadsJob :=
  Prog.all_perform_bind.mpr ⟨⟨j, rfl⟩, fun _ => all_found _ _⟩

/-- What `get_job` returns is the row of a present job. -/
theorem ends_getJobOr404 {job : Job} (h : EndsAlone env p (getJobOr404 j) s (.ok job) s') :
    s.db.jobs.lookup j = some job ∧ job.Present := by
  obtain ⟨i, _, ⟨e, hr, _⟩ | ⟨row, hr, hrest⟩⟩ := Prog.ends_perform_bind h
  · cases hr
  · cases hr
    cases hget : JobsRepo.get s.db j with
    | none =>
        rw [hget] at hrest
        obtain ⟨hr, _⟩ := Prog.ends_raise.mp hrest
        cases hr
    | some row =>
        rw [hget] at hrest
        obtain ⟨hr, _⟩ := Prog.ends_ret.mp hrest
        cases hr
        obtain ⟨hj, hp⟩ := Option.filter_eq_some_iff.mp hget
        exact ⟨hj, of_decide_eq_true hp⟩

/-- After its `UPDATE` the transition only reads. -/
theorem ends_transition {toStatus : String} {r : Except Exn Job}
    (h : EndsAlone env p (transition j toStatus) s r s') :
    s'.db = (transitionTx s.db j toStatus).1 := by
  obtain ⟨i, _, ⟨e, _, hr, _⟩ | ⟨matched, _, htail⟩⟩ := Prog.ends_perform_bind h
  · cases hr
  · refine congrArg World.db (ends_reads ?_ htail)
    refine Prog.all_bind (reads_getIf matched j) fun job => ?_
    cases job with
    | some job => trivial
    | none => exact Prog.all_bind (reads_getJobOr404 j) fun _ => trivial

/-- **A PATCH of a status is the conditional transition.** -/
theorem ends_updateJob {toStatus : String} {r : Except Exn Unit}
    (h : EndsAlone env p (updateJob j (some toStatus) none) s r s') :
    s'.db = (transitionTx s.db j toStatus).1 := by
  rcases Prog.ends_bind h with ⟨e, rfl, htr⟩ | ⟨job, s₁, htr, hend⟩
  · exact ends_transition htr
  · obtain ⟨_, rfl⟩ := Prog.ends_ret.mp hend
    exact ends_transition htr

/-- **`cancel_job` releases nothing when there is nothing to release.** -/
theorem ends_cancelJob {r : Except Exn Unit}
    (hfree : ∀ job, s.db.jobs.lookup j = some job → job.Present → job.status = .queued →
      ∀ k, ¬ JobsRepo.HasReservation s.db.reservations j k)
    (h : EndsAlone env p (cancelJob j) s r s') :
    s'.db.reservations = s.db.reservations ∧ s'.db.capacity = s.db.capacity := by
  rcases Prog.ends_bind h with ⟨e, rfl, hget⟩ | ⟨current, s₁, hget, hrest⟩
  · rw [ends_reads (reads_getJobOr404 j) hget]
    exact ⟨rfl, rfl⟩
  obtain ⟨hj, hp⟩ := ends_getJobOr404 hget
  obtain rfl : s₁ = s := ends_reads (reads_getJobOr404 j) hget
  have hcancel : ∀ i, (((Op.cancel j current.attemptNumber).perform env p i s₁).1.db.reservations =
      s₁.db.reservations ∧ ((Op.cancel j current.attemptNumber).perform env p i s₁).1.db.capacity =
      s₁.db.capacity) ∨ current.status = .running := by
    intro i
    have hcore := perform_core env p i s₁ (.cancel j current.attemptNumber)
    generalize hc : ((Op.cancel j current.attemptNumber).perform env p i s₁).1.db.core = c' at hcore
    have hres : ((Op.cancel j current.attemptNumber).perform env p i s₁).1.db.reservations =
        c'.reservations := congrArg Core.reservations hc
    have hcap : ((Op.cancel j current.attemptNumber).perform env p i s₁).1.db.capacity =
        c'.capacity := congrArg Core.capacity hc
    rw [hres, hcap]
    cases hcore with
    | skip => exact Or.inl ⟨rfl, rfl⟩
    | @cancel j k job c' hj' hfrom hp' hrel =>
        have hsame : job = current := Option.some.inj (hj'.symm.trans hj)
        subst hsame
        by_cases hrun : job.status = .running
        · exact Or.inr hrun
        · have hq : job.status = .queued := by
            revert hfrom hrun
            cases job.status <;> decide
          rcases hrel with ⟨rfl, _⟩ | ⟨row, hrow, hact, _⟩
          · exact Or.inl ⟨rfl, rfl⟩
          · exact absurd ⟨row, hrow, hact⟩ (hfree job hj hp hq _)
  cases hs : current.status with
  | pending | queued =>
      simp only [hs] at hrest
      obtain ⟨i, _, hcases⟩ := Prog.ends_perform_bind hrest
      have hsame := (hcancel i).resolve_right (by simp [hs])
      rcases hcases with ⟨e, _, _, rfl⟩ | ⟨matched, _, hcheck⟩
      · exact hsame
      · rw [ends_reads (all_check _ _) hcheck]
        exact hsame
  | running =>
      simp only [hs] at hrest
      obtain ⟨i, _, hcases⟩ := Prog.ends_perform_bind hrest
      have hsame : ((Op.setCancelRequested j).perform env p i s₁).1.db.reservations =
          s₁.db.reservations ∧ ((Op.setCancelRequested j).perform env p i s₁).1.db.capacity =
          s₁.db.capacity := by
        simp only [Op.perform]
        generalize hr : JobsRepo.setCancelRequested s₁.db j = result
        obtain rfl | ⟨job, _, _, rfl⟩ := JobsRepo.updateWhere_cases hr
        · exact ⟨rfl, rfl⟩
        · exact ⟨rfl, rfl⟩
      rcases hcases with ⟨e, _, _, rfl⟩ | ⟨matched, _, htail⟩
      · exact hsame
      · have hend := ends_reads (Prog.all_bind (reads_getIf matched j) fun job => by
          cases job with
          | some job => trivial
          | none => exact Prog.all_bind (reads_getJobOr404 j) fun _ => trivial) htail
        rw [hend]
        exact hsame
  | succeeded | failed | cancelled =>
      simp only [hs] at hrest
      obtain ⟨_, rfl⟩ := Prog.ends_raise.mp hrest
      exact ⟨rfl, rfl⟩

end Alone

/-! ### The law -/

/-- A text that is a legal target is the text of a status. -/
theorem exists_parse_of_mem {toStatus : String} {a : JobStatus} (h : a ∈ sourcesFor toStatus) :
    ∃ status, JobStatus.parse toStatus = some status := by
  cases hto : JobStatus.parse toStatus with
  | some status => exact ⟨status, rfl⟩
  | none =>
      rw [sourcesFor_of_parse_none hto] at h
      cases h

theorem value_of_parse {toStatus : String} {status : JobStatus}
    (h : JobStatus.parse toStatus = some status) : toStatus = status.value := by
  have htext := List.find?_some h
  exact (eq_of_beq htext).symm

/-- The transition of a job that matches. -/
theorem transitionTx_of_mem {db : Db} {j : JobId} {toStatus : String} {status : JobStatus}
    {job : Job} (hto : JobStatus.parse toStatus = some status) (hj : db.jobs.lookup j = some job)
    (hp : job.Present) (hfrom : job.status ∈ sourcesFor toStatus) :
    (transitionTx db j toStatus).1 = { db with jobs := db.jobs.insert j { job with status } } := by
  have hboth : job.status ∈ sourcesFor toStatus ∧ job.Present := ⟨hfrom, hp⟩
  simp only [transitionTx, hto, JobsRepo.conditionalTransition, JobsRepo.updateWhere, hj,
    if_pos hboth]

theorem transitionTx_cases (db : Db) (j : JobId) (toStatus : String) :
    (transitionTx db j toStatus).1 = db ∨ ∃ status job, JobStatus.parse toStatus = some status ∧
      db.jobs.lookup j = some job ∧ job.Present ∧ job.status ∈ sourcesFor toStatus ∧
        (transitionTx db j toStatus).1 =
          { db with jobs := db.jobs.insert j { job with status } } := by
  unfold transitionTx
  cases hto : JobStatus.parse toStatus with
  | none => exact Or.inl rfl
  | some status =>
      simp only
      generalize hr : JobsRepo.conditionalTransition db j (sourcesFor toStatus) status = r
      obtain rfl | ⟨job, hj, ⟨hfrom, hp⟩, rfl⟩ := JobsRepo.updateWhere_cases hr
      · exact Or.inl rfl
      · exact Or.inr ⟨status, job, rfl, hj, hp, hfrom, rfl⟩

/-- A transition leaves reservations and capacity alone. -/
theorem transitionTx_frame (db : Db) (j : JobId) (toStatus : String) :
    (transitionTx db j toStatus).1.reservations = db.reservations ∧
      (transitionTx db j toStatus).1.capacity = db.capacity := by
  rcases transitionTx_cases db j toStatus with h | ⟨status, job, _, _, _, _, h⟩
  · rw [h]
    exact ⟨rfl, rfl⟩
  · rw [h]
    exact ⟨rfl, rfl⟩

/-- **A transition that fits keeps the database consistent.** -/
theorem PatchFits.consistent {db : Db} {j : JobId} {toStatus : String}
    (h : PatchFits db j toStatus) (hdb : db.Consistent) :
    (transitionTx db j toStatus).1.Consistent := by
  rcases transitionTx_cases db j toStatus with heq | ⟨status, job, hto, hj, hp, hfrom, heq⟩
  · rw [heq]
    exact hdb
  rw [heq]
  intro i row hi hpresent
  rw [Table.lookup_insert_eq] at hi
  split at hi
  swap
  · exact hdb i row hi hpresent
  rename_i hij
  subst hij
  cases hi
  have hold := hdb i job hj hp
  have hedge := mem_sourcesFor hto hfrom
  have hvalue := value_of_parse hto
  rcases h job hj hp hfrom with hq | ⟨hc, hs, hnone⟩
  · have hstatus : status = .queued := by
      rw [hq] at hvalue
      revert hvalue
      cases status <;> decide
    subst hstatus
    have hs : job.status = .pending := by
      revert hedge
      cases job.status <;> simp [validTransitions]
    constructor
    · intro hrun
      cases hrun
    · exact fun _ => hold.idle (by simp [hs])
    · exact fun ht => False.elim ht
  · have hstatus : status = .cancelled := by
      rw [hc] at hvalue
      revert hvalue
      cases status <;> decide
    subst hstatus
    constructor
    · intro hrun
      cases hrun
    · exact fun _ => hold.idle (by simp [hs])
    · exact fun _ => hnone

/-- **A transition that keeps the database consistent fits.** -/
theorem patchFits_of_consistent {db : Db} {j : JobId} {toStatus : String} (hdb : db.Consistent)
    (h : (transitionTx db j toStatus).1.Consistent) : PatchFits db j toStatus := by
  intro job hj hp hfrom
  obtain ⟨status, hto⟩ := exists_parse_of_mem hfrom
  have hvalue := value_of_parse hto
  have hedge := mem_sourcesFor hto hfrom
  have hold := hdb j job hj hp
  rw [transitionTx_of_mem hto hj hp hfrom] at h
  have hnew : Job.Consistent { job with status } db.reservations j := by
    apply h j { job with status } ?_ hp
    rw [Table.lookup_insert_eq, if_pos rfl]
  have hnotRunning : job.status ≠ .running := by
    intro hrun
    have hlease := (hold.running hrun).1
    rw [hrun] at hedge
    have hidle : status ≠ .running := by
      revert hedge
      cases status <;> simp [validTransitions]
    rw [(hnew.idle hidle).1] at hlease
    cases hlease
  have hnotClaimed : status ≠ .running := by
    intro hrun
    have hlease := (hnew.running hrun).1
    have hnone : job.leaseOwner = none := (hold.idle hnotRunning).1
    rw [show ({ job with status } : Job).leaseOwner = none from hnone] at hlease
    cases hlease
  have hcase : status = .queued ∨ (status = .cancelled ∧ job.status = .queued) := by
    revert hedge hnotRunning hnotClaimed
    cases job.status <;> cases status <;> simp [validTransitions]
  rcases hcase with rfl | ⟨rfl, hs⟩
  · exact Or.inl hvalue
  · exact Or.inr ⟨hvalue, hs, hnew.settled trivial⟩

/-- In a consistent database every running job is listed as stale once its lease has expired. -/
theorem Db.Consistent.recoverable {db : Db} (h : db.Consistent) {j : JobId} {job : Job}
    (hj : db.jobs.lookup j = some job) (hp : job.Present) (hs : job.status = .running) :
    ∃ t, ∀ now, t < now → (j, job) ∈ JobsRepo.listStaleLeases db now := by
  obtain ⟨t, ht⟩ := Option.isSome_iff_exists.mp ((h j job hj hp).running hs).2.1
  refine ⟨t, fun now hlt => ?_⟩
  apply List.mem_filter.mpr
  exact ⟨Table.mem_rows.mpr hj, decide_eq_true ⟨hs, ⟨t, ht, hlt⟩, hp⟩⟩

/-- **A PATCH of a status keeps lease, reservation and capacity consistent with it exactly if it fits**:
it enqueues the job, cancels a queued job without a reservation, or matches nothing. -/
theorem patch_law_iff (env : Env) (p : ℕ) {s : World} (hdb : s.db.Consistent) (j : JobId)
    (toStatus : String) : PatchLaw env p s j toStatus ↔ PatchFits s.db j toStatus := by
  constructor
  · intro h
    obtain ⟨r, s', hend⟩ := exists_endsAlone env p (updateJob j (some toStatus) none) s
    apply patchFits_of_consistent hdb
    rw [← ends_updateJob hend]
    exact h.consistent _ _ hend
  · intro h
    have hkept : ∀ r s', EndsAlone env p (updateJob j (some toStatus) none) s r s' →
        s'.db.Consistent := by
      intro r s' hend
      rw [ends_updateJob hend]
      exact h.consistent hdb
    refine ⟨hkept, fun r s' hend i job hi hp hs => (hkept r s' hend).recoverable hi hp hs, ?_⟩
    intro hto r s' r' s'' hpatch hcancel
    have hfree : ∀ job, s.db.jobs.lookup j = some job → job.Present → job.status = .queued →
        ∀ k, ¬ JobsRepo.HasReservation s.db.reservations j k := by
      intro job hj hp hs
      have hfrom : job.status ∈ sourcesFor toStatus := by
        rw [hs, hto]
        decide
      rcases h job hj hp hfrom with hq | ⟨_, _, hnone⟩
      · rw [hto] at hq
        exact absurd hq (by decide)
      · exact hnone
    obtain ⟨hres, hcap⟩ := ends_cancelJob hfree hcancel
    have hframe := transitionTx_frame s.db j toStatus
    rw [ends_updateJob hpatch, hres, hcap]
    exact hframe

section Decidable

variable {reservations : Table (JobId × ℕ) Reservation} {j : JobId}

instance : DecidablePred JobStatus.Terminal
  | .succeeded | .failed | .cancelled => isTrue trivial
  | .pending | .queued | .running => isFalse id

/-- The reservations that a job holds are among the rows of the table. -/
instance : Decidable (∀ k, ¬ JobsRepo.HasReservation reservations j k) :=
  decidable_of_iff (∀ r ∈ reservations.rows, r.1.1 = j → r.2.status ≠ .active) <| by
    constructor
    · intro h k hk
      obtain ⟨r, hr, hact⟩ := hk
      exact h ((j, k), r) (Table.mem_rows.mpr hr) rfl hact
    · intro h r hr hj hact
      obtain ⟨⟨i, k⟩, row⟩ := r
      cases hj
      exact h k ⟨row, Table.mem_rows.mp hr, hact⟩

instance (job : Job) : Decidable (job.Consistent reservations j) :=
  decidable_of_iff ((job.status = .running → job.leaseOwner.isSome ∧ job.leaseExpiresAt.isSome ∧
      JobsRepo.HasReservation reservations j job.attemptNumber) ∧
    (job.status ≠ .running → job.leaseOwner = none ∧ job.leaseExpiresAt = none) ∧
    (job.status.Terminal → ∀ k, ¬ JobsRepo.HasReservation reservations j k))
    ⟨fun h => ⟨h.1, h.2.1, h.2.2⟩, fun h => ⟨h.running, h.idle, h.settled⟩⟩

instance (db : Db) : Decidable db.Consistent :=
  decidable_of_iff (∀ r ∈ db.jobs.rows, r.2.Present → r.2.Consistent db.reservations r.1)
    ⟨fun h j job hj => h (j, job) (Table.mem_rows.mpr hj),
      fun h r hr => h r.1 r.2 (Table.mem_rows.mp hr)⟩

end Decidable

theorem not_patchLaw {env : Env} {p : ℕ} {s : World} {j : JobId} {toStatus : String}
    (h : ¬ (transitionTx s.db j toStatus).1.Consistent) : ¬ PatchLaw env p s j toStatus := by
  intro hlaw
  obtain ⟨r, s', hend⟩ := exists_endsAlone env p (updateJob j (some toStatus) none) s
  apply h
  rw [← ends_updateJob hend]
  exact hlaw.consistent _ _ hend

/-- **An admitted job is patched to RUNNING without a lease, and to CANCELLED with its reservation.** -/
theorem patch_breaks_law : ∃ c : System Env.standard, Reaches World.fresh (admitJob noop) c ∧
    c.shared.db.Consistent ∧ ¬ PatchLaw Env.standard 2 c.shared 1 "RUNNING" ∧
      ¬ PatchLaw Env.standard 2 c.shared 1 "CANCELLED" := by
  obtain ⟨c, hc, hdb, hrun, hcancel⟩ := exists_reaches World.fresh_initial (admitJob noop)
    (P := fun c => c.shared.db.Consistent ∧
      ¬ (transitionTx c.shared.db 1 "RUNNING").1.Consistent ∧
        ¬ (transitionTx c.shared.db 1 "CANCELLED").1.Consistent) (by decide +kernel)
  exact ⟨c, hc, hdb, not_patchLaw hrun, not_patchLaw hcancel⟩

/-- A job that waits for its admission can be cancelled by a PATCH. -/
theorem waiting_job_patched : ∃ c : System Env.standard, c.shared.db.Consistent ∧
    PatchLaw Env.standard 2 c.shared 1 "CANCELLED" := by
  obtain ⟨c, _, hdb, job, hj, hs, hnone⟩ := exists_reaches World.fresh_initial
    (session 0 (.createJob noop) 1 { uuid := 1 } : List (SysEvent Env.standard))
    (P := fun c => c.shared.db.Consistent ∧ ∃ job ∈ c.shared.db.jobs.lookup 1,
      job.status = .queued ∧ ∀ k, ¬ JobsRepo.HasReservation c.shared.db.reservations 1 k)
    (by decide +kernel)
  refine ⟨c, hdb, (patch_law_iff Env.standard 2 hdb 1 "CANCELLED").mpr ?_⟩
  intro row hrow _ _
  have hsame : row = job := Option.some.inj (hrow.symm.trans hj)
  subst hsame
  exact Or.inr ⟨rfl, hs, hnone⟩

end PosttrainPlatform
