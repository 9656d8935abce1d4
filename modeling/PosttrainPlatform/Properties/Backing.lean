import PosttrainPlatform.Properties.Fencing

/-!
# Jobs and their reservations

`Job.Backed` is the invariant that ties a job to its reservations: one row for every attempt that
has been claimed, none beyond the next attempt, at most one of them ACTIVE, and an ACTIVE one behind
every live attempt.  Every statement but an admission keeps it.  An admission keeps it when the row
the scheduler works from was true once (`SnapshotOk`): the primary key of `reservations` makes an
admission fail whose attempt number has been used since.
-/

namespace PosttrainPlatform

/-- The reservation rows of one job, by attempt number. -/
abbrev ReservationRows := ℕ → Option Reservation

def ReservationRows.ActiveAt (rows : ReservationRows) (k : ℕ) : Prop :=
  ∃ r ∈ rows k, r.status = .active

/-- **A job and its reservation rows fit together.** -/
structure Job.Backed (job : Job) (rows : ReservationRows) : Prop where
  granted : ∀ k, 1 ≤ k → k ≤ job.attemptNumber → (rows k).isSome
  bounded : ∀ k, (rows k).isSome → 1 ≤ k ∧ k ≤ job.attemptNumber + 1
  recent : ∀ k, rows.ActiveAt k → job.attemptNumber ≤ k
  exclusive : rows.ActiveAt job.attemptNumber → rows (job.attemptNumber + 1) = none
  waiting : job.status = .queued ∨ job.status = .pending → ¬ rows.ActiveAt job.attemptNumber
  live : job.status = .running → job.leaseOwner.isSome → rows.ActiveAt job.attemptNumber
  leaseOk : job.LeaseOk
  leased : job.leaseExpiresAt.isSome → job.leaseOwner.isSome

/-- What a job with its rows never takes back: attempt numbers grow, and the reservations of past
and current attempts are not revived. -/
structure Advances (job job' : Job) (rows rows' : ReservationRows) : Prop where
  attempt : job.attemptNumber ≤ job'.attemptNumber
  settled : ∀ k, k ≤ job.attemptNumber → ¬ rows.ActiveAt k → ¬ rows'.ActiveAt k

namespace Advances

theorem refl (job : Job) (rows : ReservationRows) : Advances job job rows rows :=
  ⟨le_refl _, fun _ _ h => h⟩

theorem trans {job₁ job₂ job₃ : Job} {rows₁ rows₂ rows₃ : ReservationRows}
    (h : Advances job₁ job₂ rows₁ rows₂) (h' : Advances job₂ job₃ rows₂ rows₃) :
    Advances job₁ job₃ rows₁ rows₃ :=
  ⟨le_trans h.attempt h'.attempt,
    fun k hk hn => h'.settled k (le_trans hk h.attempt) (h.settled k hk hn)⟩

end Advances

namespace Job.Backed

variable {job : Job} {rows : ReservationRows}

theorem active_isSome {k : ℕ} (h : rows.ActiveAt k) : (rows k).isSome := by
  obtain ⟨r, hr, _⟩ := h
  exact Option.isSome_iff_exists.mpr ⟨r, hr⟩

/-- **At most one reservation of a job is ACTIVE.** -/
theorem active_unique (h : job.Backed rows) {k k' : ℕ} (hk : rows.ActiveAt k)
    (hk' : rows.ActiveAt k') : k = k' := by
  have hle : ∀ {m}, rows.ActiveAt m → m = job.attemptNumber ∨ m = job.attemptNumber + 1 := by
    intro m hm
    have hlo := h.recent m hm
    have hhi := (h.bounded m (active_isSome hm)).2
    omega
  have hno : ∀ {m m'}, rows.ActiveAt m → rows.ActiveAt m' → m = job.attemptNumber →
      m' = job.attemptNumber + 1 → False := by
    rintro m m' hm hm' rfl rfl
    have hsome := active_isSome hm'
    rw [h.exclusive hm] at hsome
    cases hsome
  obtain e | e := hle hk <;> obtain e' | e' := hle hk'
  · exact e.trans e'.symm
  · exact (hno hk hk' e e').elim
  · exact (hno hk' hk e' e).elim
  · exact e.trans e'.symm

theorem of_new (hnew : job.New) (hrows : ∀ k, rows k = none) : job.Backed rows := by
  obtain ⟨hs, _, ha, ho, he, _, _⟩ := hnew
  have hno : ∀ k, ¬ rows.ActiveAt k := by
    rintro k ⟨r, hr, _⟩
    rw [hrows k] at hr
    cases hr
  refine ⟨fun k h1 hk => ?_, fun k h => ?_, fun k h => absurd h (hno k), fun _ => hrows _,
    fun _ => hno _, fun hr => ?_, fun _ => ho, fun h => ?_⟩
  · omega
  · rw [hrows k] at h
    cases h
  · rw [hs] at hr
    cases hr
  · rw [he] at h
    cases h

/-- There is no reservation beyond an attempt that is being executed. -/
theorem next_free (h : job.Backed rows) (hs : job.status = .running)
    (howner : job.leaseOwner.isSome) : rows (job.attemptNumber + 1) = none :=
  h.exclusive (h.live hs howner)

/-- A change that leaves status, attempt and lease alone. -/
theorem of_same {job' : Job} (h : job.Backed rows) (hs : job'.status = job.status)
    (hattempt : job'.attemptNumber = job.attemptNumber)
    (howner : job'.leaseOwner = job.leaseOwner)
    (hexpires : job'.leaseExpiresAt = job.leaseExpiresAt) : job'.Backed rows := by
  constructor
  · rw [hattempt]
    exact h.granted
  · rw [hattempt]
    exact h.bounded
  · rw [hattempt]
    exact h.recent
  · rw [hattempt]
    exact h.exclusive
  · rw [hs, hattempt]
    exact h.waiting
  · rw [hs, howner, hattempt]
    exact h.live
  · rw [Job.LeaseOk, hs, howner]
    exact h.leaseOk
  · rw [hexpires, howner]
    exact h.leased

/-- A change of the status that leaves attempt, lease and reservations alone. -/
theorem set_status (h : job.Backed rows) {toStatus : String} {status : JobStatus}
    (hto : JobStatus.parse toStatus = some status) (hfrom : job.status ∈ sourcesFor toStatus) :
    Job.Backed { job with status } rows := by
  have hedge := mem_sourcesFor hto hfrom
  have hlease := (RowStep.register_transition hto hfrom h.leaseOk).1
  refine ⟨h.granted, h.bounded, h.recent, h.exclusive, fun hw => ?_, fun hr hown => ?_, hlease,
    h.leased⟩
  · refine h.waiting ?_
    revert hedge hw
    cases job.status <;> cases status <;> simp [validTransitions]
  · have hwait : job.status = .queued := by
      have hr : status = .running := hr
      rw [hr] at hedge
      revert hedge
      cases job.status <;> simp [validTransitions]
    have hnone := h.leaseOk (Or.inl hwait)
    rw [hnone] at hown
    cases hown

/-- A claim moves on to the attempt whose reservation it has found. -/
theorem claim (h : job.Backed rows) {w : WorkerId} {now lease : Time}
    (hact : rows.ActiveAt (job.attemptNumber + 1)) :
    (job.claimed w now lease).Backed rows := by
  have hbound : rows (job.attemptNumber + 2) = none := by
    cases hr : rows (job.attemptNumber + 2) with
    | none => rfl
    | some r =>
        have hle := (h.bounded (job.attemptNumber + 2) (by rw [hr]; rfl)).2
        omega
  refine ⟨fun k h1 hk => ?_, fun k hk => ?_, fun k hk => ?_, fun _ => hbound, fun hw => ?_,
    fun _ _ => hact, fun hw => ?_, fun _ => rfl⟩
  · have hk : k ≤ job.attemptNumber + 1 := hk
    by_cases hlast : k = job.attemptNumber + 1
    · rw [hlast]
      exact active_isSome hact
    · exact h.granted k h1 (by omega)
  · have hb := h.bounded k hk
    exact ⟨hb.1, Nat.le_succ_of_le hb.2⟩
  · exact (h.active_unique hk hact).ge
  · obtain hw | hw := hw <;> cases hw
  · obtain hw | hw := hw <;> cases hw

/-- The end of an attempt whose reservation is released with it. -/
theorem finish {job' : Job} {rows' : ReservationRows} (h : job.Backed rows)
    (hattempt : job'.attemptNumber = job.attemptNumber) (hs : job'.status ≠ .running)
    (howner : job'.leaseOwner = none) (hexp : job'.leaseExpiresAt = none)
    (hkeys : ∀ k, (rows' k).isSome = (rows k).isSome)
    (hact : ∀ k, rows'.ActiveAt k ↔ rows.ActiveAt k ∧ k ≠ job.attemptNumber) :
    job'.Backed rows' := by
  have hnot : ¬ rows'.ActiveAt job'.attemptNumber := fun hk => ((hact _).mp hk).2 hattempt
  refine ⟨fun k h1 hk => ?_, fun k hk => ?_, fun k hk => ?_, fun hk => absurd hk hnot,
    fun _ => hnot, fun hr => absurd hr hs, fun _ => howner, fun he => ?_⟩
  · rw [hkeys]
    exact h.granted k h1 (hattempt ▸ hk)
  · rw [hkeys] at hk
    rw [hattempt]
    exact h.bounded k hk
  · rw [hattempt]
    exact h.recent k ((hact k).mp hk).1
  · rw [hexp] at he
    cases he

/-- A release for a job that nobody runs. -/
theorem release {rows' : ReservationRows} (h : job.Backed rows) (hs : job.status ≠ .running)
    (hkeys : ∀ k, (rows' k).isSome = (rows k).isSome)
    (hact : ∀ k, rows'.ActiveAt k → rows.ActiveAt k) : job.Backed rows' := by
  refine ⟨fun k h1 hk => ?_, fun k hk => ?_, fun k hk => h.recent k (hact k hk), fun hk => ?_,
    fun hw hk => h.waiting hw (hact _ hk), fun hr => absurd hr hs, h.leaseOk, h.leased⟩
  · rw [hkeys]
    exact h.granted k h1 hk
  · rw [hkeys] at hk
    exact h.bounded k hk
  · have hnone := h.exclusive (hact _ hk)
    have hkey := hkeys (job.attemptNumber + 1)
    rw [hnone] at hkey
    exact Option.isNone_iff_eq_none.mp (by simpa using hkey)

/-- An admission inserts the reservation of the next attempt. -/
theorem reserve {rows' : ReservationRows} (h : job.Backed rows) {r : Reservation} {m : ℕ}
    (hm : m ≤ job.attemptNumber) (hnow : m = job.attemptNumber → ¬ rows.ActiveAt m)
    (hfree : rows (m + 1) = none) (hrows : rows' = Function.update rows (m + 1) (some r)) :
    m = job.attemptNumber ∧ job.Backed rows' := by
  have heq : m = job.attemptNumber := by
    by_contra hne
    have hsome := h.granted (m + 1) (by omega) (by omega)
    rw [hfree] at hsome
    cases hsome
  have hnot := hnow heq
  subst heq
  subst hrows
  have hold : ∀ {k}, k ≠ job.attemptNumber + 1 →
      Function.update rows (job.attemptNumber + 1) (some r) k = rows k :=
    fun hk => Function.update_of_ne hk _ _
  have hactive : ∀ {k}, k ≠ job.attemptNumber + 1 →
      (ReservationRows.ActiveAt (Function.update rows (job.attemptNumber + 1) (some r)) k ↔
        rows.ActiveAt k) := fun hk => by
    unfold ReservationRows.ActiveAt
    rw [hold hk]
  have hself : ¬ ReservationRows.ActiveAt
      (Function.update rows (job.attemptNumber + 1) (some r)) job.attemptNumber := fun hk =>
    hnot ((hactive (by omega)).mp hk)
  refine ⟨rfl, fun k h1 hk => ?_, fun k hk => ?_, fun k hk => ?_, fun hk => absurd hk hself,
    fun _ => hself, fun hr ho => absurd (h.live hr ho) hnot, h.leaseOk, h.leased⟩
  · rw [hold (by omega)]
    exact h.granted k h1 hk
  · by_cases hlast : k = job.attemptNumber + 1
    · omega
    · rw [hold hlast] at hk
      exact h.bounded k hk
  · by_cases hlast : k = job.attemptNumber + 1
    · omega
    · exact h.recent k ((hactive hlast).mp hk)

end Job.Backed

/-! ### The invariant of the core -/

namespace Core

def rowsOf (c : Core) (j : JobId) : ReservationRows := fun k => c.reservations.lookup (j, k)

/-- Every job is backed, and there are no reservations without a job. -/
structure Backed (c : Core) : Prop where
  job : ∀ j job, c.jobs.lookup j = some job → job.Backed (c.rowsOf j)
  orphan : ∀ j, c.jobs.lookup j = none → ∀ k, c.rowsOf j k = none

/-- Every job advances. -/
def Advance (c c' : Core) : Prop :=
  ∀ j job, c.jobs.lookup j = some job →
    ∃ job', c'.jobs.lookup j = some job' ∧ Advances job job' (c.rowsOf j) (c'.rowsOf j)

theorem Advance.refl (c : Core) : c.Advance c := fun _ job hj => ⟨job, hj, .refl _ _⟩

theorem Advance.trans {c₁ c₂ c₃ : Core} (h : c₁.Advance c₂) (h' : c₂.Advance c₃) :
    c₁.Advance c₃ := by
  intro j job hj
  obtain ⟨job', hj', hadv⟩ := h j job hj
  obtain ⟨job'', hj'', hadv'⟩ := h' j job' hj'
  exact ⟨job'', hj'', hadv.trans hadv'⟩

/-- A row of `j` that some earlier read has returned. -/
def SnapshotOk (c : Core) (j : JobId) (snapshot : Job) : Prop :=
  ∃ job, c.jobs.lookup j = some job ∧ snapshot.attemptNumber ≤ job.attemptNumber ∧
    (snapshot.status = .queued → snapshot.attemptNumber = job.attemptNumber →
      ¬ c.Active j snapshot.attemptNumber)

/-- **A snapshot stays good.** -/
theorem SnapshotOk.advance {c c' : Core} {j : JobId} {snapshot : Job} (h : c.SnapshotOk j snapshot)
    (hadv : c.Advance c') : c'.SnapshotOk j snapshot := by
  obtain ⟨job, hj, hle, hnot⟩ := h
  obtain ⟨job', hj', hadv⟩ := hadv j job hj
  refine ⟨job', hj', le_trans hle hadv.attempt, fun hs heq => ?_⟩
  have heq' : snapshot.attemptNumber = job.attemptNumber :=
    le_antisymm hle (heq ▸ hadv.attempt)
  exact hadv.settled _ hle (hnot hs heq')

theorem Backed.snapshotOk {c : Core} (h : c.Backed) {j : JobId} {job : Job}
    (hj : c.jobs.lookup j = some job) : c.SnapshotOk j job :=
  ⟨job, hj, le_refl _, fun hs _ => (h.job j job hj).waiting (Or.inl hs)⟩

/-- A change of one job and its reservations. -/
theorem Backed.of_local {c c' : Core} (h : c.Backed) {j : JobId} {job job' : Job}
    (hj : c.jobs.lookup j = some job) (hj' : c'.jobs.lookup j = some job')
    (hothers : ∀ i, i ≠ j → c'.jobs.lookup i = c.jobs.lookup i ∧ c'.rowsOf i = c.rowsOf i)
    (hjob : job'.Backed (c'.rowsOf j)) (hadv : Advances job job' (c.rowsOf j) (c'.rowsOf j)) :
    c'.Backed ∧ c.Advance c' := by
  refine ⟨⟨fun i row hi => ?_, fun i hi => ?_⟩, fun i row hi => ?_⟩
  · by_cases hij : i = j
    · subst hij
      rw [hj'] at hi
      cases hi
      exact hjob
    · rw [(hothers i hij).1] at hi
      rw [(hothers i hij).2]
      exact h.job i row hi
  · by_cases hij : i = j
    · subst hij
      rw [hj'] at hi
      cases hi
    · rw [(hothers i hij).1] at hi
      rw [(hothers i hij).2]
      exact h.orphan i hi
  · by_cases hij : i = j
    · subst hij
      rw [hj] at hi
      cases hi
      exact ⟨job', hj', hadv⟩
    · rw [← (hothers i hij).1] at hi
      refine ⟨row, hi, ?_⟩
      rw [(hothers i hij).2]
      exact .refl _ _

section Release

variable {c c' : Core} {j : JobId} {k : ℕ}

theorem Released.isSome (h : c.Released j k c') (i : JobId) (m : ℕ) :
    (c'.rowsOf i m).isSome = (c.rowsOf i m).isSome := by
  obtain ⟨rfl, _⟩ | ⟨r, hr, _, rfl⟩ := h
  · rfl
  · simp only [rowsOf, Table.lookup_insert_eq]
    by_cases hkey : (i, m) = (j, k)
    · rw [if_pos hkey, hkey, hr]
      rfl
    · rw [if_neg hkey]

/-- After a release exactly the other ACTIVE reservations are left. -/
theorem Released.active_iff (h : c.Released j k c') (i : JobId) (m : ℕ) :
    c'.Active i m ↔ c.Active i m ∧ (i, m) ≠ (j, k) := by
  obtain ⟨rfl, hn⟩ | ⟨r, hr, hact, rfl⟩ := h
  · refine ⟨fun h => ⟨h, fun heq => hn ?_⟩, And.left⟩
    cases heq
    exact h
  · unfold Active JobsRepo.HasReservation
    simp only [Table.lookup_insert_eq]
    by_cases hkey : (i, m) = (j, k)
    · simp [hkey]
    · simp [hkey]

theorem Released.rowsOf_of_ne (h : c.Released j k c') {i : JobId} (hij : i ≠ j) :
    c'.rowsOf i = c.rowsOf i := by
  obtain ⟨rfl, _⟩ | ⟨r, _, _, rfl⟩ := h
  · rfl
  · funext m
    have hkey : (i, m) ≠ (j, k) := fun heq => hij (congrArg Prod.fst heq)
    simp only [rowsOf, Table.lookup_insert_eq, if_neg hkey]

end Release

theorem Backed.putJob {c : Core} (h : c.Backed) {j : JobId} {job job' : Job}
    (hj : c.jobs.lookup j = some job) (hjob : job'.Backed (c.rowsOf j))
    (hattempt : job.attemptNumber ≤ job'.attemptNumber) :
    (c.putJob j job').Backed ∧ c.Advance (c.putJob j job') := by
  refine h.of_local hj ?_ (fun i hij => ⟨?_, rfl⟩) hjob ⟨hattempt, fun k _ hn => hn⟩
  · rw [lookup_putJob, if_pos rfl]
  · rw [lookup_putJob, if_neg hij]

/-- A new row of the job together with a release, when `c₁` stands between the two. -/
theorem Backed.putJob_released {c c₁ c' : Core} (h : c.Backed) {j : JobId} {k : ℕ}
    {job job' : Job} (hj : c.jobs.lookup j = some job)
    (hjobs : c₁.jobs = (c.putJob j job').jobs) (hres : c₁.reservations = c.reservations)
    (hrel : c₁.Released j k c') (hattempt : job.attemptNumber = job'.attemptNumber)
    (hjob : (∀ m, (c'.rowsOf j m).isSome = (c.rowsOf j m).isSome) →
      (∀ m, (c'.rowsOf j).ActiveAt m ↔ (c.rowsOf j).ActiveAt m ∧ m ≠ k) →
      job'.Backed (c'.rowsOf j)) : c'.Backed ∧ c.Advance c' := by
  have hrows : ∀ i, c₁.rowsOf i = c.rowsOf i := fun i => by
    funext m
    simp only [rowsOf, hres]
  have hkeys : ∀ m, (c'.rowsOf j m).isSome = (c.rowsOf j m).isSome := fun m => by
    rw [hrel.isSome, hrows]
  have hact : ∀ m, (c'.rowsOf j).ActiveAt m ↔ (c.rowsOf j).ActiveAt m ∧ m ≠ k := fun m => by
    have hiff := hrel.active_iff j m
    unfold Active at hiff
    rw [hres] at hiff
    refine hiff.trans (and_congr Iff.rfl ?_)
    simp
  refine h.of_local hj ?_ (fun i hij => ⟨?_, ?_⟩) (hjob hkeys hact)
    ⟨hattempt.le, fun m _ hn hm => hn ((hact m).mp hm).1⟩
  · rw [hrel.jobs_eq, hjobs, lookup_putJob, if_pos rfl]
  · rw [hrel.jobs_eq, hjobs, lookup_putJob, if_neg hij]
  · rw [hrel.rowsOf_of_ne hij, hrows]

/-- What an admission has to know: its row was true once, and showed the job waiting. -/
def AdmissionOk (c : Core) (j : JobId) (k : ℕ) : Prop :=
  ∃ snapshot, c.SnapshotOk j snapshot ∧ snapshot.status = .queued ∧
    k = snapshot.attemptNumber + 1

theorem Backed.create {c : Core} (h : c.Backed) {j : JobId} {job : Job}
    (hj : c.jobs.lookup j = none) (hnew : job.New) :
    (c.putJob j job).Backed ∧ c.Advance (c.putJob j job) := by
  have hne : ∀ {i row}, c.jobs.lookup i = some row → i ≠ j := fun hi hij => by
    rw [hij, hj] at hi
    cases hi
  refine ⟨⟨fun i row hi => ?_, fun i hi => ?_⟩, fun i row hi => ?_⟩
  · rw [lookup_putJob] at hi
    by_cases hij : i = j
    · rw [if_pos hij] at hi
      cases hi
      exact .of_new hnew (h.orphan i (hij ▸ hj))
    · rw [if_neg hij] at hi
      exact h.job i row hi
  · rw [lookup_putJob] at hi
    by_cases hij : i = j
    · rw [if_pos hij] at hi
      cases hi
    · rw [if_neg hij] at hi
      exact h.orphan i hi
  · refine ⟨row, ?_, .refl _ _⟩
    rw [lookup_putJob, if_neg (hne hi), hi]

theorem Backed.reserve {c : Core} (h : c.Backed) {j : JobId} {k : ℕ} (hok : c.AdmissionOk j k)
    (capacity : Capacity) (r : Reservation) (hfree : c.reservations.lookup (j, k) = none) :
    Backed { c with capacity, reservations := c.reservations.insert (j, k) r } ∧
      c.Advance { c with capacity, reservations := c.reservations.insert (j, k) r } := by
  obtain ⟨snapshot, ⟨job, hj, hle, hnot⟩, hs, rfl⟩ := hok
  have hrows : rowsOf { c with
      capacity, reservations := c.reservations.insert (j, snapshot.attemptNumber + 1) r } j =
      Function.update (c.rowsOf j) (snapshot.attemptNumber + 1) (some r) := by
    funext m
    simp only [rowsOf, Table.lookup_insert_eq, Function.update_apply, Prod.mk.injEq, true_and]
  obtain ⟨heq, hjob⟩ := (h.job j job hj).reserve hle (fun heq => hnot hs heq) hfree hrows
  refine h.of_local hj hj (fun i hij => ⟨rfl, ?_⟩) hjob ⟨le_refl _, fun m hm hn => ?_⟩
  · funext m
    have hkey : (i, m) ≠ (j, snapshot.attemptNumber + 1) := fun he => hij (congrArg Prod.fst he)
    simp only [rowsOf, Table.lookup_insert_eq, if_neg hkey]
  · rw [hrows]
    unfold ReservationRows.ActiveAt at hn ⊢
    rw [Function.update_of_ne (by omega)]
    exact hn

theorem Buried.reservations_eq {c c' : Core} {j : JobId} {k : ℕ} {ending : Ending}
    (h : c.Buried j k ending c') : c'.reservations = c.reservations := by
  cases ending with
  | failed message classification domain =>
      obtain ⟨_, row, _, _, rfl⟩ := h
      rfl
  | cancelled | succeeded | retry t message classification domain =>
      cases h
      rfl

end Core

/-- **Every statement keeps jobs backed**, admissions on good snapshots included. -/
theorem CoreStep.backed {env : Env} {c c' : Core} {i : Input} {op : Op} (h : CoreStep env c i op c')
    (hb : c.Backed)
    (hadm : ∀ j k request, op = .reserve j k request → c.AdmissionOk j k) :
    c'.Backed ∧ c.Advance c' := by
  cases h with
  | skip => exact ⟨hb, .refl _⟩
  | createJob hj => exact hb.create hj ⟨rfl, rfl, rfl, rfl, rfl, rfl, rfl⟩
  | transition hj hto hfrom hp =>
      exact hb.putJob hj ((hb.job _ _ hj).set_status hto hfrom) (le_refl _)
  | cancel hj hfrom hp hrel =>
      have hto : JobStatus.parse JobStatus.cancelled.value = some .cancelled := by decide
      have hjob := (hb.job _ _ hj).set_status hto hfrom
      refine hb.putJob_released hj rfl rfl hrel rfl fun hkeys hact => ?_
      exact hjob.release (by simp) hkeys fun m hm => ((hact m).mp hm).1
  | setCancelRequested hj hs hp =>
      exact hb.putJob hj ((hb.job _ _ hj).of_same rfl rfl rfl rfl) (le_refl _)
  | updateConfig hj =>
      exact hb.putJob hj ((hb.job _ _ hj).of_same rfl rfl rfl rfl) (le_refl _)
  | softDelete hj =>
      exact hb.putJob hj ((hb.job _ _ hj).of_same rfl rfl rfl rfl) (le_refl _)
  | clearRetryDispatched hj =>
      exact hb.putJob hj ((hb.job _ _ hj).of_same rfl rfl rfl rfl) (le_refl _)
  | claim hj hs hc hdue hp hact =>
      exact hb.putJob hj ((hb.job _ _ hj).claim hact) (Nat.le_succ _)
  | @finalize j w k ending job c₁ c' hj hown hp hdlq hrel =>
      refine hb.putJob_released hj hdlq.jobs_eq hdlq.reservations_eq hrel rfl fun hkeys hact => ?_
      refine (hb.job j job hj).finish rfl (job.finalized_not_running ending) rfl rfl hkeys ?_
      intro m
      rw [hact m, hown.2.2]
  | @reclaim j t job c' hj hs hexp hrel =>
      refine hb.putJob_released hj rfl rfl hrel rfl fun hkeys hact => ?_
      exact (hb.job j job hj).finish rfl (job.reclaimed_not_running _ t) rfl rfl hkeys hact
  | reserve hres hamount hfree => exact hb.reserve (hadm _ _ _ rfl) _ _ hfree

end PosttrainPlatform
