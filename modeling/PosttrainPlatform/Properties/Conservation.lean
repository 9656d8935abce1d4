import PosttrainPlatform.Properties.Admission

/-!
# Conservation of capacity

`capacity` keeps the allocated amounts as a counter, `reservations` the amounts it stands for.  The
drift is the difference.  A release takes back what was reserved, so it never moves the drift; an
admission adds the request to the counter and stores it in the reservation, and Postgres rounds the
two separately.
-/

namespace PosttrainPlatform

open Programs

namespace Core

/-- How far the allocated amounts are ahead of the ACTIVE reservations. -/
def drift (c : Core) : Resources ℤ :=
  c.capacity.allocated - ReservationsRepo.sumActive c.reservations

/-- The admission of a request with amounts `q` goes through. -/
def Admits (env : Env) (c : Core) (j : JobId) (k : ℕ) (request : Resources Json)
    (q : Resources ℚ) : Prop :=
  CapacityRepo.amounts env request = some q ∧ CapacityRepo.Fits c.capacity q ∧
    c.reservations.lookup (j, k) = none ∧
    ∀ d, (int4Column (c.capacity.allocated d + q d)).isSome ∧ (int4Column (q d)).isSome

/-- Postgres rounds the new counter and the reserved amount alike. -/
def RoundsAlike (c : Core) (q : Resources ℚ) : Prop :=
  ∀ d, Int.fract (q d) = 1 / 2 → (0 ≤ q d ↔ 0 ≤ (c.capacity.allocated d : ℚ) + q d)

theorem Released.drift {c c' : Core} {j : JobId} {k : ℕ} (h : c.Released j k c') :
    c'.drift = c.drift := by
  obtain ⟨rfl, _⟩ | ⟨r, hr, hact, rfl⟩ := h
  · rfl
  · have hsum := Table.total_insert_of_some (fun _ r => ReservationsRepo.activeAmount r) hr
      { r with status := .released }
    have hold : ReservationsRepo.activeAmount r = r.amount := if_pos hact
    have hnew : ReservationsRepo.activeAmount { r with status := .released } = 0 := if_neg (by simp)
    rw [hold, hnew] at hsum
    unfold Core.drift ReservationsRepo.sumActive
    rw [hsum, add_zero, sub_sub_sub_cancel_right]

theorem Buried.drift {c c' : Core} {j : JobId} {k : ℕ} {ending : Ending}
    (h : c.Buried j k ending c') : c'.drift = c.drift := by
  cases ending with
  | failed message classification domain =>
      obtain ⟨_, row, _, _, rfl⟩ := h
      rfl
  | cancelled | succeeded | retry t message classification domain =>
      cases h
      rfl

/-- The drift after an admission that has stored `allocated` and `amount`. -/
theorem drift_reserve {c : Core} {j : JobId} {k : ℕ} (hfree : c.reservations.lookup (j, k) = none)
    (capacity : Capacity) (amount : Resources ℤ) :
    drift { c with
      capacity, reservations := c.reservations.insert (j, k) { amount, status := .active } } =
      c.drift + (capacity.allocated - c.capacity.allocated - amount) := by
  have hsum := Table.total_insert_of_none (fun _ r => ReservationsRepo.activeAmount r) hfree
    { amount, status := .active }
  have hnew : ReservationsRepo.activeAmount { amount, status := .active } = amount := if_pos rfl
  rw [hnew] at hsum
  unfold drift ReservationsRepo.sumActive
  rw [hsum]
  abel

/-- What an admission stores. -/
theorem stored_of_admits {env : Env} {c : Core} {j : JobId} {k : ℕ} {request : Resources Json}
    {capacity : Capacity} {amount : Resources ℤ}
    (hres : CapacityRepo.tryReserve env c.capacity request = some (some capacity))
    (hamount : ReservationsRepo.storedAmount env request = some amount)
    (hfree : c.reservations.lookup (j, k) = none) :
    ∃ q, c.Admits env j k request q ∧
      (∀ d, capacity.allocated d = roundHalfAway (c.capacity.allocated d + q d)) ∧
      capacity.total = c.capacity.total ∧ ∀ d, amount d = roundHalfAway (q d) := by
  obtain ⟨q, hq, hfit, hmap⟩ := CapacityRepo.tryReserve_eq_some.mp hres
  obtain ⟨q', hq', hamount⟩ := ReservationsRepo.storedAmount_eq_some.mp hamount
  obtain ⟨allocated, hallocated, rfl⟩ := Option.map_eq_some_iff.mp hmap
  rw [hq] at hq'
  cases hq'
  have hsum := Resources.mapM_eq_some.mp hallocated
  have hsingle := Resources.mapM_eq_some.mp hamount
  refine ⟨q, ⟨hq, hfit, hfree, fun d => ⟨?_, ?_⟩⟩, fun d => int4Column_eq_some (hsum d), rfl,
    fun d => int4Column_eq_some (hsingle d)⟩
  · rw [hsum d]
    rfl
  · rw [hsingle d]
    rfl

/-- An admission that goes through goes through. -/
theorem admits_stores {env : Env} {c : Core} {j : JobId} {k : ℕ} {request : Resources Json}
    {q : Resources ℚ} (h : c.Admits env j k request q) :
    ∃ capacity amount, CapacityRepo.tryReserve env c.capacity request = some (some capacity) ∧
      ReservationsRepo.storedAmount env request = some amount := by
  obtain ⟨hq, hfit, _, hrange⟩ := h
  have hsum : ∃ allocated, CapacityRepo.reserved c.capacity q = some allocated := by
    refine ⟨fun d => roundHalfAway (c.capacity.allocated d + q d), Resources.mapM_eq_some.mpr ?_⟩
    intro d
    obtain ⟨n, hn⟩ := Option.isSome_iff_exists.mp (hrange d).1
    rw [hn, int4Column_eq_some hn]
  have hsingle : ∃ amount, Resources.mapM int4Column q = some amount := by
    refine ⟨fun d => roundHalfAway (q d), Resources.mapM_eq_some.mpr fun d => ?_⟩
    obtain ⟨n, hn⟩ := Option.isSome_iff_exists.mp (hrange d).2
    rw [hn, int4Column_eq_some hn]
  obtain ⟨allocated, hallocated⟩ := hsum
  obtain ⟨amount, hamount⟩ := hsingle
  refine ⟨{ c.capacity with allocated }, amount, ?_, ?_⟩
  · refine CapacityRepo.tryReserve_eq_some.mpr ⟨q, hq, hfit, ?_⟩
    rw [hallocated]
    rfl
  · exact ReservationsRepo.storedAmount_eq_some.mpr ⟨q, hq, hamount⟩

end Core

/-- **Only an admission moves the drift**, by the difference of the two roundings. -/
theorem CoreStep.drift {env : Env} {c c' : Core} {i : Input} {op : Op} (h : CoreStep env c i op c') :
    c'.drift = c.drift ∨ ∃ j k request q, op = .reserve j k request ∧ c.Admits env j k request q ∧
      ∀ d, c'.drift d = c.drift d + (roundHalfAway (c.capacity.allocated d + q d) -
        c.capacity.allocated d - roundHalfAway (q d)) := by
  cases h with
  | skip | createJob | transition | setCancelRequested | updateConfig | softDelete |
    clearRetryDispatched | claim => exact Or.inl rfl
  | cancel hj hfrom hp hrel => exact Or.inl hrel.drift
  | finalize hj hown hp hdlq hrel => exact Or.inl (hrel.drift.trans hdlq.drift)
  | reclaim hj hs hexp hrel => exact Or.inl hrel.drift
  | reserve hres hamount hfree =>
      obtain ⟨q, hq, hcap, _, ham⟩ := Core.stored_of_admits hres hamount hfree
      refine Or.inr ⟨_, _, _, q, rfl, hq, fun d => ?_⟩
      rw [Core.drift_reserve hfree, ← hcap d, ← ham d]
      rfl

/-! ### Every run -/

/-- Every admission that the event makes rounds alike. -/
def AdmitsAlike (env : Env) (op : Op) (c : Core) : Prop :=
  ∀ j k request q, op = .reserve j k request → c.Admits env j k request q → c.RoundsAlike q

section Decidable

variable {env : Env} {c : Core}

/-- The amounts of an admission that goes through. -/
def Op.admitted (env : Env) (c : Core) : Op → Option (JobId × Resources ℚ)
  | .reserve j k request =>
      ((CapacityRepo.amounts env request).filter fun q =>
        CapacityRepo.Fits c.capacity q ∧ (c.reservations.lookup (j, k)).isNone ∧
          ∀ d, (int4Column (c.capacity.allocated d + q d)).isSome ∧ (int4Column (q d)).isSome).map
        fun q => (j, q)
  | _ => none

theorem Op.admitted_eq_some {op : Op} {j : JobId} {q : Resources ℚ} :
    op.admitted env c = some (j, q) ↔
      ∃ k request, op = .reserve j k request ∧ c.Admits env j k request q := by
  cases op
  case reserve i k request =>
      simp only [admitted, Option.map_eq_some_iff, Option.filter_eq_some_iff, decide_eq_true_eq,
        Option.isNone_iff_eq_none, Prod.mk.injEq, Op.reserve.injEq]
      constructor
      · rintro ⟨q', ⟨hq, hfit, hnone, hrange⟩, rfl, rfl⟩
        exact ⟨k, request, ⟨rfl, rfl, rfl⟩, hq, hfit, hnone, hrange⟩
      · rintro ⟨_, _, ⟨rfl, rfl, rfl⟩, hq, hfit, hnone, hrange⟩
        exact ⟨q, ⟨hq, hfit, hnone, hrange⟩, rfl, rfl⟩
  all_goals simp [admitted]

/-- What an admission that goes through has to meet can be decided by computing its amounts. -/
instance {R : JobId → Resources ℚ → Prop} [∀ j q, Decidable (R j q)] (op : Op) :
    Decidable (∀ j k request q, op = .reserve j k request → c.Admits env j k request q → R j q) :=
  decidable_of_iff (∀ a ∈ op.admitted env c, R a.1 a.2)
    ⟨fun h j k request q hop hq => h (j, q) (Op.admitted_eq_some.mpr ⟨k, request, hop, hq⟩),
      fun h a ha => by
        obtain ⟨k, request, hop, hq⟩ := Op.admitted_eq_some.mp ha
        exact h a.1 k request a.2 hop hq⟩

instance (q : Resources ℚ) : Decidable (c.RoundsAlike q) :=
  inferInstanceAs (Decidable (∀ d, Int.fract (q d) = 1 / 2 →
    (0 ≤ q d ↔ 0 ≤ (c.capacity.allocated d : ℚ) + q d)))

instance (op : Op) : Decidable (AdmitsAlike env op c) :=
  inferInstanceAs (Decidable (∀ j k request q, op = .reserve j k request →
    c.Admits env j k request q → c.RoundsAlike q))

end Decidable

/-- The difference of the two roundings vanishes exactly if they agree. -/
theorem rounding_gap_eq_zero {a : ℤ} {q : ℚ} :
    roundHalfAway (a + q) - a - roundHalfAway q = 0 ↔
      (Int.fract q = 1 / 2 → (0 ≤ q ↔ 0 ≤ (a : ℚ) + q)) := by
  rw [← roundHalfAway_intCast_add]
  omega

/-- An admission that goes through moves the drift by the gap between the two roundings. -/
theorem drift_of_admits {env : Env} {s : World} {j : JobId} {k : ℕ} {request : Resources Json}
    {q : Resources ℚ} (p : ℕ) (i : Input) (h : s.db.core.Admits env j k request q) (d : Dim) :
    ((Op.reserve j k request).perform env p i s).1.db.core.drift d =
      s.db.core.drift d + (roundHalfAway (s.db.core.capacity.allocated d + q d) -
        s.db.core.capacity.allocated d - roundHalfAway (q d)) := by
  obtain ⟨capacity, amount, hres, hamount⟩ := Core.admits_stores h
  have hfree : s.db.core.reservations.lookup (j, k) = none := h.2.2.1
  obtain ⟨q', hq', hcap, _, ham⟩ := Core.stored_of_admits hres hamount hfree
  have heq : q' = q := Option.some.inj (hq'.1.symm.trans h.1)
  subst heq
  have hinsert : s.db.reservations.insertNew (j, k) { amount, status := .active } =
      some (s.db.reservations.insert (j, k) { amount, status := .active }) :=
    Table.insertNew_eq_some.mpr ⟨hfree, rfl⟩
  have hres' : CapacityRepo.tryReserve env s.db.capacity request = some (some capacity) := hres
  have hcore : ((Op.reserve j k request).perform env p i s).1.db.core =
      { s.db.core with
        capacity
        reservations := s.db.reservations.insert (j, k) { amount, status := .active } } := by
    simp only [Op.perform, admitTx, hres', ReservationsRepo.insert, hamount, hinsert,
      Option.map_some, World.tryWrite, World.write]
    rfl
  have hdrift := congrFun (Core.drift_reserve hfree capacity amount) d
  rw [hcore, ← ham d, ← hcap d]
  exact hdrift

/-- **A statement keeps the balance exactly if the admission it makes, if any, rounds alike.** -/
theorem balanced_iff {env : Env} {s : World} {op : Op} (p : ℕ) (i : Input)
    (h : s.db.core.drift = 0) :
    (op.perform env p i s).1.db.core.drift = 0 ↔ AdmitsAlike env op s.db.core := by
  by_cases hadm : ∃ j k request q, op = .reserve j k request ∧ s.db.core.Admits env j k request q
  · obtain ⟨j, k, request, q, rfl, hq⟩ := hadm
    have hgap := drift_of_admits p i hq
    rw [h] at hgap
    simp only [Pi.zero_apply, zero_add] at hgap
    refine ⟨fun hzero j' k' request' q' hop hq' d => ?_, fun halike => funext fun d => ?_⟩
    · cases hop
      have heq : q' = q := Option.some.inj (hq'.1.symm.trans hq.1)
      rw [heq]
      refine rounding_gap_eq_zero.mp ?_
      have hd := hgap d
      rw [hzero] at hd
      exact hd.symm
    · rw [hgap d]
      exact rounding_gap_eq_zero.mpr (halike j k request q rfl hq d)
  · obtain hskip | ⟨j, k, request, q, hop, hq, _⟩ := (perform_core env p i s op).drift
    · rw [hskip]
      exact ⟨fun _ j k request q hop hq => absurd ⟨j, k, request, q, hop, hq⟩ hadm, fun _ => h⟩
    · exact absurd ⟨j, k, request, q, hop, hq⟩ hadm

theorem drift_beat (env : Env) (s : World) (p : ℕ) (now : Time) :
    (s.beat env p now).db.core.drift = s.db.core.drift := by
  obtain heq | ⟨j, job, w, k, t, _, _, heq⟩ := beat_core env s p now
  · rw [heq]
  · rw [heq]
    rfl

theorem World.Initial.drift {s : World} (h : s.Initial) : s.db.core.drift = 0 := by
  have hdb := h.db
  rw [hdb]
  rfl

/-- **The allocated amounts are the sums of the ACTIVE reservations at every commit boundary of a
run, exactly if every admission of the run rounds alike.** -/
theorem capacity_conserved_iff {env : Env} {s : World} {es : List (SysEvent env)} {c : System env}
    (h : Reaches s es c) :
    (∀ fs m, fs <+: es → Runs.runFrom Config.step ({ shared := s } : System env) fs = some m →
      ∀ d, m.shared.db.capacity.allocated d =
        ReservationsRepo.sumActive m.shared.db.reservations d) ↔
      Runs.Always Config.step (Meets fun op _ db => AdmitsAlike env op db.core)
        ({ shared := s } : System env) es := by
  have hbalanced : ∀ m : System env, (∀ d, m.shared.db.capacity.allocated d =
      ReservationsRepo.sumActive m.shared.db.reservations d) ↔ m.shared.db.core.drift = 0 := by
    intro m
    unfold Core.drift
    rw [sub_eq_zero]
    exact funext_iff.symm
  simp only [hbalanced]
  refine Runs.invariant_iff_always (I := fun m : System env => m.shared.db.core.drift = 0) ?_
    h.1.drift h.2
  intro c e c' hc hstep
  exact Config.atStep_iff (M := platform env) (I := fun s => s.db.core.drift = 0) hc
    (fun p i _ _ => balanced_iff p i hc)
    (fun _ => hc) (fun a => (drift_beat env c.shared a.1 a.2).trans hc) hstep

/-- A job that asks for an amount of cpu. -/
def cpuRequest (q : ℚ) : JobCreate :=
  { noop with config := some [("resources", .obj [("cpu", .num q)])] }

/-- Job 1 asks for one cpu, and job 2 for minus one half of a cpu. -/
def halfRequested : List (SysEvent Env.standard) :=
  session 0 (.createJob (cpuRequest 1)) 1 { uuid := 1 } ++
    session 1 (.createJob (cpuRequest (-1 / 2))) 1 { uuid := 2, now := 1 } ++
    session 2 .schedulerRunOnce 15 { now := 1 }

/-- **The counter drifts**: one half is rounded up in the counter, and down in the reservation. -/
theorem half_request_drifts : ∃ c : System Env.standard, Reaches World.fresh halfRequested c ∧
    c.shared.db.capacity.allocated .cpu = 1 ∧
      ReservationsRepo.sumActive c.shared.db.reservations .cpu = 0 :=
  exists_reaches World.fresh_initial _ (by decide +kernel)

/-- The counter of the run that admits one job is the reserved amount. -/
theorem admitted_job_counted : ∃ c : System Env.standard, c.shared.db.core.Active 1 1 ∧
    c.shared.db.capacity.allocated .cpu =
      ReservationsRepo.sumActive c.shared.db.reservations .cpu := by
  obtain ⟨c, hc, hact⟩ := exists_reaches World.fresh_initial (admitJob noop)
    (P := fun c => c.shared.db.core.Active 1 1) (by decide +kernel)
  refine ⟨c, hact, (capacity_conserved_iff hc).mpr ?_ _ c (List.prefix_refl _) hc.2 .cpu⟩
  decide +kernel

end PosttrainPlatform
