import Mathlib.Algebra.Order.Pi
import PosttrainPlatform.Properties.Conservation

/-!
# No attempt runs on capacity that it was not granted

When requests are natural numbers, the allocated amounts never exceed the capacity, are exactly the
sums of the ACTIVE reservations, and every live attempt stands behind one of those.
-/

namespace PosttrainPlatform

open Programs

namespace Core

/-- Attempt `k` of the job is live, under whichever worker. -/
def Live (c : Core) (j : JobId) (k : ℕ) : Prop :=
  ∃ job ∈ c.jobs.lookup j, job.status = .running ∧ job.leaseOwner.isSome ∧ job.attemptNumber = k

instance (c : Core) (j : JobId) (k : ℕ) : Decidable (c.Live j k) :=
  inferInstanceAs (Decidable (∃ job ∈ c.jobs.lookup j, _))

/-- The amounts of the reservations of all live attempts. -/
def liveAmount (c : Core) : Resources ℤ :=
  Table.total (fun key r => if c.Live key.1 key.2 then r.amount else 0) c.reservations

theorem Backed.active_of_live {c : Core} (h : c.Backed) {j : JobId} {k : ℕ} (hlive : c.Live j k) :
    c.Active j k := by
  obtain ⟨job, hj, hs, howner, rfl⟩ := hlive
  exact (h.job j job hj).live hs howner

/-- The counter is right and within the capacity, and no reservation is negative. -/
structure Solvent (c : Core) : Prop where
  balanced : c.drift = 0
  positive : ∀ key r, c.reservations.lookup key = some r → 0 ≤ r.amount
  within : c.capacity.allocated ≤ c.capacity.total

theorem Released.solvent {c c' : Core} {j : JobId} {k : ℕ} (h : c.Released j k c')
    (hs : c.Solvent) : c'.Solvent := by
  refine ⟨h.drift.trans hs.balanced, ?_, ?_⟩
  · obtain ⟨rfl, _⟩ | ⟨r, hr, _, rfl⟩ := h
    · exact hs.positive
    · intro key r' hkey
      rw [Table.lookup_insert_eq] at hkey
      split at hkey
      · cases hkey
        exact hs.positive _ r hr
      · exact hs.positive key r' hkey
  · obtain ⟨rfl, _⟩ | ⟨r, hr, _, rfl⟩ := h
    · exact hs.within
    · exact (sub_le_self _ (hs.positive _ r hr)).trans hs.within

theorem Buried.solvent {c c' : Core} {j : JobId} {k : ℕ} {ending : Ending}
    (h : c.Buried j k ending c') (hs : c.Solvent) : c'.Solvent := by
  cases ending with
  | failed message classification domain =>
      obtain ⟨_, row, _, _, rfl⟩ := h
      exact ⟨hs.balanced, hs.positive, hs.within⟩
  | cancelled | succeeded | retry t message classification domain =>
      cases h
      exact hs

/-- An admission of natural numbers. -/
theorem Solvent.reserve {env : Env} {c : Core} (hs : c.Solvent) {j : JobId} {k : ℕ}
    {request : Resources Json} {capacity : Capacity} {amount : Resources ℤ}
    (hnat : ∀ q, c.Admits env j k request q → ∀ d, ∃ n : ℕ, q d = n)
    (hres : CapacityRepo.tryReserve env c.capacity request = some (some capacity))
    (hamount : ReservationsRepo.storedAmount env request = some amount)
    (hfree : c.reservations.lookup (j, k) = none) :
    Solvent { c with
      capacity, reservations := c.reservations.insert (j, k) { amount, status := .active } } := by
  obtain ⟨q, hadm, hcap, htotal, ham⟩ := stored_of_admits hres hamount hfree
  have hamount' : ∀ d, 0 ≤ amount d ∧ (amount d : ℚ) = q d := by
    intro d
    obtain ⟨n, hn⟩ := hnat q hadm d
    have hint : q d = ((n : ℤ) : ℚ) := by rw [hn, Int.cast_natCast]
    rw [ham d, hint, roundHalfAway_intCast]
    exact ⟨Int.natCast_nonneg n, rfl⟩
  have hallocated : capacity.allocated = c.capacity.allocated + amount := by
    funext d
    rw [hcap d, ← (hamount' d).2, ← Int.cast_add, roundHalfAway_intCast]
    rfl
  refine ⟨?_, fun key r hkey => ?_, ?_⟩
  · rw [drift_reserve hfree, hs.balanced, hallocated, add_sub_cancel_left, sub_self, add_zero]
  · rw [Table.lookup_insert_eq] at hkey
    split at hkey
    · cases hkey
      exact fun d => (hamount' d).1
    · exact hs.positive key r hkey
  · intro d
    have hle := hadm.2.1 d
    rw [← (hamount' d).2, ← Int.cast_add] at hle
    simp only [hallocated, htotal]
    exact Int.cast_le.mp hle

/-- The counter of a solvent core is not negative. -/
theorem Solvent.allocated_nonneg {c : Core} (hs : c.Solvent) : 0 ≤ c.capacity.allocated := by
  have hbalance : c.capacity.allocated = ReservationsRepo.sumActive c.reservations :=
    sub_eq_zero.mp hs.balanced
  rw [hbalance]
  have hzero : Table.total (fun _ _ => 0) c.reservations = (0 : Resources ℤ) := by
    simp [Table.total]
  rw [← hzero]
  apply Table.total_le_total
  intro key r hr
  unfold ReservationsRepo.activeAmount
  split
  · exact hs.positive key r hr
  · exact le_refl _

/-- **The reservations of the live attempts fit into the cluster.** -/
theorem Solvent.liveAmount_le {c : Core} (hs : c.Solvent) (hb : c.Backed) :
    c.liveAmount ≤ c.capacity.total := by
  have hle : c.liveAmount ≤ ReservationsRepo.sumActive c.reservations := by
    refine Table.total_le_total fun key r hr => ?_
    have hpos : 0 ≤ ReservationsRepo.activeAmount r := by
      unfold ReservationsRepo.activeAmount
      split
      · exact hs.positive key r hr
      · exact le_refl _
    split
    · rename_i hlive
      obtain ⟨r', hr', hact⟩ := hb.active_of_live hlive
      rw [Option.mem_def, hr] at hr'
      cases hr'
      exact (if_pos hact : ReservationsRepo.activeAmount r = r.amount).ge
    · exact hpos
  have hbalance : c.capacity.allocated = ReservationsRepo.sumActive c.reservations :=
    sub_eq_zero.mp hs.balanced
  rw [← hbalance] at hle
  exact hle.trans hs.within

end Core

/-- The request of an admission consists of natural numbers. -/
def NaturalRequest (op : Op) : Prop :=
  ∀ j k request, op = .reserve j k request → ∀ d, ∃ n : ℕ, request d = .num n

/-- The value is a natural number. -/
def Json.isNatural : Json → Bool
  | .num q => q == q.num.toNat
  | .null | .bool _ | .nan | .infinity _ | .str _ | .arr _ | .obj _ => false

theorem Json.isNatural_iff {value : Json} : value.isNatural = true ↔ ∃ n : ℕ, value = .num n := by
  cases value with
  | num q =>
      simp only [isNatural, beq_iff_eq, Json.num.injEq]
      constructor
      · exact fun h => ⟨q.num.toNat, h⟩
      · rintro ⟨n, rfl⟩
        simp
  | null | bool | nan | infinity | str | arr | obj => simp [isNatural]

def NaturalRequest.check : Op → Bool
  | .reserve _ _ request => decide (∀ d, (request d).isNatural = true)
  | _ => true

theorem NaturalRequest.check_iff {op : Op} : NaturalRequest.check op = true ↔ NaturalRequest op := by
  cases op
  case reserve j k request =>
      simp only [check, decide_eq_true_eq, Json.isNatural_iff]
      refine ⟨?_, fun h => h j k request rfl⟩
      rintro h _ _ _ heq
      cases heq
      exact h
  all_goals exact iff_of_true rfl fun _ _ _ h => by cases h

instance : DecidablePred NaturalRequest := fun _ => decidable_of_iff _ NaturalRequest.check_iff

/-- The amounts of the admission that the statement makes, if it makes one, are natural numbers. -/
def AdmitsNatural (env : Env) (op : Op) (c : Core) : Prop :=
  ∀ j k request q, op = .reserve j k request → c.Admits env j k request q → ∀ d, ∃ n : ℕ, q d = n

theorem NaturalRequest.admits {env : Env} {op : Op} (h : NaturalRequest op) (c : Core) :
    AdmitsNatural env op c := by
  intro j k request q hop hadm d
  obtain ⟨ops, hops, hvalues⟩ := Option.bind_eq_some_iff.mp hadm.1
  obtain ⟨n, hn⟩ := h j k request hop d
  have hoperand := Resources.mapM_eq_some.mp hops d
  rw [hn] at hoperand
  have hvalue := Resources.mapM_eq_some.mp hvalues d
  rw [← Option.some.inj hoperand] at hvalue
  exact ⟨n, (Option.some.inj hvalue).symm⟩

theorem CoreStep.solvent {env : Env} {c c' : Core} {i : Input} {op : Op} (h : CoreStep env c i op c')
    (hs : c.Solvent) (hop : AdmitsNatural env op c) : c'.Solvent := by
  cases h with
  | skip => exact hs
  | createJob | transition | setCancelRequested | updateConfig | softDelete |
    clearRetryDispatched | claim => exact ⟨hs.balanced, hs.positive, hs.within⟩
  | cancel hj hfrom hp hrel => exact hrel.solvent ⟨hs.balanced, hs.positive, hs.within⟩
  | finalize hj hown hp hdlq hrel =>
      exact hrel.solvent (hdlq.solvent ⟨hs.balanced, hs.positive, hs.within⟩)
  | reclaim hj hexp hp hrel => exact hrel.solvent ⟨hs.balanced, hs.positive, hs.within⟩
  | reserve hres hamount hfree => exact hs.reserve (fun q => hop _ _ _ q rfl) hres hamount hfree

theorem World.Initial.solvent {s : World} (h : s.Initial) : s.db.core.Solvent := by
  have hdb := h.db
  refine ⟨h.drift, fun key r hr => ?_, fun d => ?_⟩
  · rw [hdb] at hr
    cases hr
  · rw [hdb]
    exact h.total d

/-- **Admissions of natural numbers keep the core solvent.** -/
theorem solvent_of_reaches {env : Env} {s : World} {es : List (SysEvent env)} {c : System env}
    (h : Reaches s es c)
    (hreq : Runs.Always Config.step (Meets fun op _ db => AdmitsNatural env op db.core)
      ({ shared := s } : System env) es) : c.shared.db.core.Solvent := by
  refine core_invariant_of_reaches (φ := fun op _ c => AdmitsNatural env op c) ?_ ?_ h h.1.solvent hreq
  · exact fun c c' i op _ hs hop hstep => hstep.solvent hs hop
  · exact fun c j job w k t hs _ _ => ⟨hs.balanced, hs.positive, hs.within⟩

/-- **No worker ever executes on capacity that it was not granted, and the cluster is never
over-committed.** -/
theorem live_attempts_granted {env : Env} {s : World} {es : List (SysEvent env)} {c : System env}
    (h : Reaches s es c)
    (hreq : Runs.Always Config.step (Meets fun op _ _ => NaturalRequest op)
      ({ shared := s } : System env) es) :
    (∀ j k k', c.shared.db.core.Active j k → c.shared.db.core.Active j k' → k = k') ∧
      (∀ j w k, c.shared.db.Owns j w k → c.shared.db.core.Active j k) ∧
      c.shared.db.core.liveAmount ≤ c.shared.db.capacity.total := by
  have hb := backed_of_reaches h
  have hs : c.shared.db.core.Solvent :=
    solvent_of_reaches h (Config.always_atStep_mono (fun op _ s hop => hop.admits s.db.core) hreq)
  refine ⟨fun j k k' hk hk' => ?_, fun j w k hown => ?_, hs.liveAmount_le hb⟩
  · cases hj : c.shared.db.core.jobs.lookup j with
    | some job => exact (hb.job j job hj).active_unique hk hk'
    | none =>
        obtain ⟨r, hr, _⟩ := hk
        have hnone := hb.orphan j hj k
        rw [Core.rowsOf, Option.mem_def.mp hr] at hnone
        cases hnone
  · obtain ⟨job, hj, hs, howner, hk⟩ := hown
    exact hb.active_of_live ⟨job, hj, hs, Option.isSome_iff_exists.mpr ⟨w, howner⟩, hk⟩

/-- Job 1 is claimed by worker 7 with its grant. -/
theorem claimed_job_granted : ∃ c : System Env.standard, c.shared.db.Owns 1 7 1 ∧
    c.shared.db.core.Active 1 1 ∧ c.shared.db.core.liveAmount ≤ c.shared.db.capacity.total := by
  obtain ⟨c, hc, hown⟩ := exists_reaches World.fresh_initial
    (admitJob noop ++ session 2 (.processJobMessage 1 7) 1 {})
    (P := fun c => c.shared.db.Owns 1 7 1) (by decide +kernel)
  obtain ⟨_, hgrant, hfit⟩ := live_attempts_granted hc (by decide +kernel)
  exact ⟨c, hown, hgrant 1 7 1 hown, hfit⟩

/-! ### The bounds of the counter -/

/-- The amounts of the admission that the statement makes, if it makes one, are integers. -/
def AdmitsIntegers (env : Env) (op : Op) (c : Core) : Prop :=
  ∀ j k request q, op = .reserve j k request → c.Admits env j k request q → ∀ d, ∃ n : ℤ, q d = n

/-- The admission that the statement makes, if it makes one, asks for no negative amount. -/
def AdmitsNonnegative (env : Env) (op : Op) (c : Core) : Prop :=
  ∀ j k request q, op = .reserve j k request → c.Admits env j k request q → ∀ d, 0 ≤ q d

instance decidableIntegral (q : ℚ) : Decidable (∃ n : ℤ, q = n) :=
  decidable_of_iff (q = q.num) ⟨fun h => ⟨q.num, h⟩, fun ⟨n, h⟩ => by rw [h, Rat.num_intCast]⟩

instance {env : Env} {op : Op} {c : Core} : Decidable (AdmitsIntegers env op c) :=
  inferInstanceAs (Decidable (∀ j k request q, op = .reserve j k request →
    c.Admits env j k request q → ∀ d, ∃ n : ℤ, q d = n))

instance {env : Env} {op : Op} {c : Core} : Decidable (AdmitsNonnegative env op c) :=
  inferInstanceAs (Decidable (∀ j k request q, op = .reserve j k request →
    c.Admits env j k request q → ∀ d, 0 ≤ q d))

theorem AdmitsIntegers.natural {env : Env} {op : Op} {c : Core} (h : AdmitsIntegers env op c)
    (h0 : AdmitsNonnegative env op c) : AdmitsNatural env op c := by
  intro j k request q hop hadm d
  obtain ⟨n, hn⟩ := h j k request q hop hadm d
  have hpos := h0 j k request q hop hadm d
  rw [hn] at hpos ⊢
  refine ⟨n.toNat, ?_⟩
  have hnat : ((n.toNat : ℤ) : ℚ) = n := by rw [Int.toNat_of_nonneg (Int.cast_nonneg_iff.mp hpos)]
  rw [← hnat, Int.cast_natCast]

/-- **When jobs ask for integers and no admitted amount is negative, the allocated amounts stay
between zero and the capacity.** -/
theorem capacity_within_bounds {env : Env} {s : World} {es : List (SysEvent env)} {c : System env}
    (h : Reaches s es c)
    (hint : Runs.Always Config.step (Meets fun op _ db => AdmitsIntegers env op db.core)
      ({ shared := s } : System env) es)
    (hpos : Runs.Always Config.step (Meets fun op _ db => AdmitsNonnegative env op db.core)
      ({ shared := s } : System env) es) :
    ∀ d, 0 ≤ c.shared.db.capacity.allocated d ∧
      c.shared.db.capacity.allocated d ≤ c.shared.db.capacity.total d := by
  have hs : c.shared.db.core.Solvent := by
    apply solvent_of_reaches h
    apply Config.always_atStep_mono ?_ (Config.always_atStep_and hint hpos)
    exact fun op _ s hop => hop.1.natural hop.2
  exact fun d => ⟨hs.allocated_nonneg d, hs.within d⟩

/-- Job 1 asks for minus one cpu, and is admitted. -/
def negativeAdmitted : List (SysEvent Env.standard) := admitJob (cpuRequest (-1))

/-- **A negative request is admitted**, and the counter of an idle cluster falls below zero. -/
theorem negative_request_underflows : ∃ c : System Env.standard,
    Reaches World.fresh negativeAdmitted c ∧
      Runs.Always Config.step (Meets fun op _ db => AdmitsIntegers Env.standard op db.core)
        ({ shared := World.fresh } : System Env.standard) negativeAdmitted ∧
      c.shared.db.capacity.allocated .cpu = -1 :=
  exists_reaches World.fresh_initial _ (by decide +kernel)

/-- A job that asks for two cpus is counted within the capacity. -/
theorem admitted_job_within_bounds : ∃ c : System Env.standard, c.shared.db.core.Active 1 1 ∧
    ∀ d, 0 ≤ c.shared.db.capacity.allocated d ∧
      c.shared.db.capacity.allocated d ≤ c.shared.db.capacity.total d := by
  obtain ⟨c, hc, hact⟩ := exists_reaches World.fresh_initial (admitJob (cpuRequest 2))
    (P := fun c => c.shared.db.core.Active 1 1) (by decide +kernel)
  exact ⟨c, hact, capacity_within_bounds hc (by decide +kernel) (by decide +kernel)⟩

end PosttrainPlatform
