import PosttrainPlatform.Repository.Jobs

/-!
# `app/repository/capacity.py`, `reservations.py`, `scheduling_decisions.py` and `outbox.py`

The capacity row keeps the allocated amounts incrementally, beside the reservations they come from.
A statement that Postgres rejects (a type error, an integer out of range, a duplicate key) is `none`:
its transaction is rolled back and the exception leaves the caller.
-/

namespace PosttrainPlatform

namespace CapacityRepo

/-- The amounts of a request, when Postgres takes all of them as numbers. -/
def amounts (env : Env) (request : Resources Json) : Option (Resources ℚ) :=
  (Resources.mapM (sqlOperand env) request).bind (Resources.mapM Operand.value?)

/-- The `WHERE` clause of `try_reserve` for amounts that are numbers. -/
def Fits (cap : Capacity) (q : Resources ℚ) : Prop :=
  ∀ d, (cap.allocated d : ℚ) + q d ≤ cap.total d

instance (cap : Capacity) (q : Resources ℚ) : Decidable (Fits cap q) :=
  inferInstanceAs (Decidable (∀ d, (cap.allocated d : ℚ) + q d ≤ cap.total d))

/-- The amounts `try_reserve` stores in the allocated columns. -/
def reserved (cap : Capacity) (q : Resources ℚ) : Option (Resources ℤ) :=
  Resources.mapM int4Column fun d => (cap.allocated d : ℚ) + q d

/-- `try_reserve`: `none` is an error, `some none` an `UPDATE` of no row.  A NULL amount makes the
comparison NULL. -/
def tryReserve (env : Env) (cap : Capacity) (request : Resources Json) :
    Option (Option Capacity) :=
  match Resources.mapM (sqlOperand env) request with
  | none => none
  | some ops =>
      match Resources.mapM Operand.value? ops with
      | none => some none
      | some q =>
          if Fits cap q then
            match reserved cap q with
            | some allocated => some (some { cap with allocated })
            | none => none
          else some none

theorem tryReserve_eq_some {env : Env} {cap cap' : Capacity} {request : Resources Json} :
    tryReserve env cap request = some (some cap') ↔ ∃ q, amounts env request = some q ∧
      Fits cap q ∧ (reserved cap q).map (fun allocated => { cap with allocated }) = some cap' := by
  unfold tryReserve amounts
  cases Resources.mapM (sqlOperand env) request with
  | none => simp
  | some ops =>
      simp only [Option.bind_some]
      cases Resources.mapM Operand.value? ops with
      | none => simp
      | some q =>
          by_cases hfit : Fits cap q
          · simp only [Option.some.injEq, exists_eq_left', hfit, if_true, true_and]
            cases reserved cap q <;> simp
          · simp [hfit]

/-- `release`: decrement the allocated amounts; `none` is "integer out of range". -/
def release (cap : Capacity) (amount : Resources ℤ) : Option Capacity :=
  (Resources.mapM (fun n : ℤ => int4Column n) (cap.allocated - amount)).map fun allocated =>
    { cap with allocated }

theorem release_eq_some {cap cap' : Capacity} {amount : Resources ℤ}
    (h : release cap amount = some cap') :
    cap' = { cap with allocated := cap.allocated - amount } := by
  obtain ⟨allocated, ha, rfl⟩ := Option.map_eq_some_iff.mp h
  have heq : allocated = cap.allocated - amount := funext fun d => by
    rw [int4Column_eq_some (Resources.mapM_eq_some.mp ha d), roundHalfAway_intCast]
  rw [heq]

/-- The number a stored JSON value is in Python arithmetic; `none` raises `TypeError`. -/
def pyNumber : Json → Option ℚ
  | .num q => some q
  | .bool b => some (if b then 1 else 0)
  | .null | .nan | .infinity _ | .str _ | .arr _ | .obj _ => none

/-- One comparison of `which_dimension_insufficient`: the reason it returns, if it returns one. -/
def dimensionReason (cap : Capacity) (d : Dim) (reason : String) (q : ℚ) : Option String :=
  if (cap.total d : ℚ) < cap.allocated d + q then
    some (if (cap.total d : ℚ) < q then "exceeds_total_cluster_capacity" else reason)
  else none

/-- `which_dimension_insufficient`, in its order: cpu, memory, gpu. -/
def whichDimensionInsufficient (cap : Capacity) (request : Resources Json) : Option String :=
  match pyNumber (request .cpu) with
  | none => none
  | some c =>
    match dimensionReason cap .cpu "insufficient_cpu_capacity" c with
    | some reason => some reason
    | none =>
      match pyNumber (request .memoryMb) with
      | none => none
      | some m =>
        match dimensionReason cap .memoryMb "insufficient_memory_capacity" m with
        | some reason => some reason
        | none =>
          match pyNumber (request .gpu) with
          | none => none
          | some g =>
              some ((dimensionReason cap .gpu "insufficient_gpu_capacity" g).getD
                "resources_available")

end CapacityRepo

namespace ReservationsRepo

/-- `has_active`. -/
def hasActive (db : Db) (j : JobId) (k : ℕ) : Bool :=
  decide (JobsRepo.HasReservation db.reservations j k)

/-- The amounts an insert stores for requested values; `none` is an error. -/
def storedAmount (env : Env) (request : Resources Json) : Option (Resources ℤ) :=
  match Resources.mapM (sqlOperand env) request with
  | none => none
  | some ops =>
      match Resources.mapM Operand.value? ops with
      | none => none
      | some q => Resources.mapM int4Column q

theorem storedAmount_eq_some {env : Env} {request : Resources Json} {amount : Resources ℤ} :
    storedAmount env request = some amount ↔
      ∃ q, CapacityRepo.amounts env request = some q ∧
        Resources.mapM int4Column q = some amount := by
  unfold storedAmount CapacityRepo.amounts
  cases Resources.mapM (sqlOperand env) request with
  | none => simp
  | some ops =>
      simp only [Option.bind_some]
      cases Resources.mapM Operand.value? ops <;> simp

/-- `insert`. -/
def insert (env : Env) (db : Db) (j : JobId) (k : ℕ) (request : Resources Json) : Option Db :=
  match storedAmount env request with
  | none => none
  | some amount =>
      (db.reservations.insertNew (j, k) { amount, status := .active }).map fun reservations =>
        { db with reservations }

/-- `release` of a reservation, and of its amounts in the capacity row when this call won the
transition from ACTIVE.  Every caller in the repository runs the two together. -/
def release (db : Db) (j : JobId) (k : ℕ) : Option Db :=
  match db.reservations.lookup (j, k) with
  | some r =>
      if r.status = .active then
        (CapacityRepo.release db.capacity r.amount).map fun capacity =>
          { db with
            reservations := db.reservations.insert (j, k) { r with status := .released }
            capacity }
      else some db
  | none => some db

/-- The amount a reservation adds to `sum_active`. -/
def activeAmount (r : Reservation) : Resources ℤ := if r.status = .active then r.amount else 0

/-- `sum_active`. -/
def sumActive (reservations : Table (JobId × ℕ) Reservation) : Resources ℤ :=
  Table.total (fun _ r => activeAmount r) reservations

/-- **A release changes nothing, or moves the one active reservation it names to RELEASED.** -/
theorem release_cases {db db' : Db} {j : JobId} {k : ℕ} (h : release db j k = some db') :
    (db' = db ∧ ¬ JobsRepo.HasReservation db.reservations j k) ∨
      ∃ r, db.reservations.lookup (j, k) = some r ∧ r.status = .active ∧
        db' = { db with
          reservations := db.reservations.insert (j, k) { r with status := .released }
          capacity := { db.capacity with allocated := db.capacity.allocated - r.amount } } := by
  unfold release at h
  unfold JobsRepo.HasReservation
  cases hr : db.reservations.lookup (j, k) with
  | none =>
      rw [hr] at h
      exact Or.inl ⟨(Option.some.inj h).symm, by simp⟩
  | some r =>
      simp only [hr] at h
      by_cases hact : r.status = .active
      · rw [if_pos hact] at h
        obtain ⟨capacity, hcap, rfl⟩ := Option.map_eq_some_iff.mp h
        exact Or.inr ⟨r, rfl, hact, by rw [CapacityRepo.release_eq_some hcap]⟩
      · rw [if_neg hact] at h
        exact Or.inl ⟨(Option.some.inj h).symm, by simpa using hact⟩

/-- A release writes reservations and capacity. -/
theorem release_frame {db db' : Db} {j : JobId} {k : ℕ} (h : release db j k = some db') :
    db' = { db with reservations := db'.reservations, capacity := db'.capacity } := by
  obtain ⟨rfl, _⟩ | ⟨r, _, _, rfl⟩ := release_cases h
  · rfl
  · rfl

end ReservationsRepo

namespace OutboxRepo

/-- The row written by `insert_event(db, j, "job.queued")`, which commits. -/
def insertEvent (db : Db) (j : JobId) (now : Time) : Db :=
  { db with outbox := db.outbox ++ [{ jobId := j, createdAt := now }] }

/-- `list_unpublished`: positions and jobs of the oldest hundred unpublished rows. -/
def listUnpublished (db : Db) : List (ℕ × JobId) :=
  (((db.outbox.zipIdx.filter fun r => r.1.publishedAt.isNone).insertionSort fun a b =>
    a.1.createdAt ≤ b.1.createdAt).take 100).map fun r => (r.2, r.1.jobId)

/-- `mark_published`. -/
def markPublished (db : Db) (i : ℕ) (now : Time) : Db :=
  { db with outbox := db.outbox.modify i fun row => { row with publishedAt := some now } }

end OutboxRepo

namespace DecisionsRepo

/-- `scheduling_decisions.insert` and the commit after it; `none` is an error. -/
def insert (env : Env) (db : Db) (j : JobId) (decision : DecisionKind) (reason : String)
    (request : Resources Json) (cap : Capacity) (effectivePriority : ℚ) : Option Db :=
  match ReservationsRepo.storedAmount env request with
  | none => none
  | some requested =>
      some { db with
        schedulingDecisions := db.schedulingDecisions ++
          [{ jobId := j, decision, reason, requested,
             availableSnapshot := cap.total - cap.allocated, effectivePriority }] }

end DecisionsRepo

end PosttrainPlatform
