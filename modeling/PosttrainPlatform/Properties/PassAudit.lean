import PosttrainPlatform.Properties.Scheduling
import PosttrainPlatform.Properties.WaitingReasons

/-!
# The audit trail of a pass

The policy asks for one decision for each candidate of a pass.  The loop writes one for each turn, and
none for the candidates that it skips when the admission cap is reached.
-/

namespace PosttrainPlatform

open Programs Service

/-- The turn ends with an admission. -/
def admits (env : Env) (turn : Capacity × JobId × Job) : Bool :=
  (admission env turn.1 turn.2.2).isSome

/-- The reason that the decision of a turn should give. -/
def turnReason (env : Env) (turn : Capacity × JobId × Job) : Option String :=
  if admits env turn then some "resources_available" else waitingReason env turn.1 turn.2.2

/-- Jobs and reasons of decisions. -/
def reasonsOf (decisions : List SchedulingDecision) : List (JobId × Option String) :=
  decisions.map fun d => (d.jobId, some d.reason)

/-- The loop from `n` admissions left on, when it returns. -/
structure LoopAudit (env : Env) (n : ℕ) (ranked : List (JobId × Job)) (db db' : Db)
    (before after : ℕ × ℕ) : Prop where
  counted : after.1 = before.1 + (passTurns env n db.capacity ranked).countP (admits env)
  total : after.1 + after.2 = before.1 + before.2 + ranked.length
  reserved : ∀ j k, JobsRepo.HasReservation db'.reservations j k ↔
    JobsRepo.HasReservation db.reservations j k ∨
      ∃ turn ∈ passTurns env n db.capacity ranked, admits env turn = true ∧
        turn.2.1 = j ∧ turn.2.2.attemptNumber + 1 = k
  written : ∃ decisions, db'.schedulingDecisions = db.schedulingDecisions ++ decisions ∧
    reasonsOf decisions = (passTurns env n db.capacity ranked).map fun turn =>
      (turn.2.1, turnReason env turn)

section Loop

variable {env : Env} {n m : ℕ} {ranked : List (JobId × Job)} {c : JobId × Job} {db db₁ db' : Db}
  {before after : ℕ × ℕ}

/-- What a turn writes. -/
theorem TurnEnds.written {b : Bool} (h : TurnEnds env c.1 c.2 db db₁ (.ok b)) :
    (∃ d, db₁.schedulingDecisions = db.schedulingDecisions ++ [d] ∧
        (d.jobId, some d.reason) = (c.1, turnReason env (db.capacity, c))) ∧
      admits env (db.capacity, c) = b ∧
      ∀ j k, JobsRepo.HasReservation db₁.reservations j k ↔
        JobsRepo.HasReservation db.reservations j k ∨
          (b = true ∧ c.1 = j ∧ c.2.attemptNumber + 1 = k) := by
  cases h with
  | @admitted capacity row outbox d hh htake hrow hj hd hreason hdb =>
      have hadmits : admits env (db.capacity, c) = true := by
        show (admission env db.capacity c.2).isSome = true
        rw [htake]
        rfl
      subst hdb
      refine ⟨⟨d, rfl, ?_⟩, hadmits, fun j k => ?_⟩
      · rw [turnReason, if_pos hadmits, hj, hreason]
      · unfold JobsRepo.HasReservation
        rw [Table.lookup_insert_eq]
        by_cases hkey : (j, k) = (c.1, c.2.attemptNumber + 1)
        · rw [if_pos hkey]
          cases hkey
          exact iff_of_true ⟨row, rfl, hrow⟩ (Or.inr ⟨rfl, rfl, rfl⟩)
        · rw [if_neg hkey, or_iff_left]
          rintro ⟨_, rfl, rfl⟩
          exact hkey rfl
  | @waiting d hh htake hj hd hreason hdb =>
      have hadmits : admits env (db.capacity, c) = false := by
        show (admission env db.capacity c.2).isSome = false
        rw [htake]
        rfl
      subst hdb
      refine ⟨⟨d, rfl, ?_⟩, hadmits, fun j k => by simp⟩
      rw [turnReason, if_neg (by simp [hadmits]), hj, ← hreason]

/-- A turn, and the loop after it. -/
theorem LoopAudit.cons {b : Bool} (hturns : passTurns env n db.capacity (c :: ranked) =
      (db.capacity, c) :: passTurns env m db₁.capacity ranked)
    (hturn : TurnEnds env c.1 c.2 db db₁ (.ok b))
    (h : LoopAudit env m ranked db₁ db'
      (before.1 + (if b then 1 else 0), before.2 + (if b then 0 else 1)) after) :
    LoopAudit env n (c :: ranked) db db' before after := by
  obtain ⟨⟨d, hd, hreason⟩, hadmits, hres⟩ := hturn.written
  refine ⟨?_, ?_, fun j k => ?_, ?_⟩
  · rw [h.counted, hturns, List.countP_cons, hadmits]
    show before.1 + (if b then 1 else 0) + _ = before.1 + (_ + (if b = true then 1 else 0))
    omega
  · rw [h.total, List.length_cons]
    cases b
    · show before.1 + 0 + (before.2 + 1) + ranked.length = _
      omega
    · show before.1 + 1 + (before.2 + 0) + ranked.length = _
      omega
  · rw [h.reserved, hres, hturns]
    simp only [List.mem_cons, exists_eq_or_imp, hadmits, or_assoc]
  · obtain ⟨decisions, hdecisions, hreasons⟩ := h.written
    refine ⟨d :: decisions, ?_, ?_⟩
    · rw [hdecisions, hd, List.append_assoc]
      rfl
    · rw [hturns, List.map_cons, ← hreasons, ← hreason]
      rfl

end Loop

/-! ### Natural requests -/

section Natural

variable {env : Env} {cap cap' : Capacity} {job : Job} {amount : Resources ℕ}

/-- What a column takes is in its range. -/
theorem int4Column_bounds {q : ℚ} {n : ℤ} (h : int4Column q = some n) :
    -2147483648 ≤ n ∧ n ≤ 2147483647 := by
  unfold int4Column at h
  split at h
  · rename_i hbounds
    cases h
    exact hbounds
  · cases h

end Natural

/-! ### The whole pass -/

end PosttrainPlatform
