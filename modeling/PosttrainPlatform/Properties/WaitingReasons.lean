import PosttrainPlatform.Repository.Reservations

/-!
# The reason of a waiting job

`which_dimension_insufficient` stops at the first dimension that is short.  It tells the truth about
requests that the cluster can never hold only where that dimension is one of those that it can never
hold.
-/

namespace PosttrainPlatform

/-- A request of natural numbers. -/
def requestOf (amount : Resources ℕ) : Resources Json := fun d => .num (amount d)

/-- The values of the row are values of its integer columns. -/
def Capacity.InRange (cap : Capacity) : Prop :=
  ∀ d, (-2147483648 ≤ cap.total d ∧ cap.total d ≤ 2147483647) ∧
    (-2147483648 ≤ cap.allocated d ∧ cap.allocated d ≤ 2147483647)

instance (cap : Capacity) : Decidable cap.InRange :=
  inferInstanceAs (Decidable (∀ _, _ ∧ _))

/-- The request exceeds the total of the dimension. -/
def Exceeds (cap : Capacity) (amount : Resources ℕ) (d : Dim) : Prop := cap.total d < amount d

/-- What is free in the dimension is less than the request. -/
def Short (cap : Capacity) (amount : Resources ℕ) (d : Dim) : Prop :=
  cap.total d < cap.allocated d + amount d

/-- The place of a dimension in the documented order. -/
def Dim.place : Dim → ℕ
  | .cpu => 0
  | .memoryMb => 1
  | .gpu => 2

/-- The first dimension that is short. -/
def FirstShort (cap : Capacity) (amount : Resources ℕ) (d : Dim) : Prop :=
  Short cap amount d ∧ ∀ e, e.place < d.place → ¬ Short cap amount e

/-- **The reason tells the truth.** -/
structure TellsTruth (env : Env) (cap : Capacity) (amount : Resources ℕ) : Prop where
  available : CapacityRepo.whichDimensionInsufficient cap (requestOf amount) =
      some "resources_available" ↔
    ∃ cap', CapacityRepo.tryReserve env cap (requestOf amount) = some (some cap')
  exceeds : CapacityRepo.whichDimensionInsufficient cap (requestOf amount) =
      some "exceeds_total_cluster_capacity" ↔ ∃ d, Exceeds cap amount d
  /-- No release of running jobs makes room for the request. -/
  hopeless : CapacityRepo.whichDimensionInsufficient cap (requestOf amount) =
      some "exceeds_total_cluster_capacity" → ∀ cap' : Capacity, cap'.total = cap.total →
    (∀ d, 0 ≤ cap'.allocated d) →
      ∀ cap'', CapacityRepo.tryReserve env cap' (requestOf amount) ≠ some (some cap'')

section Reasons

variable {env : Env} {cap cap' : Capacity} {amount : Resources ℕ}

instance (d : Dim) : Decidable (Exceeds cap amount d) := inferInstanceAs (Decidable (_ < _))

instance (d : Dim) : Decidable (Short cap amount d) := inferInstanceAs (Decidable (_ < _))

theorem amounts_requestOf (env : Env) (amount : Resources ℕ) :
    CapacityRepo.amounts env (requestOf amount) = some fun d => (amount d : ℚ) := by
  unfold CapacityRepo.amounts
  have hops : Resources.mapM (sqlOperand env) (requestOf amount) =
      some fun d => .value (amount d) := Resources.mapM_eq_some.mpr fun d => rfl
  rw [hops, Option.bind_some]
  exact Resources.mapM_eq_some.mpr fun d => rfl

theorem fits_iff : CapacityRepo.Fits cap (fun d => (amount d : ℚ)) ↔ ∀ d, ¬ Short cap amount d := by
  refine forall_congr' fun d => ?_
  show (cap.allocated d : ℚ) + (amount d : ℚ) ≤ cap.total d ↔
    ¬ cap.total d < cap.allocated d + (amount d : ℤ)
  rw [not_lt]
  exact_mod_cast Iff.rfl

/-- **`try_reserve` succeeds exactly if no dimension is short.** -/
theorem tryReserve_iff (hrow : cap.InRange) :
    (∃ cap', CapacityRepo.tryReserve env cap (requestOf amount) = some (some cap')) ↔
      ∀ d, ¬ Short cap amount d := by
  simp only [CapacityRepo.tryReserve_eq_some, amounts_requestOf, Option.some.injEq,
    exists_eq_left', fits_iff, Option.map_eq_some_iff]
  constructor
  · rintro ⟨_, hfits, _⟩
    exact hfits
  · intro hfits
    -- the sums stay between what is allocated and the total
    have hsum : ∀ d, int4Column ((cap.allocated d : ℚ) + (amount d : ℚ)) =
        some (cap.allocated d + amount d) := by
      intro d
      have hd := hfits d
      obtain ⟨⟨_, htotal⟩, hallocated, _⟩ := hrow d
      unfold Short at hd
      rw [show (cap.allocated d : ℚ) + (amount d : ℚ) = ((cap.allocated d + amount d : ℤ) : ℚ) by
        push_cast; rfl]
      unfold int4Column
      rw [roundHalfAway_intCast, if_pos]
      omega
    exact ⟨_, hfits, _, Resources.mapM_eq_some.mpr hsum, rfl⟩

theorem dimensionReason_eq (d : Dim) (reason : String) :
    CapacityRepo.dimensionReason cap d reason (amount d : ℚ) =
      if Short cap amount d then
        some (if Exceeds cap amount d then "exceeds_total_cluster_capacity" else reason)
      else none := by
  have hshort : (cap.total d : ℚ) < cap.allocated d + (amount d : ℚ) ↔ Short cap amount d :=
    ⟨fun h => by unfold Short; exact_mod_cast h, fun h => by unfold Short at h; exact_mod_cast h⟩
  have hexceeds : (cap.total d : ℚ) < (amount d : ℚ) ↔ Exceeds cap amount d :=
    ⟨fun h => by unfold Exceeds; exact_mod_cast h,
      fun h => by unfold Exceeds at h; exact_mod_cast h⟩
  simp only [CapacityRepo.dimensionReason, hshort, hexceeds]

/-- The reason is decided by the first dimension that is short. -/
theorem which_cases : (∀ d, ¬ Short cap amount d) ∧
      CapacityRepo.whichDimensionInsufficient cap (requestOf amount) = some "resources_available" ∨
    ∃ d reason, FirstShort cap amount d ∧ reason ≠ "resources_available" ∧
      reason ≠ "exceeds_total_cluster_capacity" ∧
      CapacityRepo.whichDimensionInsufficient cap (requestOf amount) =
        some (if Exceeds cap amount d then "exceeds_total_cluster_capacity" else reason) := by
  have hnumber : ∀ d, CapacityRepo.pyNumber (requestOf amount d) = some (amount d : ℚ) := fun d => rfl
  unfold CapacityRepo.whichDimensionInsufficient
  simp only [hnumber, dimensionReason_eq]
  by_cases hcpu : Short cap amount .cpu
  · refine Or.inr ⟨.cpu, "insufficient_cpu_capacity", ⟨hcpu, fun e he => ?_⟩, by decide, by decide, ?_⟩
    · exact absurd he (Nat.not_lt_zero _)
    · rw [if_pos hcpu]
  rw [if_neg hcpu]
  by_cases hmemory : Short cap amount .memoryMb
  · refine Or.inr ⟨.memoryMb, "insufficient_memory_capacity", ⟨hmemory, fun e he => ?_⟩, by decide,
      by decide, ?_⟩
    · cases e with
      | cpu => exact hcpu
      | memoryMb | gpu => simp [Dim.place] at he
    · rw [if_pos hmemory]
  rw [if_neg hmemory]
  by_cases hgpu : Short cap amount .gpu
  · refine Or.inr ⟨.gpu, "insufficient_gpu_capacity", ⟨hgpu, fun e he => ?_⟩, by decide, by decide, ?_⟩
    · cases e with
      | cpu => exact hcpu
      | memoryMb => exact hmemory
      | gpu => exact absurd he (lt_irrefl _)
    · rw [if_pos hgpu]
      rfl
  · refine Or.inl ⟨fun d => ?_, ?_⟩
    · cases d with
      | cpu => exact hcpu
      | memoryMb => exact hmemory
      | gpu => exact hgpu
    · rw [if_neg hgpu]
      rfl

theorem FirstShort.unique {d e : Dim} (hd : FirstShort cap amount d) (he : FirstShort cap amount e) :
    d = e := by
  have hplace : d.place = e.place := by
    refine le_antisymm ?_ ?_
    · exact not_lt.mp fun h => hd.2 e h he.1
    · exact not_lt.mp fun h => he.2 d h hd.1
  revert hplace
  cases d <;> cases e <;> simp [Dim.place]

theorem available_iff : CapacityRepo.whichDimensionInsufficient cap (requestOf amount) =
    some "resources_available" ↔ ∀ d, ¬ Short cap amount d := by
  obtain ⟨hfree, heq⟩ | ⟨d, reason, hd, hne, _, heq⟩ := @which_cases cap amount
  · exact iff_of_true heq hfree
  · refine iff_of_false ?_ fun h => h d hd.1
    rw [heq, Option.some.injEq]
    split
    · decide
    · exact hne

/-- The request is called too large exactly if it exceeds the total of the first short dimension. -/
theorem exceeds_iff : CapacityRepo.whichDimensionInsufficient cap (requestOf amount) =
    some "exceeds_total_cluster_capacity" ↔ ∃ d, FirstShort cap amount d ∧ Exceeds cap amount d := by
  obtain ⟨hfree, heq⟩ | ⟨d, reason, hd, _, hne, heq⟩ := @which_cases cap amount
  · refine iff_of_false ?_ fun ⟨d, hd, _⟩ => hfree d hd.1
    rw [heq, Option.some.injEq]
    decide
  · rw [heq, Option.some.injEq]
    constructor
    · intro h
      refine ⟨d, hd, ?_⟩
      by_contra hnot
      exact hne (by rw [← h, if_neg hnot])
    · rintro ⟨e, he, hexceeds⟩
      rw [hd.unique he, if_pos hexceeds]

/-- A request that exceeds a total is short whatever is released. -/
theorem not_reserved_of_exceeds {d : Dim} (h : Exceeds cap amount d) (htotal : cap'.total = cap.total)
    (hallocated : 0 ≤ cap'.allocated d) (cap'' : Capacity) :
    CapacityRepo.tryReserve env cap' (requestOf amount) ≠ some (some cap'') := by
  intro hreserved
  obtain ⟨q, hq, hfits, _⟩ := CapacityRepo.tryReserve_eq_some.mp hreserved
  rw [amounts_requestOf] at hq
  cases hq
  refine fits_iff.mp hfits d ?_
  unfold Short
  unfold Exceeds at h
  rw [htotal]
  omega

end Reasons

/-- **The reason tells the truth exactly if the first dimension that is short exceeds its total
wherever some dimension does.** -/
theorem tells_truth_iff (env : Env) {cap : Capacity} (hrow : cap.InRange) (amount : Resources ℕ) :
    TellsTruth env cap amount ↔ ((∃ d, Exceeds cap amount d) →
      ∃ d, FirstShort cap amount d ∧ Exceeds cap amount d) := by
  constructor
  · intro h hexceeds
    exact exceeds_iff.mp (h.exceeds.mpr hexceeds)
  · intro h
    refine ⟨available_iff.trans (tryReserve_iff hrow).symm, exceeds_iff.trans ⟨?_, h⟩, ?_⟩
    · rintro ⟨d, _, hd⟩
      exact ⟨d, hd⟩
    · intro hreason cap' htotal hallocated
      obtain ⟨d, _, hd⟩ := exceeds_iff.mp hreason
      exact not_reserved_of_exceeds hd htotal (hallocated d)

/-- The seeded cluster with all CPUs in use. -/
def busyCapacity : Capacity := { total := Resources.of 16 65536 4, allocated := Resources.of 16 0 0 }

/-- One CPU, and more GPUs than there are. -/
def tooManyGpus : Resources ℕ := Resources.of 1 1 100

/-- While the CPUs are in use, a request that can never be admitted waits for a CPU. -/
theorem busy_cpu_hides_gpus : ¬ TellsTruth Env.standard busyCapacity tooManyGpus := by
  intro h
  have hreason := h.exceeds.mpr ⟨.gpu, by decide⟩
  revert hreason
  decide +kernel

/-- On the idle cluster the request is told the truth. -/
theorem idle_cluster_honest : TellsTruth Env.standard Db.initial.capacity tooManyGpus :=
  (tells_truth_iff Env.standard (by decide) tooManyGpus).mpr fun _ =>
    ⟨.gpu, ⟨by decide, by decide⟩, by decide⟩

end PosttrainPlatform
