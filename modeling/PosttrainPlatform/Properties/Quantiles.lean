import PosttrainPlatform.Lib.SortedLists
import PosttrainPlatform.Subprocess.EvaluationMetrics

/-!
# Percentiles are quantiles

`percentile` reads two neighbours in the sorted values and interpolates between them.  What it returns
does not depend on the order of the values, lies between their least and their greatest element, and
grows with the percentage and with every value.
-/

namespace PosttrainPlatform.EvaluationMetrics

open SortedLists

section Quantiles

/-- `low` of `percentile`. -/
def low (values : List ℚ) (p : ℚ) : ℤ := pyInt (p / 100 * (values.length - 1))

/-- `high` of `percentile`. -/
def high (values : List ℚ) (p : ℚ) : ℤ := min (low values p + 1) (values.length - 1)

/-- `frac` of `percentile`. -/
def frac (values : List ℚ) (p : ℚ) : ℚ := p / 100 * (values.length - 1) - low values p

variable {values values' : List ℚ} {p q v v' : ℚ}

/-! ### The two indices -/

theorem one_le_length (hne : values ≠ []) : (1 : ℚ) ≤ values.length := by
  exact_mod_cast List.length_pos_iff.mpr hne

theorem low_eq_floor (hne : values ≠ []) (h0 : 0 ≤ p) :
    low values p = ⌊p / 100 * ((values.length : ℚ) - 1)⌋ := by
  have hlength : (1 : ℚ) ≤ values.length := one_le_length hne
  exact if_pos (mul_nonneg (by linarith) (by linarith))

theorem low_nonneg (hne : values ≠ []) (h0 : 0 ≤ p) : 0 ≤ low values p := by
  have hlength : (1 : ℚ) ≤ values.length := one_le_length hne
  rw [low_eq_floor hne h0]
  exact Int.floor_nonneg.mpr (mul_nonneg (by linarith) (by linarith))

theorem low_lt_length (hne : values ≠ []) (h0 : 0 ≤ p) (h100 : p ≤ 100) :
    low values p < values.length := by
  have hlength : (1 : ℚ) ≤ values.length := one_le_length hne
  have hrank : p / 100 * ((values.length : ℚ) - 1) ≤ values.length - 1 :=
    mul_le_of_le_one_left (by linarith) (by linarith)
  rw [low_eq_floor hne h0, Int.floor_lt]
  push_cast
  linarith

theorem low_zero (values : List ℚ) : low values 0 = 0 := by simp [low, pyInt]

theorem low_hundred (hne : values ≠ []) : low values 100 = values.length - 1 := by
  have hrank : (100 : ℚ) / 100 * ((values.length : ℚ) - 1) = ((values.length - 1 : ℤ) : ℚ) := by
    push_cast
    ring
  rw [low_eq_floor hne (by norm_num), hrank, Int.floor_intCast]

/-- The interpolation stays between the two neighbours. -/
theorem frac_mem (hne : values ≠ []) (h0 : 0 ≤ p) : 0 ≤ frac values p ∧ frac values p ≤ 1 := by
  rw [frac, low_eq_floor hne h0]
  exact ⟨Int.fract_nonneg _, (Int.fract_lt_one _).le⟩

theorem frac_zero (values : List ℚ) : frac values 0 = 0 := by simp [frac, low_zero]

theorem frac_hundred (hne : values ≠ []) : frac values 100 = 0 := by
  rw [frac, low_hundred hne]
  push_cast
  ring

/-! ### The two neighbours -/

/-- **What `percentile` returns**: the interpolation of two sorted values. -/
theorem percentile_eq (htwo : 2 ≤ values.length) (h0 : 0 ≤ p) (h100 : p ≤ 100) :
    ∃ lower upper, (values.insertionSort (· ≤ ·))[(low values p).toNat]? = some lower ∧
      (values.insertionSort (· ≤ ·))[(high values p).toNat]? = some upper ∧
      percentile values p = some (lower + (upper - lower) * frac values p) := by
  have hne : values ≠ [] := List.ne_nil_of_length_pos (by omega)
  have hlow : 0 ≤ low values p := low_nonneg hne h0
  have hlast : low values p < values.length := low_lt_length hne h0 h100
  have hhigh : 0 ≤ high values p := by
    unfold high
    omega
  obtain ⟨v, hv⟩ := percentile_isSome values h0 h100
  have hzero : ¬values.length = 0 := by omega
  have hone : ¬values.length = 1 := by omega
  have hread := hv
  unfold percentile at hread
  rw [if_neg hzero, if_neg hone] at hread
  obtain ⟨lower, hlower, hread⟩ := Option.bind_eq_some_iff.mp hread
  obtain ⟨upper, hupper, hread⟩ := Option.bind_eq_some_iff.mp hread
  rw [List.length_insertionSort] at hupper
  have hlower : pyIndex (values.insertionSort (· ≤ ·)) (low values p) = some lower := hlower
  have hupper : pyIndex (values.insertionSort (· ≤ ·)) (high values p) = some upper := hupper
  rw [pyIndex, if_pos hlow] at hlower
  rw [pyIndex, if_pos hhigh] at hupper
  refine ⟨lower, upper, hlower, hupper, ?_⟩
  rw [hv]
  exact hread.symm

/-- **The percentile of zero is the least value.** -/
theorem percentile_zero (hne : values ≠ []) :
    ∃ least, IsLeast {x | x ∈ values} least ∧ percentile values 0 = some least := by
  have hpos : 0 < values.length := List.length_pos_iff.mpr hne
  obtain hone | htwo : values.length = 1 ∨ 2 ≤ values.length := by omega
  · obtain ⟨x, rfl⟩ := List.length_eq_one_iff.mp hone
    exact ⟨x, ⟨List.mem_singleton_self x, fun y hy => (List.mem_singleton.mp hy).ge⟩, rfl⟩
  · obtain ⟨least, upper, hleast, _, hpercentile⟩ :=
      percentile_eq htwo (p := 0) le_rfl (by norm_num)
    rw [low_zero] at hleast
    refine ⟨least, ⟨?_, fun y hy => ?_⟩, ?_⟩
    · exact (List.mem_insertionSort _).mp (List.mem_of_getElem? hleast)
    · exact le_of_mem_of_head (List.pairwise_insertionSort _ _) hleast
        ((List.mem_insertionSort _).mpr hy)
    · rw [hpercentile, frac_zero, mul_zero, add_zero]

/-- **The percentile of one hundred is the greatest value.** -/
theorem percentile_hundred (hne : values ≠ []) :
    ∃ greatest, IsGreatest {x | x ∈ values} greatest ∧ percentile values 100 = some greatest := by
  have hpos : 0 < values.length := List.length_pos_iff.mpr hne
  obtain hone | htwo : values.length = 1 ∨ 2 ≤ values.length := by omega
  · obtain ⟨x, rfl⟩ := List.length_eq_one_iff.mp hone
    exact ⟨x, ⟨List.mem_singleton_self x, fun y hy => (List.mem_singleton.mp hy).le⟩, rfl⟩
  · obtain ⟨greatest, upper, hgreatest, _, hpercentile⟩ :=
      percentile_eq htwo (p := 100) (by norm_num) le_rfl
    have hlast : (low values 100).toNat = (values.insertionSort (· ≤ ·)).length - 1 := by
      rw [low_hundred hne, List.length_insertionSort]
      omega
    rw [hlast] at hgreatest
    refine ⟨greatest, ⟨?_, fun y hy => ?_⟩, ?_⟩
    · exact (List.mem_insertionSort _).mp (List.mem_of_getElem? hgreatest)
    · exact le_of_mem_of_last (List.pairwise_insertionSort _ _) hgreatest
        ((List.mem_insertionSort _).mpr hy)
    · rw [hpercentile, frac_hundred hne, mul_zero, add_zero]

/-! ### Other values -/

/-- **A percentile does not see the order of the values.** -/
theorem percentile_perm (h : values.Perm values') : percentile values p = percentile values' p := by
  have hlength : values.length = values'.length := h.length_eq
  obtain hzero | hone | htwo : values.length = 0 ∨ values.length = 1 ∨ 2 ≤ values.length := by omega
  · rw [List.length_eq_zero_iff.mp hzero, List.length_eq_zero_iff.mp (hlength.symm.trans hzero)]
  · obtain ⟨x, rfl⟩ := List.length_eq_one_iff.mp hone
    rw [List.singleton_perm.mp h]
  · have hzero : ¬values'.length = 0 := by omega
    have hone : ¬values'.length = 1 := by omega
    unfold percentile
    rw [hlength, if_neg hzero, if_neg hone, if_neg hzero, if_neg hone, insertionSort_eq_of_perm h]

/-- **Greater values have a greater percentile.** -/
theorem percentile_le_of_forall₂ (h : List.Forall₂ (· ≤ ·) values values') (hne : values ≠ [])
    (h0 : 0 ≤ p) (h100 : p ≤ 100) (hv : percentile values p = some v)
    (hv' : percentile values' p = some v') : v ≤ v' := by
  have hpos : 0 < values.length := List.length_pos_iff.mpr hne
  have hlength : values.length = values'.length := h.length_eq
  obtain hone | htwo : values.length = 1 ∨ 2 ≤ values.length := by omega
  · obtain ⟨x, rfl⟩ := List.length_eq_one_iff.mp hone
    obtain ⟨y, rfl⟩ := List.length_eq_one_iff.mp (hlength.symm.trans hone)
    obtain rfl := Option.some.inj hv
    obtain rfl := Option.some.inj hv'
    exact (List.forall₂_cons.mp h).1
  · obtain ⟨lower, upper, hlower, hupper, heq⟩ := percentile_eq htwo h0 h100
    obtain ⟨lower', upper', hlower', hupper', heq'⟩ :=
      percentile_eq (hlength.symm ▸ htwo : 2 ≤ values'.length) h0 h100
    have hlow : low values' p = low values p := by rw [low, low, hlength]
    have hhigh : high values' p = high values p := by rw [high, high, hlow, hlength]
    have hfrac : frac values' p = frac values p := by rw [frac, frac, hlow, hlength]
    rw [hlow] at hlower'
    rw [hhigh] at hupper'
    have hsorted := insertionSort_mono h
    have hle : ∀ {n : ℕ} {x y : ℚ}, (values.insertionSort (· ≤ ·))[n]? = some x →
        (values'.insertionSort (· ≤ ·))[n]? = some y → x ≤ y := by
      intro n x y hx hy
      obtain ⟨hn, rfl⟩ := List.getElem?_eq_some_iff.mp hx
      obtain ⟨hn', rfl⟩ := List.getElem?_eq_some_iff.mp hy
      exact hsorted.get hn hn'
    obtain ⟨hf0, hf1⟩ := frac_mem hne h0
    -- the interpolation is a mean of the two neighbours
    have hweights : lower * (1 - frac values p) ≤ lower' * (1 - frac values p) :=
      mul_le_mul_of_nonneg_right (hle hlower hlower') (by linarith)
    have hweights' : upper * frac values p ≤ upper' * frac values p :=
      mul_le_mul_of_nonneg_right (hle hupper hupper') hf0
    rw [heq] at hv
    rw [heq', hfrac] at hv'
    obtain rfl := Option.some.inj hv
    obtain rfl := Option.some.inj hv'
    linarith

/-! ### Quantiles -/

/-- What makes `v` the quantile of `values` at `p`. -/
structure IsQuantile (values : List ℚ) (p v : ℚ) : Prop where
  value : percentile values p = some v
  low_exists : 0 ≤ low values p ∧ low values p < values.length
  high_exists : 0 ≤ high values p ∧ high values p < values.length
  perm : ∀ values', values.Perm values' → percentile values' p = some v
  least : ∃ least, IsLeast {x | x ∈ values} least ∧ least ≤ v ∧ (p = 0 → v = least)
  greatest : ∃ greatest, IsGreatest {x | x ∈ values} greatest ∧ v ≤ greatest ∧
    (p = 100 → v = greatest)
  increase : ∀ values', List.Forall₂ (· ≤ ·) values values' →
    ∃ v', percentile values' p = some v' ∧ v ≤ v'

theorem isQuantile_of_percentile (hne : values ≠ []) (h0 : 0 ≤ p) (h100 : p ≤ 100)
    (h : percentile values p = some v) : IsQuantile values p v := by
  have hlow : 0 ≤ low values p := low_nonneg hne h0
  have hlast : low values p < values.length := low_lt_length hne h0 h100
  refine ⟨h, ⟨hlow, hlast⟩, ⟨?_, ?_⟩, fun values' hperm => ?_, ?_, ?_, fun values' hincrease => ?_⟩
  · unfold high
    omega
  · unfold high
    omega
  · rw [← percentile_perm hperm]
    exact h
  · obtain ⟨least, hleast, hzero⟩ := percentile_zero hne
    refine ⟨least, hleast, percentile_mono le_rfl h0 h100 hzero h, fun hp => ?_⟩
    subst hp
    exact Option.some.inj (h.symm.trans hzero)
  · obtain ⟨greatest, hgreatest, hhundred⟩ := percentile_hundred hne
    refine ⟨greatest, hgreatest, percentile_mono h0 h100 le_rfl h hhundred, fun hp => ?_⟩
    subst hp
    exact Option.some.inj (h.symm.trans hhundred)
  · obtain ⟨v', hv'⟩ := percentile_isSome values' h0 h100
    exact ⟨v', hv', percentile_le_of_forall₂ hincrease hne h0 h100 h hv'⟩

/-- **`percentile` is a quantile**, and it is monotone in the percentage. -/
theorem percentile_quantile (hne : values ≠ []) (h0 : 0 ≤ p) (hle : p ≤ q) (h100 : q ≤ 100) :
    ∃ v w, IsQuantile values p v ∧ IsQuantile values q w ∧ v ≤ w := by
  obtain ⟨v, hv⟩ := percentile_isSome values h0 (hle.trans h100)
  obtain ⟨w, hw⟩ := percentile_isSome values (h0.trans hle) h100
  exact ⟨v, w, isQuantile_of_percentile hne h0 (hle.trans h100) hv,
    isQuantile_of_percentile hne (h0.trans hle) h100 hw, percentile_mono h0 hle h100 hv hw⟩

/-- Two of three values are equal. -/
theorem percentile_quantile_ties :
    ∃ v w, IsQuantile [7, 1, 7] 50 v ∧ IsQuantile [7, 1, 7] 95 w ∧ v ≤ w :=
  percentile_quantile (List.cons_ne_nil _ _) (by norm_num) (by norm_num) (by norm_num)

end Quantiles

end PosttrainPlatform.EvaluationMetrics
