import Mathlib.Algebra.Order.BigOperators.Group.List
import Mathlib.Algebra.Order.Field.Rat
import Mathlib.Data.List.Sort
import Mathlib.Data.Rat.Floor
import Mathlib.Tactic.Linarith
import Mathlib.Tactic.NormNum
import PosttrainPlatform.Lib.Words

/-!
# `app/evaluation/metrics.py`

The metric functions, in exact arithmetic.  A text is compared as a whole by `exact_match` and word by
word by `token_accuracy`, which is never the smaller of the two.
-/

namespace PosttrainPlatform.EvaluationMetrics

open Words

/-- The characters that `str.strip` and `str.split` take for whitespace. -/
def isSpace (c : Char) : Bool :=
  (9 ≤ c.toNat && c.toNat ≤ 13) || (28 ≤ c.toNat && c.toNat ≤ 32) || c.toNat == 133 ||
    c.toNat == 160 || c.toNat == 5760 || (8192 ≤ c.toNat && c.toNat ≤ 8202) || c.toNat == 8232 ||
    c.toNat == 8233 || c.toNat == 8239 || c.toNat == 8287 || c.toNat == 12288

/-- `(text or "").strip()`. -/
def stripped (text : Option String) : List Char := strip isSpace (text.getD "").toList

/-- `(text or "").split()`. -/
def tokens (text : Option String) : List (List Char) := words isSpace (text.getD "").toList

def exactMatch (prediction expected : Option String) : ℚ :=
  if stripped prediction = stripped expected then 1 else 0

def tokenAccuracy (prediction expected : Option String) : ℚ :=
  if max (tokens prediction).length (tokens expected).length = 0 then 1
  else agreements (tokens prediction) (tokens expected) /
    (max (tokens prediction).length (tokens expected).length : ℕ)

/-! ### Percentiles -/

/-- `int(q)`. -/
def pyInt (q : ℚ) : ℤ := if 0 ≤ q then ⌊q⌋ else ⌈q⌉

/-- `xs[i]`, where a negative index counts from the end; `none` is an `IndexError`. -/
def pyIndex (xs : List ℚ) (i : ℤ) : Option ℚ :=
  if 0 ≤ i then xs[i.toNat]?
  else if -(xs.length : ℤ) ≤ i then xs[(i + xs.length).toNat]?
  else none

/-- The end of `percentile`, for a sorted list. -/
def interpolate (ordered : List ℚ) (rank : ℚ) : Option ℚ := do
  let lower ← pyIndex ordered (pyInt rank)
  let upper ← pyIndex ordered (min (pyInt rank + 1) (ordered.length - 1))
  pure (lower + (upper - lower) * (rank - pyInt rank))

def percentile (values : List ℚ) (p : ℚ) : Option ℚ :=
  if values.length = 0 then some 0
  else if values.length = 1 then values.head?
  else interpolate (values.insertionSort (· ≤ ·)) (p / 100 * (values.length - 1))

/-! ### Aggregates -/

/-- A record of `per_example`. -/
structure ExampleRecord where
  exactMatch : ℚ
  tokenAccuracy : ℚ
  latencyMs : Option ℚ

/-- A row that `aggregate` returns. -/
structure AggregateMetric where
  metricName : String
  metricValue : ℚ
  sampleCount : ℕ

/-- `sum(values) / len(values)`. -/
def mean (values : List ℚ) : ℚ := values.sum / values.length

/-- The rows of the latencies. -/
def latencyMetrics (latencies : List ℚ) : Option (List AggregateMetric) :=
  if latencies.length = 0 then some []
  else do
    let p50 ← percentile latencies 50
    let p95 ← percentile latencies 95
    pure [⟨"latency_mean_ms", mean latencies, latencies.length⟩,
      ⟨"latency_p50_ms", p50, latencies.length⟩, ⟨"latency_p95_ms", p95, latencies.length⟩]

/-- The rows of the two accuracies. -/
def accuracyMetrics (perExample : List ExampleRecord) : List AggregateMetric :=
  [⟨"exact_match", mean (perExample.map fun r => r.exactMatch), perExample.length⟩,
    ⟨"token_accuracy", mean (perExample.map fun r => r.tokenAccuracy), perExample.length⟩]

def aggregate (perExample : List ExampleRecord) : Option (List AggregateMetric) :=
  if perExample.length = 0 then some []
  else do
    let latencies ← latencyMetrics (perExample.filterMap fun r => r.latencyMs)
    pure (accuracyMetrics perExample ++ latencies)

/-! ### The two accuracies of one example -/

section Accuracy

variable (p e : Option String)

theorem words_stripped (text : Option String) : words isSpace (stripped text) = tokens text :=
  words_strip _

theorem exactMatch_nonneg : 0 ≤ exactMatch p e := by
  unfold exactMatch
  split
  · exact zero_le_one
  · exact le_rfl

theorem tokenAccuracy_nonneg : 0 ≤ tokenAccuracy p e := by
  unfold tokenAccuracy
  split
  · exact zero_le_one
  · exact div_nonneg (Nat.cast_nonneg _) (Nat.cast_nonneg _)

theorem tokenAccuracy_le_one : tokenAccuracy p e ≤ 1 := by
  unfold tokenAccuracy
  split
  · exact le_rfl
  · have hle : agreements (tokens p) (tokens e) ≤ max (tokens p).length (tokens e).length :=
      (agreements_le_left _ _).trans (le_max_left _ _)
    exact div_le_one_of_le₀ (Nat.cast_le.mpr hle) (Nat.cast_nonneg _)

theorem tokenAccuracy_comm : tokenAccuracy p e = tokenAccuracy e p := by
  unfold tokenAccuracy
  rw [agreements_comm, max_comm]

/-- **The token accuracy is full when the tokens are the same**, and only then. -/
theorem tokenAccuracy_eq_one_iff : tokenAccuracy p e = 1 ↔ tokens p = tokens e := by
  unfold tokenAccuracy
  split
  · rename_i hzero
    have hp : (tokens p).length = 0 := by omega
    have he : (tokens e).length = 0 := by omega
    rw [List.length_eq_zero_iff.mp hp, List.length_eq_zero_iff.mp he]
    exact iff_of_true rfl rfl
  · rename_i hne
    have hpos : ((max (tokens p).length (tokens e).length : ℕ) : ℚ) ≠ 0 := Nat.cast_ne_zero.mpr hne
    rw [div_eq_one_iff_eq hpos, Nat.cast_inj]
    exact agreements_eq_max_iff

/-- **An exact match is full token accuracy**: equal texts have equal tokens. -/
theorem exactMatch_le_tokenAccuracy : exactMatch p e ≤ tokenAccuracy p e := by
  unfold exactMatch
  split
  · rename_i hsame
    have htokens : tokens p = tokens e := by rw [← words_stripped p, ← words_stripped e, hsame]
    exact ((tokenAccuracy_eq_one_iff p e).mpr htokens).ge
  · exact tokenAccuracy_nonneg p e

end Accuracy

/-! ### Ranks -/

section Ranks

variable {xs : List ℚ} {rank : ℚ} {i : ℤ}

variable (xs) in
theorem pyIndex_of_lt (h0 : 0 ≤ i) (h : i < xs.length) : ∃ x ∈ xs, pyIndex xs i = some x := by
  have hlt : i.toNat < xs.length := by omega
  refine ⟨xs[i.toNat], List.getElem_mem hlt, ?_⟩
  rw [pyIndex, if_pos h0]
  exact List.getElem?_eq_getElem hlt

/-- A rank that a list has names an element, and so does its upper neighbour. -/
theorem interpolate_isSome (h0 : 0 ≤ rank) (h : rank ≤ xs.length - 1) :
    ∃ v, interpolate xs rank = some v := by
  have hfloor : pyInt rank = ⌊rank⌋ := if_pos h0
  have hnonneg : 0 ≤ ⌊rank⌋ := Int.floor_nonneg.mpr h0
  have hlast : ⌊rank⌋ ≤ (xs.length : ℤ) - 1 := by
    have hcast : (⌊rank⌋ : ℚ) ≤ ((xs.length - 1 : ℤ) : ℚ) := by
      push_cast
      exact (Int.floor_le rank).trans h
    exact_mod_cast hcast
  obtain ⟨lower, _, hlower⟩ := pyIndex_of_lt xs hnonneg (by omega)
  obtain ⟨upper, _, hupper⟩ := pyIndex_of_lt xs
    (i := min (⌊rank⌋ + 1) (xs.length - 1)) (by omega) (by omega)
  refine ⟨lower + (upper - lower) * (rank - ⌊rank⌋), ?_⟩
  unfold interpolate
  rw [hfloor, hlower, hupper]
  rfl

/-- **A percentile exists**, for every list. -/
theorem percentile_isSome (values : List ℚ) {p : ℚ} (h0 : 0 ≤ p) (h : p ≤ 100) :
    ∃ v, percentile values p = some v := by
  unfold percentile
  split
  · exact ⟨0, rfl⟩
  split
  · rename_i hone
    obtain ⟨x, hx⟩ := List.length_eq_one_iff.mp hone
    rw [hx]
    exact ⟨x, rfl⟩
  · have hlength : (1 : ℚ) ≤ values.length := by
      have hpos : 1 ≤ values.length := by omega
      exact_mod_cast hpos
    have hfraction : p / 100 ≤ 1 := by linarith
    refine interpolate_isSome (mul_nonneg (by linarith) (by linarith)) ?_
    rw [List.length_insertionSort]
    exact mul_le_of_le_one_left (by linarith) hfraction

theorem latencyMetrics_isSome (latencies : List ℚ) : ∃ rows, latencyMetrics latencies = some rows := by
  unfold latencyMetrics
  split
  · exact ⟨[], rfl⟩
  · obtain ⟨p50, hp50⟩ := percentile_isSome latencies (p := 50) (by norm_num) (by norm_num)
    obtain ⟨p95, hp95⟩ := percentile_isSome latencies (p := 95) (by norm_num) (by norm_num)
    rw [hp50, hp95]
    exact ⟨_, rfl⟩

/-- **What is aggregated**: the two accuracies, and the latencies after them. -/
theorem aggregate_eq {perExample : List ExampleRecord} (h : perExample ≠ []) :
    ∃ rows, latencyMetrics (perExample.filterMap fun r => r.latencyMs) = some rows ∧
      aggregate perExample = some (accuracyMetrics perExample ++ rows) := by
  obtain ⟨rows, hrows⟩ := latencyMetrics_isSome (perExample.filterMap fun r => r.latencyMs)
  refine ⟨rows, hrows, ?_⟩
  unfold aggregate
  rw [if_neg (fun hzero => h (List.length_eq_zero_iff.mp hzero)), hrows]
  rfl

/-- The elements of a sorted list grow with their index. -/
theorem pyIndex_mono {j : ℤ} {x y : ℚ} (hsorted : xs.Pairwise (· ≤ ·)) (h0 : 0 ≤ i) (hij : i ≤ j)
    (hx : pyIndex xs i = some x) (hy : pyIndex xs j = some y) : x ≤ y := by
  rw [pyIndex, if_pos h0] at hx
  rw [pyIndex, if_pos (h0.trans hij)] at hy
  obtain ⟨hi, hx⟩ := List.getElem?_eq_some_iff.mp hx
  obtain ⟨hj, hy⟩ := List.getElem?_eq_some_iff.mp hy
  rw [← hx, ← hy]
  obtain hlt | heq := Nat.lt_or_eq_of_le (Int.toNat_le_toNat hij)
  · exact List.pairwise_iff_getElem.mp hsorted _ _ hi hj hlt
  · exact le_of_eq (getElem_congr_idx heq)

/-- An interpolated value is made of two neighbours. -/
theorem interpolate_spec {v : ℚ} (h0 : 0 ≤ rank) (h : interpolate xs rank = some v) :
    ∃ lower upper, pyIndex xs ⌊rank⌋ = some lower ∧
      pyIndex xs (min (⌊rank⌋ + 1) (xs.length - 1)) = some upper ∧
      v = lower + (upper - lower) * Int.fract rank := by
  have hfloor : pyInt rank = ⌊rank⌋ := if_pos h0
  unfold interpolate at h
  rw [hfloor] at h
  obtain ⟨lower, hlower, h⟩ := Option.bind_eq_some_iff.mp h
  obtain ⟨upper, hupper, h⟩ := Option.bind_eq_some_iff.mp h
  exact ⟨lower, upper, hlower, hupper, (Option.some.inj h).symm⟩

/-- **Interpolation in a sorted list is monotone.** -/
theorem interpolate_mono {rank' v v' : ℚ} (hsorted : xs.Pairwise (· ≤ ·)) (h0 : 0 ≤ rank)
    (hle : rank ≤ rank') (hlast : rank' ≤ xs.length - 1) (h : interpolate xs rank = some v)
    (h' : interpolate xs rank' = some v') : v ≤ v' := by
  obtain ⟨lower, upper, hlower, hupper, rfl⟩ := interpolate_spec h0 h
  obtain ⟨lower', upper', hlower', hupper', rfl⟩ := interpolate_spec (h0.trans hle) h'
  have hnonneg : 0 ≤ ⌊rank⌋ := Int.floor_nonneg.mpr h0
  have hfloors : ⌊rank⌋ ≤ ⌊rank'⌋ := Int.floor_mono hle
  have hend : ⌊rank'⌋ ≤ (xs.length : ℤ) - 1 := by
    have hcast : (⌊rank'⌋ : ℚ) ≤ ((xs.length - 1 : ℤ) : ℚ) := by
      push_cast
      exact (Int.floor_le rank').trans hlast
    exact_mod_cast hcast
  have hgap : lower ≤ upper := pyIndex_mono hsorted hnonneg (by omega) hlower hupper
  have hgap' : lower' ≤ upper' := pyIndex_mono hsorted (by omega) (by omega) hlower' hupper'
  obtain hsame | hless := hfloors.eq_or_lt
  · -- the two ranks lie between the same neighbours
    rw [← hsame] at hlower' hupper'
    rw [hlower] at hlower'
    rw [hupper] at hupper'
    obtain rfl := Option.some.inj hlower'
    obtain rfl := Option.some.inj hupper'
    have hfract : Int.fract rank ≤ Int.fract rank' := by
      rw [Int.fract, Int.fract, hsame]
      linarith
    have hstep := mul_le_mul_of_nonneg_left hfract (sub_nonneg.mpr hgap)
    linarith
  · have hbetween : upper ≤ lower' := pyIndex_mono hsorted (by omega) (by omega) hupper hlower'
    have hbelow : (upper - lower) * Int.fract rank ≤ upper - lower :=
      mul_le_of_le_one_right (sub_nonneg.mpr hgap) (Int.fract_lt_one rank).le
    have habove : 0 ≤ (upper' - lower') * Int.fract rank' :=
      mul_nonneg (sub_nonneg.mpr hgap') (Int.fract_nonneg rank')
    linarith

/-- **Percentiles of the same values are monotone.** -/
theorem percentile_mono {values : List ℚ} {p p' v v' : ℚ} (h0 : 0 ≤ p) (hle : p ≤ p')
    (h100 : p' ≤ 100) (h : percentile values p = some v) (h' : percentile values p' = some v') :
    v ≤ v' := by
  unfold percentile at h h'
  split at h
  · rename_i hzero
    rw [if_pos hzero] at h'
    exact le_of_eq (Option.some.inj (h.symm.trans h'))
  rename_i hzero
  rw [if_neg hzero] at h'
  split at h
  · rename_i hone
    rw [if_pos hone] at h'
    exact le_of_eq (Option.some.inj (h.symm.trans h'))
  · rename_i hone
    rw [if_neg hone] at h'
    have hlength : (0 : ℚ) ≤ values.length - 1 := by
      have hpos : (1 : ℚ) ≤ values.length := by
        have hpos : 1 ≤ values.length := by omega
        exact_mod_cast hpos
      linarith
    have hranks : p / 100 * (values.length - 1 : ℚ) ≤ p' / 100 * (values.length - 1) :=
      mul_le_mul_of_nonneg_right (by linarith) hlength
    refine interpolate_mono (List.pairwise_insertionSort _ _) (mul_nonneg (by linarith) hlength)
      hranks ?_ h h'
    rw [List.length_insertionSort]
    exact mul_le_of_le_one_left hlength (by linarith)

/-- **What an aggregated metric is**, by its name. -/
theorem metric_of_aggregate {perExample : List ExampleRecord} {metrics : List AggregateMetric}
    {m : AggregateMetric} (h : aggregate perExample = some metrics) (hm : m ∈ metrics) :
    (m.metricName = "exact_match" → m.metricValue = mean (perExample.map fun r => r.exactMatch) ∧
        m.sampleCount = perExample.length) ∧
      (m.metricName = "latency_p50_ms" →
        percentile (perExample.filterMap fun r => r.latencyMs) 50 = some m.metricValue) ∧
      (m.metricName = "latency_p95_ms" →
        percentile (perExample.filterMap fun r => r.latencyMs) 95 = some m.metricValue) := by
  unfold aggregate at h
  split at h
  · rw [← Option.some.inj h] at hm
    exact absurd hm List.not_mem_nil
  obtain ⟨rows, hrows, h⟩ := Option.bind_eq_some_iff.mp h
  rw [← Option.some.inj h] at hm
  obtain hm | hm := List.mem_append.mp hm
  · simp only [accuracyMetrics, List.mem_cons, List.not_mem_nil, or_false] at hm
    obtain rfl | rfl := hm
    · simp
    · simp
  · unfold latencyMetrics at hrows
    split at hrows
    · rw [← Option.some.inj hrows] at hm
      exact absurd hm List.not_mem_nil
    obtain ⟨p50, hp50, hrows⟩ := Option.bind_eq_some_iff.mp hrows
    obtain ⟨p95, hp95, hrows⟩ := Option.bind_eq_some_iff.mp hrows
    rw [← Option.some.inj hrows] at hm
    simp only [List.mem_cons, List.not_mem_nil, or_false] at hm
    obtain rfl | rfl | rfl := hm
    · simp
    · simp [hp50]
    · simp [hp95]

/-- The names of the metrics that are aggregated. -/
def metricNames : List String :=
  ["exact_match", "token_accuracy", "latency_mean_ms", "latency_p50_ms", "latency_p95_ms"]

/-- **All five metrics are aggregated** of examples with latencies. -/
theorem aggregate_names {perExample : List ExampleRecord} {metrics : List AggregateMetric}
    {r : ExampleRecord} (hr : r ∈ perExample) (hlatency : r.latencyMs.isSome)
    (h : aggregate perExample = some metrics) :
    metrics.map (fun m => m.metricName) = metricNames := by
  obtain ⟨rows, hrows, haggregate⟩ := aggregate_eq (List.ne_nil_of_mem hr)
  rw [haggregate] at h
  rw [← Option.some.inj h]
  obtain ⟨latency, hlatency⟩ := Option.isSome_iff_exists.mp hlatency
  have hmem : latency ∈ perExample.filterMap fun r => r.latencyMs :=
    List.mem_filterMap.mpr ⟨r, hr, hlatency⟩
  unfold latencyMetrics at hrows
  rw [if_neg (List.length_pos_of_mem hmem).ne'] at hrows
  obtain ⟨p50, _, hrows⟩ := Option.bind_eq_some_iff.mp hrows
  obtain ⟨p95, _, hrows⟩ := Option.bind_eq_some_iff.mp hrows
  rw [← Option.some.inj hrows]
  rfl

end Ranks

/-! ### The means -/

section Means

theorem mean_le_mean {α : Type} {f g : α → ℚ} {l : List α} (h : ∀ a ∈ l, f a ≤ g a) :
    mean (l.map f) ≤ mean (l.map g) := by
  unfold mean
  rw [List.length_map, List.length_map]
  exact div_le_div_of_nonneg_right (List.sum_le_sum h) (Nat.cast_nonneg _)

theorem mean_nonneg {l : List ℚ} (h : ∀ x ∈ l, 0 ≤ x) : 0 ≤ mean l :=
  div_nonneg (List.sum_nonneg h) (Nat.cast_nonneg _)

theorem mean_le_one {l : List ℚ} (h : ∀ x ∈ l, x ≤ 1) : mean l ≤ 1 := by
  have hsum : l.sum ≤ l.length • (1 : ℚ) := List.sum_le_card_nsmul l 1 h
  rw [nsmul_eq_mul, mul_one] at hsum
  exact div_le_one_of_le₀ hsum (Nat.cast_nonneg _)

end Means

end PosttrainPlatform.EvaluationMetrics
