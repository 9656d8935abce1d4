import Mathlib.Algebra.BigOperators.Group.List.Basic
import Mathlib.Data.List.TakeWhile
import Mathlib.Tactic.Linarith
import Mathlib.Tactic.NormNum
import PosttrainPlatform.Services.Metrics

/-!
# Histograms

The loops of `_histogram_from_durations` share one place in the sorted durations.  What is in front of
it has been counted and summed, and past an edge that is all that lies within the edge.
-/

namespace PosttrainPlatform.PlatformCollector

/-! ### One loop -/

/-- **A `while` loop takes the longest part that is within.** -/
theorem drain_eq (within : ℚ → Bool) (cumulative : ℕ) (total : ℚ) (rest : List ℚ) :
    drain within cumulative total rest =
      ⟨cumulative + (rest.takeWhile within).length, total + (rest.takeWhile within).sum,
        rest.dropWhile within⟩ := by
  induction rest generalizing cumulative total with
  | nil => simp [drain]
  | cons x rest ih =>
      cases hx : within x with
      | true =>
          rw [drain, if_pos hx, ih, List.takeWhile_cons_of_pos hx, List.dropWhile_cons_of_pos hx,
            List.length_cons, List.sum_cons, Nat.add_right_comm, ← Nat.add_assoc, ← add_assoc]
      | false =>
          have hnot : ¬within x = true := by simp [hx]
          rw [drain, if_neg hnot, List.takeWhile_cons_of_neg hnot, List.dropWhile_cons_of_neg hnot]
          simp

/-- Where a loop stops in sorted durations, everything that is left is beyond the edge. -/
theorem lt_of_mem_dropWhile {rest : List ℚ} {edge x : ℚ} (hsorted : rest.Pairwise (· ≤ ·))
    (hx : x ∈ rest.dropWhile fun y => decide (y ≤ edge)) : edge < x := by
  induction rest with
  | nil => cases hx
  | cons y rest ih =>
      obtain ⟨hy, hsorted⟩ := List.pairwise_cons.mp hsorted
      by_cases hle : y ≤ edge
      · rw [List.dropWhile_cons, if_pos (decide_eq_true hle)] at hx
        exact ih hsorted hx
      · have hnot : ¬decide (y ≤ edge) = true := by simpa using hle
        rw [List.dropWhile_cons, if_neg hnot] at hx
        have hlt : edge < y := lt_of_not_ge hle
        obtain rfl | hx := List.mem_cons.mp hx
        · exact hlt
        · exact hlt.trans_le (hy x hx)

/-! ### All loops -/

/-- **The loop invariant**: `done` are the durations in front of the index, counted and summed. -/
structure Passed (ordered done : List ℚ) (s : Filling) : Prop where
  split : ordered = done ++ s.rest
  counted : s.cumulative = done.length
  summed : s.total = done.sum

/-- One more loop keeps the invariant. -/
theorem Passed.drain {ordered done : List ℚ} {s : Filling} (h : Passed ordered done s)
    (within : ℚ → Bool) :
    Passed ordered (done ++ s.rest.takeWhile within)
      (drain within s.cumulative s.total s.rest) := by
  rw [drain_eq]
  refine ⟨?_, ?_, ?_⟩
  · rw [List.append_assoc, List.takeWhile_append_dropWhile]
    exact h.split
  · rw [List.length_append, h.counted]
  · rw [List.sum_append, h.summed]

/-- The count where a loop has stopped: what lies within the edge. -/
theorem count_of_passed {ordered done : List ℚ} {s : Filling} {edge : ℚ}
    (h : Passed ordered done s) (hdone : ∀ x ∈ done, x ≤ edge) (hrest : ∀ x ∈ s.rest, edge < x) :
    s.cumulative = ordered.countP (· ≤ edge) := by
  have hall : done.countP (· ≤ edge) = done.length :=
    List.countP_eq_length.mpr fun x hx => decide_eq_true (hdone x hx)
  have hnone : s.rest.countP (· ≤ edge) = 0 :=
    List.countP_eq_zero.mpr fun x hx => by simpa using hrest x hx
  rw [h.split, List.countP_append, hall, hnone, h.counted, Nat.add_zero]

/-- **The loop over the edges**: every bucket counts what lies within its edge. -/
theorem fillBuckets_eq {ordered : List ℚ} (hsorted : ordered.Pairwise (· ≤ ·))
    {edges : List (String × ℚ)} (hedges : edges.Pairwise fun e e' => e.2 ≤ e'.2)
    {done : List ℚ} {s : Filling} (h : Passed ordered done s)
    (hdone : ∀ x ∈ done, ∀ e ∈ edges, x ≤ e.2) :
    (fillBuckets edges s).1 = edges.map (fun e => (e.1, (ordered.countP (· ≤ e.2) : ℚ))) ∧
      ∃ done', Passed ordered done' (fillBuckets edges s).2 := by
  induction edges generalizing done s with
  | nil => exact ⟨rfl, done, h⟩
  | cons e edges ih =>
      obtain ⟨label, edge⟩ := e
      obtain ⟨hedge, hedges⟩ := List.pairwise_cons.mp hedges
      have hs' := h.drain (· ≤ edge)
      have hwithin : ∀ x ∈ done ++ s.rest.takeWhile (· ≤ edge), x ≤ edge := by
        intro x hx
        obtain hx | hx := List.mem_append.mp hx
        · exact hdone x hx _ List.mem_cons_self
        · simpa using List.mem_takeWhile_imp hx
      have hrest : s.rest.Pairwise (· ≤ ·) := by
        rw [h.split] at hsorted
        exact (List.pairwise_append.mp hsorted).2.1
      have hbeyond : ∀ x ∈ (drain (· ≤ edge) s.cumulative s.total s.rest).rest, edge < x := by
        intro x hx
        rw [drain_eq] at hx
        exact lt_of_mem_dropWhile hrest hx
      obtain ⟨hbuckets, done', hleft⟩ := ih hedges hs' fun x hx e he =>
        (hwithin x hx).trans (hedge e he)
      refine ⟨?_, done', hleft⟩
      show (label, _) :: _ = (label, _) :: _
      rw [hbuckets, count_of_passed hs' hwithin hbeyond]

/-! ### Each duration in one bucket -/

/-- The first bucket that a duration lies within. -/
def bucketOf : List (String × ℚ) → ℚ → String
  | [], _ => "+Inf"
  | (label, edge) :: edges, x => if x ≤ edge then label else bucketOf edges x

/-- What each bucket has more than the bucket in front of it. -/
def increments : ℚ → List (String × ℚ) → List (String × ℚ)
  | _, [] => []
  | before, (label, n) :: buckets => (label, n - before) :: increments n buckets

theorem bucketOf_mem (edges : List (String × ℚ)) (x : ℚ) :
    bucketOf edges x ∈ edges.map Prod.fst ++ ["+Inf"] := by
  induction edges with
  | nil => exact List.mem_singleton_self _
  | cons e edges ih =>
      by_cases hle : x ≤ e.2
      · rw [bucketOf, if_pos hle]
        exact List.mem_cons_self
      · rw [bucketOf, if_neg hle]
        exact List.mem_cons_of_mem _ ih

/-- The durations that are left for the later edges. -/
def beyond (edge : ℚ) (durations : List ℚ) : List ℚ := durations.filter fun x => !decide (x ≤ edge)

section Later

variable {edges : List (String × ℚ)} {label : String} {edge : ℚ} (durations : List ℚ)

theorem not_le_of_mem_beyond {x : ℚ} (hx : x ∈ beyond edge durations) : ¬x ≤ edge := by
  simpa using (List.mem_filter.mp hx).2

/-- A count is one over what lies within an edge, and one over the rest. -/
theorem countP_split (edge : ℚ) (P : ℚ → Bool) :
    durations.countP P =
      (durations.filter (· ≤ edge)).countP P + (beyond edge durations).countP P := by
  rw [beyond, ← List.countP_append]
  exact (List.filter_append_perm (fun x => decide (x ≤ edge)) durations).symm.countP_eq P

theorem length_split (edge : ℚ) :
    durations.length = durations.countP (· ≤ edge) + (beyond edge durations).length := by
  rw [List.countP_eq_length_filter, beyond, ← List.length_append]
  exact (List.filter_append_perm (fun x => decide (x ≤ edge)) durations).symm.length_eq

/-- A later bucket counts what lies within this edge too. -/
theorem countP_le_later {later : ℚ} (h : edge ≤ later) :
    durations.countP (· ≤ later) =
      durations.countP (· ≤ edge) + (beyond edge durations).countP (· ≤ later) := by
  have hwithin : (durations.filter (· ≤ edge)).countP (· ≤ later) =
      (durations.filter (· ≤ edge)).length := by
    refine List.countP_eq_length.mpr fun x hx => ?_
    have hx : x ≤ edge := by simpa using (List.mem_filter.mp hx).2
    exact decide_eq_true (hx.trans h)
  rw [countP_split durations edge (· ≤ later), hwithin, ← List.countP_eq_length_filter]

/-- The first bucket has what lies within its edge. -/
theorem countP_bucketOf_self (hlabel : label ∉ edges.map Prod.fst ++ ["+Inf"]) :
    durations.countP (bucketOf ((label, edge) :: edges) · = label) =
      durations.countP (· ≤ edge) := by
  refine List.countP_congr fun x _ => ?_
  rw [decide_eq_true_iff, decide_eq_true_iff, bucketOf]
  constructor
  · intro heq
    by_contra hnot
    rw [if_neg hnot] at heq
    exact hlabel (heq ▸ bucketOf_mem edges x)
  · intro hle
    exact if_pos hle

/-- The other buckets have none of it. -/
theorem countP_bucketOf_of_ne {l : String} (hne : label ≠ l) :
    durations.countP (bucketOf ((label, edge) :: edges) · = l) =
      (beyond edge durations).countP (bucketOf edges · = l) := by
  have hnone : (durations.filter (· ≤ edge)).countP
      (bucketOf ((label, edge) :: edges) · = l) = 0 := by
    refine List.countP_eq_zero.mpr fun x hx => ?_
    have hx : x ≤ edge := by simpa using (List.mem_filter.mp hx).2
    rw [bucketOf, if_pos hx]
    simpa using hne
  have hsame : (beyond edge durations).countP (bucketOf ((label, edge) :: edges) · = l) =
      (beyond edge durations).countP (bucketOf edges · = l) := by
    refine List.countP_congr fun x hx => ?_
    rw [bucketOf, if_neg (not_le_of_mem_beyond durations hx)]
  rw [countP_split durations edge, hnone, hsame, Nat.zero_add]

end Later

/-- **The increments of cumulative counts** count each duration in its own bucket. -/
theorem increments_eq {edges : List (String × ℚ)} (hedges : edges.Pairwise fun e e' => e.2 ≤ e'.2)
    (hlabels : (edges.map Prod.fst ++ ["+Inf"]).Nodup) (durations : List ℚ) (before : ℚ) :
    increments before (edges.map (fun e => (e.1, before + (durations.countP (· ≤ e.2) : ℚ))) ++
        [("+Inf", before + (durations.length : ℚ))]) =
      (edges.map Prod.fst ++ ["+Inf"]).map fun label =>
        (label, (durations.countP (bucketOf edges · = label) : ℚ)) := by
  induction edges generalizing durations before with
  | nil => simp [increments, bucketOf]
  | cons e edges ih =>
      obtain ⟨label, edge⟩ := e
      obtain ⟨hedge, hedges⟩ := List.pairwise_cons.mp hedges
      obtain ⟨hlabel, hlabels⟩ := List.nodup_cons.mp hlabels
      -- the later buckets count from this one on
      have hcounts : edges.map (fun e => (e.1, before + (durations.countP (· ≤ e.2) : ℚ))) =
          edges.map (fun e => (e.1, before + (durations.countP (· ≤ edge) : ℚ) +
            ((beyond edge durations).countP (· ≤ e.2) : ℚ))) := by
        refine List.map_congr_left fun e he => ?_
        rw [countP_le_later durations (hedge e he), Nat.cast_add, add_assoc]
      have hlength : before + (durations.length : ℚ) =
          before + (durations.countP (· ≤ edge) : ℚ) + ((beyond edge durations).length : ℚ) := by
        rw [length_split durations edge, Nat.cast_add, add_assoc]
      have hothers : ∀ l ∈ edges.map Prod.fst ++ ["+Inf"],
          (l, (durations.countP (bucketOf ((label, edge) :: edges) · = l) : ℚ)) =
            (l, ((beyond edge durations).countP (bucketOf edges · = l) : ℚ)) := by
        intro l hl
        have hne : label ≠ l := fun heq => hlabel (heq ▸ hl)
        rw [countP_bucketOf_of_ne durations hne]
      show (label, before + (durations.countP (· ≤ edge) : ℚ) - before) :: increments
          (before + (durations.countP (· ≤ edge) : ℚ))
          (edges.map (fun e => (e.1, before + (durations.countP (· ≤ e.2) : ℚ))) ++
            [("+Inf", before + (durations.length : ℚ))]) =
        (label, (durations.countP (bucketOf ((label, edge) :: edges) · = label) : ℚ)) ::
          (edges.map Prod.fst ++ ["+Inf"]).map fun l =>
            (l, (durations.countP (bucketOf ((label, edge) :: edges) · = l) : ℚ))
      rw [countP_bucketOf_self durations hlabel, add_sub_cancel_left, hcounts, hlength,
        ih hedges hlabels, List.map_congr_left hothers]

/-! ### The histogram -/

/-- What makes a histogram the exact one of the durations. -/
structure IsExact (durations : List ℚ) (h : HistogramMetricFamily) : Prop where
  /-- Every bucket has the number of durations that are at most its edge, and the last one all. -/
  buckets : h.buckets =
    durationBuckets.map (fun e => (e.1, (durations.countP (· ≤ e.2) : ℚ))) ++
      [("+Inf", (durations.length : ℚ))]
  cumulative : h.buckets.Pairwise fun b b' => b.2 ≤ b'.2
  sum : h.sumValue = durations.sum
  /-- Each duration is counted once, in the first bucket that it lies within. -/
  once : increments 0 h.buckets = (durationBuckets.map Prod.fst ++ ["+Inf"]).map fun label =>
    (label, (durations.countP (bucketOf durationBuckets · = label) : ℚ))

theorem durationBuckets_sorted : durationBuckets.Pairwise fun e e' => e.2 ≤ e'.2 := by
  decide +kernel

theorem durationBuckets_nodup : (durationBuckets.map Prod.fst ++ ["+Inf"]).Nodup := by decide

/-- **What `_histogram_from_durations` computes.** -/
theorem histogramFromDurations_eq (name doc : String) (durations : List ℚ) :
    histogramFromDurations name doc durations =
      ⟨name, doc, durationBuckets.map (fun e => (e.1, (durations.countP (· ≤ e.2) : ℚ))) ++
        [("+Inf", (durations.length : ℚ))], durations.sum⟩ := by
  have hsorted := List.pairwise_insertionSort (· ≤ ·) durations
  have hperm := List.perm_insertionSort (· ≤ ·) durations
  have hstart : Passed (durations.insertionSort (· ≤ ·)) []
      ⟨0, 0, durations.insertionSort (· ≤ ·)⟩ := ⟨rfl, rfl, rfl⟩
  obtain ⟨hbuckets, done, hpassed⟩ := fillBuckets_eq hsorted durationBuckets_sorted hstart
    fun x hx => absurd hx List.not_mem_nil
  simp only [histogramFromDurations]
  generalize fillBuckets durationBuckets ⟨0, 0, durations.insertionSort (· ≤ ·)⟩ = filled
    at hbuckets hpassed ⊢
  -- the last loop takes everything that is left
  have hend := hpassed.drain fun _ => true
  have hall : filled.2.rest.takeWhile (fun _ => true) = filled.2.rest :=
    List.takeWhile_eq_self_iff.mpr fun _ _ => rfl
  rw [hall, ← hpassed.split] at hend
  have hcounts : ∀ edge : ℚ, (durations.insertionSort (· ≤ ·)).countP (· ≤ edge) =
      durations.countP (· ≤ edge) := fun edge => hperm.countP_eq _
  simp only [hcounts] at hbuckets
  simp only [hbuckets, hend.counted, hend.summed]
  rw [hperm.length_eq, hperm.sum_eq]

theorem isExact_mk (name doc : String) (durations : List ℚ) :
    IsExact durations
      ⟨name, doc, durationBuckets.map (fun e => (e.1, (durations.countP (· ≤ e.2) : ℚ))) ++
        [("+Inf", (durations.length : ℚ))], durations.sum⟩ := by
  have honce := increments_eq durationBuckets_sorted durationBuckets_nodup durations 0
  simp only [zero_add] at honce
  refine ⟨rfl, ?_, rfl, honce⟩
  refine List.pairwise_append.mpr ⟨?_, List.pairwise_singleton _ _, ?_⟩
  · refine List.pairwise_map.mpr (durationBuckets_sorted.imp fun {e e'} hle => ?_)
    have hcount : durations.countP (· ≤ e.2) ≤ durations.countP (· ≤ e'.2) :=
      List.countP_mono_left fun x _ hx => decide_eq_true ((of_decide_eq_true hx).trans hle)
    exact Nat.cast_le.mpr hcount
  · intro b hb b' hb'
    obtain ⟨e, _, rfl⟩ := List.mem_map.mp hb
    rw [List.mem_singleton.mp hb']
    exact Nat.cast_le.mpr List.countP_le_length

/-- **A histogram is exact**, whatever the durations and their order. -/
theorem histogramFromDurations_exact (name doc : String) (durations : List ℚ) :
    IsExact durations (histogramFromDurations name doc durations) := by
  rw [histogramFromDurations_eq]
  exact isExact_mk name doc durations

/-- **Every histogram of a scrape is exact.** -/
theorem collectHistograms_exact (db : Db) :
    List.Forall₂ IsExact
      [attemptDurations db .succeeded, attemptDurations db .lost, evaluationDurations db]
      (collectHistograms db) := by
  unfold collectHistograms
  simp only [histogramFromDurations_eq]
  exact .cons (isExact_mk _ _ _) (.cons (isExact_mk _ _ _) (.cons (isExact_mk _ _ _) .nil))

end PosttrainPlatform.PlatformCollector
