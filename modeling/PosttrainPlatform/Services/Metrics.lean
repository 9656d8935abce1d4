import Mathlib.Data.List.Dedup
import Mathlib.Data.List.Sort
import PosttrainPlatform.Model.Schema

/-!
# `app/metrics.py`

The counters and the histograms of `_PlatformCollector.collect`.  None is stored: each is computed from
the rows of the moment.
-/

namespace PosttrainPlatform.PlatformCollector

/-- The counters, those by job type with one value for each type that occurs. -/
structure Counters where
  jobsCreated : List (String × ℕ)
  jobsCompleted : List (String × ℕ)
  jobsFailed : List (String × ℕ)
  jobsRetried : ℕ
  evaluationRuns : ℕ
  evaluationFailures : ℕ
  checkpointCreated : ℕ
  checkpointResume : ℕ

/-- The jobs of a type that meet a condition. -/
def countOf (db : Db) (cond : Job → Bool) (jobType : String) : ℕ :=
  Table.count (fun _ job => cond job && job.jobType == jobType) db.jobs

/-- `_grouped`: the jobs that meet a condition, counted `GROUP BY job_type`. -/
def grouped (db : Db) (cond : Job → Bool) : List (String × ℕ) :=
  ((db.jobs.rows.filter fun r => cond r.2).map fun r => r.2.jobType).dedup.map fun jobType =>
    (jobType, countOf db cond jobType)

/-- The counters that `collect` yields. -/
def collect (db : Db) : Counters where
  jobsCreated := grouped db fun _ => true
  jobsCompleted := grouped db fun job => job.status = .succeeded
  jobsFailed := grouped db fun job => job.status = .failed
  jobsRetried := Table.count (fun key _ => 1 < key.2) db.attempts
  evaluationRuns := Table.count (fun _ _ => true) db.evaluationRuns
  evaluationFailures := Table.count (fun _ row => row.status = .failed) db.evaluationRuns
  checkpointCreated := Table.count (fun _ _ => true) db.checkpoints
  checkpointResume := Table.count (fun _ step => step.isSome) db.attemptResumeDecisions

/-! ### Histograms -/

/-- `_DURATION_BUCKETS`, each edge with its `str`. -/
def durationBuckets : List (String × ℚ) :=
  [("0.05", 1 / 20), ("0.1", 1 / 10), ("0.25", 1 / 4), ("0.5", 1 / 2), ("1.0", 1), ("2.5", 5 / 2),
    ("5.0", 5), ("10.0", 10), ("30.0", 30), ("60.0", 60), ("300.0", 300)]

structure HistogramMetricFamily where
  name : String
  documentation : String
  buckets : List (String × ℚ)
  sumValue : ℚ

/-- The variables that the loops share: the counts, and `ordered[idx:]`. -/
structure Filling where
  cumulative : ℕ
  total : ℚ
  rest : List ℚ

/-- A `while` loop: it takes durations as long as they are within. -/
def drain (within : ℚ → Bool) (cumulative : ℕ) (total : ℚ) : List ℚ → Filling
  | [] => ⟨cumulative, total, []⟩
  | x :: rest =>
    if within x then drain within (cumulative + 1) (total + x) rest
    else ⟨cumulative, total, x :: rest⟩

/-- The `for` loop over the edges: the buckets, and what the loop leaves. -/
def fillBuckets : List (String × ℚ) → Filling → List (String × ℚ) × Filling
  | [], s => ([], s)
  | (label, edge) :: edges, s =>
    let s' := drain (· ≤ edge) s.cumulative s.total s.rest
    let (buckets, s'') := fillBuckets edges s'
    ((label, (s'.cumulative : ℚ)) :: buckets, s'')

/-- `_histogram_from_durations`. -/
def histogramFromDurations (name doc : String) (durations : List ℚ) : HistogramMetricFamily :=
  let ordered := durations.insertionSort (· ≤ ·)
  let (buckets, s) := fillBuckets durationBuckets ⟨0, 0, ordered⟩
  let s' := drain (fun _ => true) s.cumulative s.total s.rest
  ⟨name, doc, buckets ++ [("+Inf", (s'.cumulative : ℚ))], s'.total⟩

/-- How long the finished attempts with a status took. -/
def attemptDurations (db : Db) (status : AttemptStatus) : List ℚ :=
  (db.attempts.rows.filter fun r => r.2.status = status).filterMap fun r =>
    (r.2.finishedAt.map fun finished => finished - r.2.startedAt).filter (0 ≤ ·)

/-- How long the completed evaluation runs took. -/
def evaluationDurations (db : Db) : List ℚ :=
  (db.evaluationRuns.rows.filter fun r => r.2.status = .succeeded).filterMap fun r =>
    (r.2.completedAt.map fun completed => completed - r.2.createdAt).filter (0 ≤ ·)

/-- The histograms that `collect` yields. -/
def collectHistograms (db : Db) : List HistogramMetricFamily :=
  [histogramFromDurations "job_execution_seconds"
      "Wall-clock execution time of successful job attempts." (attemptDurations db .succeeded),
    histogramFromDurations "job_recovery_seconds"
      "Time a lost attempt was outstanding before Recovery reclaimed it."
      (attemptDurations db .lost),
    histogramFromDurations "evaluation_duration_seconds"
      "Wall-clock duration of successful evaluation runs." (evaluationDurations db)]

/-! ### Counters that grow -/

/-- Every value that is exposed is still exposed, and has not decreased. -/
def LabelsAtMost (metrics metrics' : List (String × ℕ)) : Prop :=
  ∀ jobType n, (jobType, n) ∈ metrics → ∃ n', (jobType, n') ∈ metrics' ∧ n ≤ n'

/-- No counter is greater. -/
structure Counters.AtMost (c c' : Counters) : Prop where
  jobsCreated : LabelsAtMost c.jobsCreated c'.jobsCreated
  jobsCompleted : LabelsAtMost c.jobsCompleted c'.jobsCompleted
  jobsFailed : LabelsAtMost c.jobsFailed c'.jobsFailed
  jobsRetried : c.jobsRetried ≤ c'.jobsRetried
  evaluationRuns : c.evaluationRuns ≤ c'.evaluationRuns
  evaluationFailures : c.evaluationFailures ≤ c'.evaluationFailures
  checkpointCreated : c.checkpointCreated ≤ c'.checkpointCreated
  checkpointResume : c.checkpointResume ≤ c'.checkpointResume

theorem LabelsAtMost.refl (metrics : List (String × ℕ)) : LabelsAtMost metrics metrics :=
  fun _ n hn => ⟨n, hn, le_refl n⟩

theorem LabelsAtMost.trans {metrics metrics' metrics'' : List (String × ℕ)}
    (h : LabelsAtMost metrics metrics') (h' : LabelsAtMost metrics' metrics'') :
    LabelsAtMost metrics metrics'' := by
  intro jobType n hn
  obtain ⟨n', hn', hle⟩ := h jobType n hn
  obtain ⟨n'', hn'', hle'⟩ := h' jobType n' hn'
  exact ⟨n'', hn'', hle.trans hle'⟩

theorem Counters.AtMost.refl (c : Counters) : c.AtMost c :=
  ⟨.refl _, .refl _, .refl _, le_refl _, le_refl _, le_refl _, le_refl _, le_refl _⟩

theorem Counters.AtMost.trans {c c' c'' : Counters} (h : c.AtMost c') (h' : c'.AtMost c'') :
    c.AtMost c'' where
  jobsCreated := h.jobsCreated.trans h'.jobsCreated
  jobsCompleted := h.jobsCompleted.trans h'.jobsCompleted
  jobsFailed := h.jobsFailed.trans h'.jobsFailed
  jobsRetried := h.jobsRetried.trans h'.jobsRetried
  evaluationRuns := h.evaluationRuns.trans h'.evaluationRuns
  evaluationFailures := h.evaluationFailures.trans h'.evaluationFailures
  checkpointCreated := h.checkpointCreated.trans h'.checkpointCreated
  checkpointResume := h.checkpointResume.trans h'.checkpointResume

/-- A value of a counter is the number of jobs of its type, and there are some. -/
theorem mem_grouped {db : Db} {cond : Job → Bool} {jobType : String} {n : ℕ} :
    (jobType, n) ∈ grouped db cond ↔ n = countOf db cond jobType ∧ 0 < n := by
  unfold grouped
  rw [List.mem_map]
  constructor
  · rintro ⟨jobType', hmem, heq⟩
    obtain ⟨rfl, rfl⟩ := Prod.mk.inj heq
    obtain ⟨⟨j, job⟩, hjob, htype⟩ := List.mem_map.mp (List.mem_dedup.mp hmem)
    obtain ⟨hrow, hcond⟩ := List.mem_filter.mp hjob
    have htype : job.jobType = jobType' := htype
    refine ⟨rfl, Table.count_pos _ (Table.mem_rows.mp hrow) ?_⟩
    rw [Bool.and_eq_true]
    exact ⟨hcond, beq_iff_eq.mpr htype⟩
  · rintro ⟨rfl, hpos⟩
    refine ⟨jobType, List.mem_dedup.mpr (List.mem_map.mpr ?_), rfl⟩
    obtain ⟨⟨j, job⟩, hmem⟩ := List.exists_mem_of_length_pos hpos
    obtain ⟨hrow, hP⟩ := List.mem_filter.mp hmem
    obtain ⟨hcond, htype⟩ := Bool.and_eq_true_iff.mp hP
    exact ⟨(j, job), List.mem_filter.mpr ⟨hrow, hcond⟩, beq_iff_eq.mp htype⟩

/-- Labelled counters do not decrease if the jobs that meet the condition go on to, with their type. -/
theorem labelsAtMost_of {db db' : Db} {cond : Job → Bool}
    (h : ∀ j job, db.jobs.lookup j = some job → cond job = true → ∃ job',
      db'.jobs.lookup j = some job' ∧ cond job' = true ∧ job'.jobType = job.jobType) :
    LabelsAtMost (grouped db cond) (grouped db' cond) := by
  intro jobType n hn
  obtain ⟨rfl, hpos⟩ := mem_grouped.mp hn
  have hle : countOf db cond jobType ≤ countOf db' cond jobType := by
    refine Table.count_le_count _ fun j job hj hP => ?_
    obtain ⟨hcond, htype⟩ := Bool.and_eq_true_iff.mp hP
    obtain ⟨job', hj', hcond', htype'⟩ := h j job hj hcond
    refine ⟨job', hj', ?_⟩
    rw [hcond', htype']
    exact htype
  exact ⟨_, mem_grouped.mpr ⟨rfl, hpos.trans_le hle⟩, hle⟩

end PosttrainPlatform.PlatformCollector
