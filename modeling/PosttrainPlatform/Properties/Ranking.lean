import PosttrainPlatform.Services.Control

/-!
# The ranking ages fairly

Waiting adds to the priority of a job up to the ceiling.  A job that is ahead of another one in both
priority and waiting time stays ahead, and one that has waited long enough to reach the ceiling is
overtaken by no later job.
-/

namespace PosttrainPlatform

open Service

/-- The list that `rank_candidates` returns, for the time that it has read and the jobs of its query. -/
def ranking (settings : Settings) (now : Time) (candidates : List (JobId × Job)) :
    List (ℚ × JobId × Job) :=
  (candidates.map fun r => (effectivePriority settings r.2 now, r)).insertionSort RanksBefore

/-- **No starvation in a ranking.** -/
structure AgesFairly (settings : Settings) (now : Time) (ranked : List (ℚ × JobId × Job)) : Prop where
  /-- A job that is not behind in priority and was created earlier comes first. -/
  earlier : ∀ (i j : ℕ) (a b : ℚ × JobId × Job), ranked[i]? = some a → ranked[j]? = some b →
    b.2.2.priority ≤ a.2.2.priority → a.2.2.createdAt < b.2.2.createdAt → i < j
  /-- In front of a job that has waited long enough there are only jobs created no later. -/
  waited : ∀ (i j : ℕ) (a b : ℚ × JobId × Job), ranked[i]? = some a → ranked[j]? = some b → i < j →
    (settings.priorityCeiling - b.2.2.priority) / settings.agingRate ≤ now - b.2.2.createdAt →
    a.2.2.createdAt ≤ b.2.2.createdAt

instance ranksBefore_total : Std.Total RanksBefore where
  total a b := by
    unfold RanksBefore
    rcases lt_trichotomy a.1 b.1 with h | h | h
    · exact Or.inr (Or.inl h)
    · rcases le_total a.2.2.createdAt b.2.2.createdAt with ht | ht
      · exact Or.inl (Or.inr ⟨h, ht⟩)
      · exact Or.inr (Or.inr ⟨h.symm, ht⟩)
    · exact Or.inl (Or.inl h)

instance ranksBefore_trans : IsTrans _ RanksBefore where
  trans a b c hab hbc := by
    unfold RanksBefore at *
    rcases hab with hab | ⟨hab, ht⟩
    · rcases hbc with hbc | ⟨hbc, _⟩
      · exact Or.inl (hbc.trans hab)
      · exact Or.inl (hbc ▸ hab)
    · rcases hbc with hbc | ⟨hbc, ht'⟩
      · exact Or.inl (hab ▸ hbc)
      · exact Or.inr ⟨hab.trans hbc, ht.trans ht'⟩

section Ranking

variable {settings : Settings} {now : Time} {candidates : List (JobId × Job)}

theorem ranking_sorted : (ranking settings now candidates).Pairwise RanksBefore :=
  List.pairwise_insertionSort _ _

/-- Of two places in the ranking the first one ranks before the second. -/
theorem ranksBefore_of_lt {i j : ℕ} {a b : ℚ × JobId × Job} (hij : i < j)
    (hi : (ranking settings now candidates)[i]? = some a)
    (hj : (ranking settings now candidates)[j]? = some b) : RanksBefore a b := by
  obtain ⟨hilt, rfl⟩ := List.getElem?_eq_some_iff.mp hi
  obtain ⟨hjlt, rfl⟩ := List.getElem?_eq_some_iff.mp hj
  exact List.pairwise_iff_getElem.mp ranking_sorted i j hilt hjlt hij

/-- Every job is ranked by its effective priority. -/
theorem score_of_mem_ranking {a : ℚ × JobId × Job} (ha : a ∈ ranking settings now candidates) :
    a.1 = effectivePriority settings a.2.2 now := by
  obtain ⟨r, _, rfl⟩ := List.mem_map.mp ((List.mem_insertionSort _).mp ha)
  rfl

/-- More waiting at no less priority gives no less effective priority. -/
theorem effectivePriority_mono (hrate : 0 < settings.agingRate) {a b : Job}
    (hpriority : b.priority ≤ a.priority) (hcreated : a.createdAt ≤ b.createdAt) :
    effectivePriority settings b now ≤ effectivePriority settings a now := by
  unfold effectivePriority
  have hwait : settings.agingRate * (now - b.createdAt) ≤ settings.agingRate * (now - a.createdAt) :=
    mul_le_mul_of_nonneg_left (by linarith) hrate.le
  have hpriority : (b.priority : ℚ) ≤ a.priority := by exact_mod_cast hpriority
  exact min_le_min (by linarith) le_rfl

/-- A job that has waited long enough has reached the ceiling. -/
theorem effectivePriority_of_waited (hrate : 0 < settings.agingRate) {b : Job}
    (hwaited : (settings.priorityCeiling - b.priority) / settings.agingRate ≤ now - b.createdAt) :
    effectivePriority settings b now = settings.priorityCeiling := by
  unfold effectivePriority
  have hgap : settings.priorityCeiling - b.priority ≤ settings.agingRate * (now - b.createdAt) := by
    rw [div_le_iff₀ hrate] at hwaited
    linarith
  exact min_eq_right (by linarith)

theorem ranking_agesFairly (hrate : 0 < settings.agingRate) :
    AgesFairly settings now (ranking settings now candidates) where
  earlier i j a b hi hj hpriority hcreated := by
    by_contra hnot
    have hne : j ≠ i := by
      intro h
      rw [h, hi] at hj
      cases hj
      exact lt_irrefl _ hcreated
    -- `b` comes first, so its score is not behind; the tie goes to the earlier job
    have hji : RanksBefore b a :=
      ranksBefore_of_lt (lt_of_le_of_ne (not_lt.mp hnot) hne) hj hi
    have hscore := @effectivePriority_mono settings now hrate a.2.2 b.2.2 hpriority hcreated.le
    rw [← score_of_mem_ranking (List.mem_of_getElem? hi),
      ← score_of_mem_ranking (List.mem_of_getElem? hj)] at hscore
    rcases hji with hlt | ⟨_, hle⟩
    · exact absurd hscore (not_le.mpr hlt)
    · exact absurd hle (not_le.mpr hcreated)
  waited i j a b hi hj hij hwaited := by
    have hscore : b.1 = settings.priorityCeiling := by
      rw [score_of_mem_ranking (List.mem_of_getElem? hj)]
      exact effectivePriority_of_waited hrate hwaited
    have hceiling : a.1 ≤ settings.priorityCeiling := by
      rw [score_of_mem_ranking (List.mem_of_getElem? hi)]
      exact min_le_right _ _
    rcases ranksBefore_of_lt hij hi hj with hlt | ⟨_, hle⟩
    · exact absurd hlt (not_lt.mpr (hscore ▸ hceiling))
    · exact hle

end Ranking

/-- **The jobs of `rank_candidates` age fairly**, whatever the time that it has read and the jobs of its
query. -/
theorem rankCandidates_agesFairly (env : Env) (hrate : 0 < env.settings.agingRate) :
    rankCandidates env = (do
      let now ← exec .clock
      let candidates ← exec .listSchedulable
      pure (ranking env.settings now candidates)) ∧
    ∀ now candidates, AgesFairly env.settings now (ranking env.settings now candidates) :=
  ⟨rfl, fun _ _ => ranking_agesFairly hrate⟩

/-- An old job of priority 0 and a new one of priority 100. -/
def oldAndNew : List (JobId × Job) :=
  [(1, { jobType := "noop", status := .queued, config := none, priority := 0, createdAt := 0 }),
   (2, { jobType := "noop", status := .queued, config := none, priority := 100, createdAt := 20000 })]

/-- The old job is overtaken by no later one. -/
theorem old_job_first : AgesFairly Env.standard.settings 20000
    (ranking Env.standard.settings 20000 oldAndNew) :=
  (rankCandidates_agesFairly Env.standard (by decide +kernel)).2 20000 oldAndNew

end PosttrainPlatform
