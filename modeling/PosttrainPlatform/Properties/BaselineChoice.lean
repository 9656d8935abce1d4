import PosttrainPlatform.Properties.BaselineRuns
import PosttrainPlatform.Properties.GateReads
import PosttrainPlatform.Properties.Growth

/-!
# When the choice of a baseline changes

`topRun` is the latest completed run that the candidate can be compared with, the candidate itself
included.  A row can change without effect on it unless it is the row of a run that qualifies and was
created after all others that do (`topRun_insert`).
-/

namespace PosttrainPlatform

open Programs Service Selection

/-- The run evaluated the baseline version of the candidate, and the two can be compared. -/
def rivals (db : Db) (run base : EvaluationRun) : Bool :=
  decide ((some base.model.1, some base.model.2) = run.baseline) && comparable db run base

/-- The run can be the baseline of the candidate. -/
def qualifies (db : Db) (run : EvaluationRun) (r : RunId × EvaluationRun) : Bool :=
  decide (r.2.status = .succeeded) && rivals db run r.2

/-- A run that can be the baseline was created after the base run. -/
def Outdated (db : Db) (run base : EvaluationRun) : Prop :=
  ∃ b' base', db.evaluationRuns.lookup b' = some base' ∧ qualifies db run (b', base') = true ∧
    base.createdAt < base'.createdAt

/-- **The run that is chosen**: one that was created last. -/
def topRun (db : Db) (run : EvaluationRun) : Option (RunId × EvaluationRun) :=
  best (fun a b => b.2.createdAt ≤ a.2.createdAt) (qualifies db run) db.evaluationRuns.rows

/-- The candidate is not chosen, unless it is completed. -/
def Standing (db : Db) (run : EvaluationRun) : Prop :=
  run.status = .succeeded ∨ rivals db run run = false ∨ Outdated db run run

section Choice

variable {db db' : Db} {run x base row : EvaluationRun} {runId b : RunId} {r : RunId × EvaluationRun}

/-- What a candidate is compared with depends on its inputs only. -/
theorem comparable_congr (hconfigs : db'.evaluationConfigs = db.evaluationConfigs)
    (hsame : x.SameInputs run) : comparable db' x = comparable db run := by
  obtain ⟨_, _, hdataset, hconfig, _, _⟩ := hsame
  funext base
  unfold comparable configsAgree
  rw [hconfigs, hdataset, hconfig]

theorem rivals_congr (hconfigs : db'.evaluationConfigs = db.evaluationConfigs)
    (hsame : x.SameInputs run) : rivals db' x = rivals db run := by
  funext base
  unfold rivals
  rw [comparable_congr hconfigs hsame, hsame.2.2.2.2.1]

theorem qualifies_congr (hconfigs : db'.evaluationConfigs = db.evaluationConfigs)
    (hsame : x.SameInputs run) : qualifies db' x = qualifies db run := by
  funext r
  unfold qualifies
  rw [rivals_congr hconfigs hsame]

theorem topRun_congr (hsame : x.SameInputs run) : topRun db x = topRun db run := by
  unfold topRun
  rw [qualifies_congr rfl hsame]

/-- Being outdated depends on the inputs of the candidate, and on the time of the other. -/
theorem Outdated.congr {late late' : EvaluationRun} (h : Outdated db x late)
    (hsame : x.SameInputs run) (hcreated : late'.createdAt = late.createdAt) :
    Outdated db run late' := by
  obtain ⟨b', base', hstored, hqualifies, hlater⟩ := h
  refine ⟨b', base', hstored, ?_, hcreated ▸ hlater⟩
  rw [← qualifies_congr rfl hsame]
  exact hqualifies

/-- The status of a base run does not matter for whether it is a rival. -/
theorem rivals_of_sameInputs (hsame : base.SameInputs row) :
    rivals db run row = rivals db run base := by
  obtain ⟨_, hmodel, hdataset, hconfig, _, _⟩ := hsame
  unfold rivals comparable
  rw [hmodel, hdataset, hconfig]

/-- **The chosen run is stored, qualifies, and is not outdated.** -/
theorem topRun_spec (h : topRun db run = some r) :
    db.evaluationRuns.lookup r.1 = some r.2 ∧ qualifies db run r = true ∧ ¬ Outdated db run r.2 := by
  obtain ⟨hmem, hqualifies, hlatest⟩ := best_spec h
  refine ⟨Table.mem_rows.mp hmem, hqualifies, ?_⟩
  rintro ⟨b', base', hstored, hqualifies', hlater⟩
  exact absurd hlater (not_lt.mpr (hlatest (b', base') (Table.mem_rows.mpr hstored) hqualifies'))

/-! ### A row that changes -/

section Insert

variable (hruns : db'.evaluationRuns = db.evaluationRuns.insert b row)
  (hconfigs : db'.evaluationConfigs = db.evaluationConfigs)
  (hcreated : ∀ base, db.evaluationRuns.lookup b = some base → base.createdAt = row.createdAt)
  (hold : ∀ base, db.evaluationRuns.lookup b = some base → qualifies db run (b, base) = true →
    Outdated db run base)

include hruns hconfigs hcreated hold

/-- **What is outdated stays so**, if the row that changes is no candidate or outdated itself. -/
theorem Outdated.insert {late : EvaluationRun} (h : Outdated db run late) : Outdated db' run late := by
  have hother : ∀ b' base', b' ≠ b → db.evaluationRuns.lookup b' = some base' →
      qualifies db run (b', base') = true → late.createdAt < base'.createdAt →
      Outdated db' run late := by
    intro b' base' hne hstored hqualifies hlater
    refine ⟨b', base', ?_, ?_, hlater⟩
    · rw [hruns, AList.lookup_insert_ne hne]
      exact hstored
    · rw [qualifies_congr hconfigs (.refl run)]
      exact hqualifies
  obtain ⟨b', base', hstored, hqualifies, hlater⟩ := h
  by_cases hb : b' = b
  · subst hb
    -- a later one stands behind it
    obtain ⟨b'', base'', hstored', hqualifies', hlater'⟩ := hold base' hstored hqualifies
    refine hother b'' base'' ?_ hstored' hqualifies' (hlater.trans hlater')
    rintro rfl
    rw [hstored] at hstored'
    cases hstored'
    exact lt_irrefl _ hlater'
  · exact hother b' base' hb hstored hqualifies hlater

/-- **A candidate that is chosen only if it is completed** stays one. -/
theorem Standing.insert {run' : EvaluationRun} (hrun : db.evaluationRuns.lookup runId = some run)
    (hrun' : db'.evaluationRuns.lookup runId = some run') (hsame : run.SameInputs run')
    (h : Standing db run) : Standing db' run' := by
  have hrivals : rivals db' run' run' = rivals db run run := by
    rw [← rivals_congr hconfigs.symm hsame, rivals_of_sameInputs hsame]
  have houtdated : Outdated db run run → Outdated db' run' run' := fun h =>
    (h.insert hruns hconfigs hcreated hold).congr hsame hsame.2.2.2.2.2
  obtain hstatus | hnone | hlate := h
  · by_cases hid : runId = b
    · subst hid
      cases hrival : rivals db run run with
      | false => exact Or.inr (Or.inl (hrivals.trans hrival))
      | true =>
          refine Or.inr (Or.inr (houtdated (hold run hrun ?_)))
          simp [qualifies, hstatus, hrival]
    · rw [hruns, AList.lookup_insert_ne hid, hrun] at hrun'
      cases hrun'
      exact Or.inl hstatus
  · exact Or.inr (Or.inl (hrivals.trans hnone))
  · exact Or.inr (Or.inr (houtdated hlate))

/-- **The choice stays the same** when a row changes that is outdated wherever it qualifies. -/
theorem topRun_insert (hnew : qualifies db run (b, row) = true → Outdated db run row) :
    topRun db' run = topRun db run := by
  refine best_agree (q := fun r => decide (r.1 ≠ b)) ?_ (fun r _ _ => ?_) (fun r hr => ?_)
    fun r hr => ?_
  · rw [hruns]
    exact Table.filter_rows_insert (by simp) (by simp)
  · rw [qualifies_congr hconfigs (.refl run)]
  · refine decide_eq_true fun hid => ?_
    obtain ⟨hstored, hqualifies, hlatest⟩ := topRun_spec hr
    rw [hruns, hid, AList.lookup_insert] at hstored
    obtain rfl := Option.some.inj hstored
    rw [qualifies_congr hconfigs (.refl run)] at hqualifies
    obtain ⟨id, row'⟩ := r
    simp only at hid hlatest hqualifies
    subst hid
    exact hlatest ((hnew hqualifies).insert hruns hconfigs hcreated hold)
  · refine decide_eq_true fun hid => ?_
    obtain ⟨hstored, hqualifies, hlatest⟩ := topRun_spec hr
    obtain ⟨id, base⟩ := r
    simp only at hid hstored hlatest
    subst hid
    exact hlatest (hold base hstored hqualifies)

end Insert

/-! ### What an evaluation sees -/

theorem listForModelVersion_eq (db : Db) (model : NullableVersionRef) :
    EvaluationRunsRepo.listForModelVersion db model =
      (db.evaluationRuns.rows.insertionSort fun a b => b.2.createdAt ≤ a.2.createdAt).filter
        fun r => (some r.2.model.1, some r.2.model.2) = model := by
  rw [filter_insertionSort]
  rfl

/-- **The baseline of a stored run is the chosen one.** -/
theorem baselineRun_eq_topRun (hrun : db.evaluationRuns.lookup runId = some run)
    (hbase : run.baseline.1.isSome = true) : baselineRun db runId run = topRun db run := by
  rw [baselineRun_eq hrun hbase, listForModelVersion_eq, List.find?_filter]
  refine List.find?_congr fun r _ => ?_
  simp only [qualifies, rivals, eligible, Bool.decide_and, Bool.decide_eq_true, decide_eq_true_eq]
  rw [Bool.and_left_comm]

/-- The run can be the baseline for an evaluation that sees the candidate as completed. -/
def seesAs (db : Db) (runId : RunId) (run : EvaluationRun) (r : RunId × EvaluationRun) : Bool :=
  (decide (r.1 = runId) || decide (r.2.status = .succeeded)) && rivals db run r.2

section Sees

variable (hrun : db.evaluationRuns.lookup runId = some run)

include hrun

/-- The run that is found in a listing. -/
theorem find_seenRuns (hsame : x.SameInputs run) (hx : x.status = .succeeded) :
    ((seenRuns runId x (EvaluationRunsRepo.listForModelVersion db x.baseline)).find?
      fun r => comparable db x r.2).map Prod.fst =
        (best (fun a b => b.2.createdAt ≤ a.2.createdAt) (seesAs db runId run)
          db.evaluationRuns.rows).map Prod.fst := by
  have hkey : (Prod.fst ∘ fun r : RunId × EvaluationRun => if r.1 = runId then (runId, x) else r) =
      Prod.fst := by
    funext r
    simp only [Function.comp]
    split
    · rename_i hid
      exact hid.symm
    · rfl
  unfold seenRuns
  rw [listForModelVersion_eq, List.find?_filter, List.find?_map, List.find?_filter, Option.map_map,
    hkey]
  refine congrArg (Option.map Prod.fst) (List.find?_congr fun r hr => ?_)
  have hstored := Table.mem_rows.mp ((List.mem_insertionSort _).mp hr)
  have hversion : x.baseline = run.baseline := hsame.2.2.2.2.1.symm
  have hcomparable : comparable db x = comparable db run := comparable_congr rfl hsame
  simp only [Function.comp, decide_eq_true_eq, seesAs, rivals]
  by_cases hid : r.1 = runId
  · -- the row of the candidate, in whatever status
    rw [hid, hrun] at hstored
    obtain rfl := Option.some.inj hstored
    simp [hid, hx, hversion, comparable_self]
  · simp only [hid, hversion, if_false, hcomparable, decide_false, Bool.false_or, Bool.decide_and,
      Bool.decide_eq_true]
    exact Bool.and_left_comm _ _ _

/-- **An evaluation that sees the candidate as completed comes to the chosen run.** -/
theorem find_seesAs (hstanding : Standing db run) :
    best (fun a b => b.2.createdAt ≤ a.2.createdAt) (seesAs db runId run) db.evaluationRuns.rows =
      topRun db run := by
  have hcandidate : ∀ r ∈ db.evaluationRuns.rows, r.1 = runId → r.2 = run := by
    intro r hr hid
    have hstored := Table.mem_rows.mp hr
    rw [hid, hrun] at hstored
    exact (Option.some.inj hstored).symm
  have hothers : ∀ r : RunId × EvaluationRun, r.1 ≠ runId →
      seesAs db runId run r = qualifies db run r := by
    intro r hid
    simp [seesAs, qualifies, hid]
  obtain hstatus | hrivals | houtdated := hstanding
  · refine List.find?_congr fun r hr => ?_
    by_cases hid : r.1 = runId
    · rw [seesAs, qualifies, hcandidate r ((List.mem_insertionSort _).mp hr) hid, hstatus]
      simp
    · exact hothers r hid
  · refine List.find?_congr fun r hr => ?_
    by_cases hid : r.1 = runId
    · rw [seesAs, qualifies, hcandidate r ((List.mem_insertionSort _).mp hr) hid, hrivals]
      simp
    · exact hothers r hid
  · refine best_agree (q := fun r => decide (r.1 ≠ runId)) rfl (fun r _ hid => ?_) (fun r hr => ?_)
      fun r hr => ?_
    · exact hothers r (of_decide_eq_true hid)
    · refine decide_eq_true fun hid => ?_
      obtain ⟨hmem, _, hlatest⟩ := best_spec hr
      obtain ⟨b', base', hstored, hqualifies, hlater⟩ := houtdated
      rw [← hcandidate r hmem hid] at hlater
      refine absurd hlater (not_lt.mpr (hlatest (b', base') (Table.mem_rows.mpr hstored) ?_))
      simp only [qualifies, Bool.and_eq_true] at hqualifies
      simp only [seesAs, Bool.and_eq_true, Bool.or_eq_true]
      exact ⟨Or.inr hqualifies.1, hqualifies.2⟩
    · refine decide_eq_true fun hid => ?_
      obtain ⟨hstored, _, hlatest⟩ := topRun_spec hr
      rw [hcandidate r (Table.mem_rows.mpr hstored) hid] at hlatest
      exact hlatest houtdated

end Sees

end Choice

end PosttrainPlatform
