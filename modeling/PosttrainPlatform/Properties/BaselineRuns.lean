import PosttrainPlatform.Lib.Selection
import PosttrainPlatform.Properties.GateVerdicts

/-!
# The baseline of a run

`resolve_baseline_metrics` takes the latest completed run that can be compared, which may be the
candidate itself: then the candidate is compared with its own metrics.
-/

namespace PosttrainPlatform

open Programs Service Selection

/-- **A run that the candidate may be compared with**: another one that evaluated the baseline version,
is completed, and used the same dataset version and a compatible config. -/
structure IsBaseline (db : Db) (runId : RunId) (run : EvaluationRun) (b : RunId)
    (base : EvaluationRun) : Prop where
  stored : db.evaluationRuns.lookup b = some base
  other : b ≠ runId
  version : (some base.model.1, some base.model.2) = run.baseline
  completed : base.status = .succeeded
  dataset : base.dataset = run.dataset
  config : configsAgree db run.evaluationConfigId base.evaluationConfigId = true

/-- One that was created last. -/
structure IsLatestBaseline (db : Db) (runId : RunId) (run : EvaluationRun) (b : RunId)
    (base : EvaluationRun) : Prop extends IsBaseline db runId run b base where
  latest : ∀ b' base', IsBaseline db runId run b' base' → base'.createdAt ≤ base.createdAt

/-- The metrics of the latest baseline; none, if there is no baseline. -/
def BaselineOf (env : Env) (db : Db) (runId : RunId) (run : EvaluationRun) : Option Metrics → Prop
  | some metrics => ∃ b base, IsLatestBaseline db runId run b base ∧
      metrics = EvaluationMetricsRepo.metricMap env db b
  | none => ∀ b base, ¬ IsBaseline db runId run b base

/-- **Baseline resolution.** -/
structure BaselineResolved (env : Env) (p : ℕ) (supply : Supply) (s : World) (runId : RunId)
    (run : EvaluationRun) : Prop where
  /-- The metrics are those of the latest baseline. -/
  resolves : ∃ metrics, evalAlone env p supply (resolveBaselineMetrics runId run) s =
    (.ok metrics, s) ∧ BaselineOf env s.db runId run metrics
  /-- With `strict` there is a 409 where there would be no metrics. -/
  strict : evalAlone env p supply (resolveBaselineStrictly runId run) s = (.error (.http 409), s) ↔
    evalAlone env p supply (resolveBaselineMetrics runId run) s = (.ok none, s)
  /-- The deltas are those to the metrics that a gate works with. -/
  deltas : ∀ comparison s', evalAlone env p supply (computeBaselineDeltas runId run) s =
      (.ok (some comparison), s') →
    evalAlone env p supply (resolveBaselineMetrics runId run) s =
      (.ok (some comparison.baselineMetrics), s)

/-- The runs that are listed before the candidate. -/
def listedBefore (db : Db) (runId : RunId) (run : EvaluationRun) : List (RunId × EvaluationRun) :=
  (EvaluationRunsRepo.listForModelVersion db run.baseline).takeWhile fun r => r.1 ≠ runId

/-- **The candidate is compared with itself**: it is a completed evaluation of its own baseline
version, and no baseline is listed before it. -/
structure SelfCompared (db : Db) (runId : RunId) (run : EvaluationRun) : Prop where
  version : (some run.model.1, some run.model.2) = run.baseline
  completed : run.status = .succeeded
  first : ∀ r ∈ listedBefore db runId run, ¬ IsBaseline db runId run r.1 r.2

/-- The metrics of the latest baseline are those of the candidate. -/
def SameAsBaseline (env : Env) (db : Db) (runId : RunId) (run : EvaluationRun) : Prop :=
  BaselineOf env db runId run (some (EvaluationMetricsRepo.metricMap env db runId))

/-! ### The listing -/

instance latest_total : Std.Total fun a b : RunId × EvaluationRun => b.2.createdAt ≤ a.2.createdAt :=
  ⟨fun _ _ => le_total _ _⟩

instance latest_trans : IsTrans (RunId × EvaluationRun) fun a b => b.2.createdAt ≤ a.2.createdAt :=
  ⟨fun _ _ _ hab hbc => hbc.trans hab⟩

section Listing

variable {db : Db} {runId : RunId} {run : EvaluationRun} {r : RunId × EvaluationRun}

theorem mem_listForModelVersion {model : NullableVersionRef} :
    r ∈ EvaluationRunsRepo.listForModelVersion db model ↔
      db.evaluationRuns.lookup r.1 = some r.2 ∧ (some r.2.model.1, some r.2.model.2) = model := by
  unfold EvaluationRunsRepo.listForModelVersion
  rw [List.mem_insertionSort, List.mem_filter, Table.mem_rows]
  simp

/-- A completed run of the list that can be compared. -/
def eligible (db : Db) (run : EvaluationRun) (r : RunId × EvaluationRun) : Bool :=
  decide (r.2.status = .succeeded) && comparable db run r.2

theorem eligible_iff_isBaseline (hother : r.1 ≠ runId)
    (hr : r ∈ EvaluationRunsRepo.listForModelVersion db run.baseline) :
    eligible db run r = true ↔ IsBaseline db runId run r.1 r.2 := by
  obtain ⟨hstored, hversion⟩ := mem_listForModelVersion.mp hr
  simp only [eligible, comparable, Bool.and_eq_true, decide_eq_true_eq]
  constructor
  · rintro ⟨hcompleted, hdataset, hconfig⟩
    exact ⟨hstored, hother, hversion, hcompleted, hdataset, hconfig⟩
  · intro h
    exact ⟨h.completed, h.dataset, h.config⟩

/-- The run can be compared with itself. -/
theorem comparable_self (db : Db) (run : EvaluationRun) : comparable db run run = true := by
  simp [comparable, configsAgree]

/-- Of the eligible runs the chosen one was created last. -/
theorem latest_of_chosen
    (h : (EvaluationRunsRepo.listForModelVersion db run.baseline).find? (eligible db run) = some r)
    (hother : r.1 ≠ runId) : IsLatestBaseline db runId run r.1 r.2 := by
  have hmem := List.mem_of_find?_eq_some h
  have heligible : eligible db run r = true := List.find?_some h
  refine ⟨(eligible_iff_isBaseline hother hmem).mp heligible, fun b' base' hb' => ?_⟩
  have hlisted : (b', base') ∈ EvaluationRunsRepo.listForModelVersion db run.baseline :=
    mem_listForModelVersion.mpr ⟨hb'.stored, hb'.version⟩
  exact (best_spec h).2.2 (b', base') ((List.mem_insertionSort _).mp hlisted)
    ((eligible_iff_isBaseline hb'.other hlisted).mpr hb')

end Listing

/-! ### The choice -/

section Choice

variable {env : Env} {db : Db} {runId : RunId} {run : EvaluationRun} {r : RunId × EvaluationRun}
  (hrun : db.evaluationRuns.lookup runId = some run)

include hrun

/-- The row of the candidate in the list is the one that was loaded. -/
theorem row_of_candidate {model : NullableVersionRef}
    (hr : r ∈ EvaluationRunsRepo.listForModelVersion db model) (hid : r.1 = runId) :
    r = (runId, run) := by
  obtain ⟨id, row⟩ := r
  have hstored := (mem_listForModelVersion.mp hr).1
  simp only at hid hstored
  rw [hid, hrun] at hstored
  rw [hid, Option.some.inj hstored]

/-- **The run that is chosen is the first one of the list that is eligible.** -/
theorem baselineRun_eq (hbase : run.baseline.1.isSome = true) :
    baselineRun db runId run =
      (EvaluationRunsRepo.listForModelVersion db run.baseline).find? (eligible db run) := by
  have hmap : ((EvaluationRunsRepo.listForModelVersion db run.baseline).map fun r =>
      if r.1 = runId then (runId, run) else r) =
        EvaluationRunsRepo.listForModelVersion db run.baseline := by
    refine (List.map_congr_left fun r hr => ?_).trans (List.map_id _)
    split
    · rename_i hid
      exact (row_of_candidate hrun hr hid).symm
    · rfl
  have hnone : run.baseline.1.isNone = false := by
    rw [← Option.not_isSome, hbase]
    rfl
  unfold baselineRun completedRuns
  rw [hnone, if_neg Bool.false_ne_true, hmap, List.find?_filter]
  refine congrArg (fun q => List.find? q _) (funext fun r => ?_)
  simp [eligible]

/-- What has been refused is not the candidate, if that is eligible. -/
theorem others_before {before after : List (RunId × EvaluationRun)}
    (hself : eligible db run (runId, run) = true)
    (hlist : EvaluationRunsRepo.listForModelVersion db run.baseline = before ++ r :: after)
    (hbefore : ∀ a ∈ before, (!eligible db run a) = true) :
    ∀ a ∈ before, decide (a.1 ≠ runId) = true := by
  intro a ha
  refine decide_eq_true fun hid => ?_
  have hlisted : a ∈ EvaluationRunsRepo.listForModelVersion db run.baseline := by
    rw [hlist]
    exact List.mem_append_left _ ha
  have hrefused := hbefore a ha
  rw [row_of_candidate hrun hlisted hid, hself] at hrefused
  cases hrefused

/-- **The candidate is chosen exactly if it is compared with itself.** -/
theorem chosen_self_iff :
    (EvaluationRunsRepo.listForModelVersion db run.baseline).find? (eligible db run) =
      some (runId, run) ↔ SelfCompared db runId run := by
  constructor
  · intro h
    obtain ⟨heligible, before, after, hlist, hbefore⟩ := List.find?_eq_some_iff_append.mp h
    have hmem := List.mem_of_find?_eq_some h
    have hstatus : run.status = .succeeded := by
      unfold eligible at heligible
      exact of_decide_eq_true (Bool.and_eq_true_iff.mp heligible).1
    refine ⟨(mem_listForModelVersion.mp hmem).2, hstatus, fun r hr hbaseline => ?_⟩
    -- what is listed before the candidate has been refused
    have hin : r ∈ before := by
      unfold listedBefore at hr
      rw [hlist] at hr
      rw [List.takeWhile_append_of_pos (others_before hrun heligible hlist hbefore)] at hr
      simpa using hr
    have hlisted : r ∈ EvaluationRunsRepo.listForModelVersion db run.baseline := by
      rw [hlist]
      exact List.mem_append_left _ hin
    have hrefused := hbefore r hin
    rw [(eligible_iff_isBaseline hbaseline.other hlisted).mpr hbaseline] at hrefused
    cases hrefused
  · rintro ⟨hversion, hstatus, hfirst⟩
    have hself : eligible db run (runId, run) = true := by
      simp [eligible, hstatus, comparable_self]
    have hmem : (runId, run) ∈ EvaluationRunsRepo.listForModelVersion db run.baseline :=
      mem_listForModelVersion.mpr ⟨hrun, hversion⟩
    cases hfind : (EvaluationRunsRepo.listForModelVersion db run.baseline).find? (eligible db run) with
    | none =>
        have hrefused := List.find?_eq_none.mp hfind _ hmem
        exact absurd hself hrefused
    | some r =>
        have hlisted := List.mem_of_find?_eq_some hfind
        by_cases hid : r.1 = runId
        · rw [row_of_candidate hrun hlisted hid]
        · obtain ⟨heligible, before, after, hlist, hbefore⟩ :=
            List.find?_eq_some_iff_append.mp hfind
          refine absurd ((eligible_iff_isBaseline hid hlisted).mp heligible) (hfirst r ?_)
          unfold listedBefore
          rw [hlist, List.takeWhile_append_of_pos (others_before hrun hself hlist hbefore),
            List.takeWhile_cons, if_pos (decide_eq_true hid)]
          exact List.mem_append_right _ List.mem_cons_self

/-- **The metrics that are found are those of the latest baseline**, unless the candidate is compared
with itself. -/
theorem baselineOf_iff (hbase : run.baseline.1.isSome = true) :
    BaselineOf env db runId run (baselineMetrics env db runId run) ↔
      (SelfCompared db runId run → SameAsBaseline env db runId run) := by
  unfold baselineMetrics
  rw [baselineRun_eq hrun hbase, ← chosen_self_iff hrun]
  cases hfind : (EvaluationRunsRepo.listForModelVersion db run.baseline).find? (eligible db run) with
  | none =>
      refine iff_of_true (fun b base hb => ?_) fun h => by cases h
      have hlisted : (b, base) ∈ EvaluationRunsRepo.listForModelVersion db run.baseline :=
        mem_listForModelVersion.mpr ⟨hb.stored, hb.version⟩
      exact List.find?_eq_none.mp hfind _ hlisted
        ((eligible_iff_isBaseline hb.other hlisted).mpr hb)
  | some r =>
      by_cases hid : r.1 = runId
      · rw [row_of_candidate hrun (List.mem_of_find?_eq_some hfind) hid]
        exact ⟨fun h _ => h, fun h => h rfl⟩
      · refine iff_of_true ⟨r.1, r.2, latest_of_chosen hfind hid, rfl⟩ fun h => ?_
        exact absurd (congrArg Prod.fst (Option.some.inj h)) hid

end Choice

/-! ### The three readers -/

section Alone

variable {env : Env} {p : ℕ} {supply : Supply} {s : World} {runId : RunId} {run : EvaluationRun}

/-- The metrics of the baseline, or a 409. -/
def strictAnswer : Option Metrics → Except Exn (Option Metrics)
  | some metrics => .ok (some metrics)
  | none => .error (.http 409)

theorem resolveBaselineStrictly_alone (hbase : run.baseline.1.isSome = true) :
    evalAlone env p supply (resolveBaselineStrictly runId run) s =
      (strictAnswer (baselineMetrics env s.db runId run), s) := by
  have hnone : run.baseline.1.isNone = false := by
    rw [← Option.not_isSome, hbase]
    rfl
  unfold resolveBaselineStrictly baselineMetrics baselineRun
  rw [hnone, if_neg Bool.false_ne_true, if_neg Bool.false_ne_true]
  refine (evalAlone_read rfl).trans ?_
  show evalAlone env p supply (check (.http 409) (!(completedRuns s.db runId run).isEmpty) >>=
    fun _ => firstComparable run (completedRuns s.db runId run) >>= fun found? =>
      found (.http 409) found? >>= fun metrics => pure (some metrics)) s = _
  cases hempty : (completedRuns s.db runId run).isEmpty with
  | true =>
      rw [List.isEmpty_iff.mp hempty]
      rfl
  | false =>
      refine (Prog.eval_bind_ok (firstComparable_alone run _)).trans ?_
      cases (completedRuns s.db runId run).find? fun r => comparable s.db run r.2 <;> rfl

/-- The deltas are those between the metric map of the run and that of its baseline. -/
theorem comparison_of_deltas {comparison : BaselineComparison} {s' : World}
    (h : evalAlone env p supply (computeBaselineDeltas runId run) s =
      (.ok (some comparison), s')) :
    comparison.candidateMetrics = EvaluationMetricsRepo.metricMap env s.db runId ∧
      baselineMetrics env s.db runId run = some comparison.baselineMetrics := by
  cases hbase : run.baseline.1.isSome with
  | false =>
      have hnone : run.baseline.1.isNone = true := by
        rw [← Option.not_isSome, hbase]
        rfl
      unfold computeBaselineDeltas resolveBaselineStrictly at h
      rw [hnone, if_pos rfl] at h
      cases h
  | true =>
      have hstrict : evalAlone env p supply (resolveBaselineStrictly runId run) s =
          (strictAnswer (baselineMetrics env s.db runId run), s) :=
        resolveBaselineStrictly_alone hbase
      unfold computeBaselineDeltas at h
      cases hbaseline : baselineMetrics env s.db runId run with
      | none =>
          rw [hbaseline] at hstrict
          rw [evalAlone, Prog.eval_bind_error hstrict] at h
          cases h
      | some metrics =>
          rw [hbaseline] at hstrict
          rw [evalAlone, Prog.eval_bind_ok hstrict] at h
          have hread := (@evalAlone_read env p supply _ s _ _ _ rfl).symm.trans h
          cases hread
          exact ⟨rfl, rfl⟩

end Alone

/-- **Baseline resolution takes the latest baseline exactly if the candidate is not compared with
itself**, or has the same metrics as the latest baseline. -/
theorem baseline_resolved_iff {env : Env} {p : ℕ} {supply : Supply} {s : World} {runId : RunId}
    {run : EvaluationRun} (hrun : s.db.evaluationRuns.lookup runId = some run)
    (hbase : run.baseline.1.isSome = true) :
    BaselineResolved env p supply s runId run ↔
      (SelfCompared s.db runId run → SameAsBaseline env s.db runId run) := by
  rw [← baselineOf_iff hrun hbase]
  have hresolve : evalAlone env p supply (resolveBaselineMetrics runId run) s =
      (.ok (baselineMetrics env s.db runId run), s) := resolveBaselineMetrics_alone runId run
  constructor
  · intro h
    obtain ⟨metrics, heval, hmetrics⟩ := h.resolves
    rw [hresolve] at heval
    cases heval
    exact hmetrics
  · intro h
    refine ⟨⟨_, hresolve, h⟩, ?_, ?_⟩
    · rw [resolveBaselineStrictly_alone hbase, hresolve]
      cases baselineMetrics env s.db runId run with
      | none => exact iff_of_true rfl rfl
      | some metrics =>
          refine iff_of_false (fun h => ?_) fun h => ?_
          · cases h
          · cases h
    · intro comparison s' hdeltas
      rw [hresolve, (comparison_of_deltas hdeltas).2]

/-! ### Two candidates -/

/-- A completed run with a baseline version, created after `accurateRun`. -/
def laterRun (model : ℕ) (baseline : NullableVersionRef) : EvaluationRun :=
  { accurateRun with model := (model, 1), baseline, createdAt := 1 }

/-- The later run, which has answered every example, and one of the version `(1, 1)` that has answered
half of them. -/
def comparedDb (candidate : EvaluationRun) : Db :=
  { Db.initial with
    evaluationRuns := AList.insert 1 candidate (AList.insert 2 accurateRun ∅)
    evaluationMetrics := AList.insert (1, "exact_match", "all") ⟨.num 1, 1, 1⟩
      (AList.insert (2, "exact_match", "all") ⟨.num (1 / 2), 1, 1⟩ ∅) }

/-- A new evaluation of the baseline version is compared with itself, and not with the older run. -/
theorem new_evaluation_compared_with_itself :
    ¬ BaselineResolved .standard 0 (fun _ _ => {}) { db := comparedDb (laterRun 1 (some 1, some 1)) }
      1 (laterRun 1 (some 1, some 1)) := by
  intro h
  obtain ⟨metrics, heval, hmetrics⟩ := h.resolves
  rw [resolveBaselineMetrics_alone] at heval
  cases heval
  have hself : baselineMetrics .standard (comparedDb (laterRun 1 (some 1, some 1))) 1
      (laterRun 1 (some 1, some 1)) = some [("exact_match", .finite 1)] := by
    decide +kernel
  rw [hself] at hmetrics
  obtain ⟨b, base, hb, hsame⟩ := hmetrics
  have hstored := hb.stored
  change (AList.insert 1 (laterRun 1 (some 1, some 1)) (AList.insert 2 accurateRun ∅) :
    Table RunId EvaluationRun).lookup b = some base at hstored
  by_cases hid : b = 2
  · rw [hid] at hsame
    revert hsame
    decide +kernel
  · rw [AList.lookup_insert_ne hb.other, AList.lookup_insert_ne hid] at hstored
    cases hstored

/-- A run of another version is compared with the run of the baseline version. -/
theorem other_version_compared :
    BaselineResolved .standard 0 (fun _ _ => {}) { db := comparedDb (laterRun 3 (some 1, some 1)) }
      1 (laterRun 3 (some 1, some 1)) :=
  (baseline_resolved_iff rfl rfl).mpr fun h => absurd h.version (by decide)

end PosttrainPlatform
