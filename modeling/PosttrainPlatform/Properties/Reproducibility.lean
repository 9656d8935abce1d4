import PosttrainPlatform.Properties.BaselineChoice
import PosttrainPlatform.Properties.EvaluationRuns

/-!
# Whether a verdict can be reproduced

A verdict is computed from the metrics of the run, the rules of the gate, and the metrics of whatever
run `resolve_baseline_metrics` chooses at that moment.  The choice is not recorded.  `Op.Disturbs` lists
the statements that can move it, or add to metrics that a verdict rests on; without them every recorded
verdict is found again (`verdicts_reproducible`).
-/

namespace PosttrainPlatform

open Programs Service QualityGateEngine

namespace Past

/-- No gate is known whose rules ask for no difference to the baseline. -/
def MayCompare (h : Past) : Prop :=
  ∀ gate rules, h.Answered (.getQualityGate gate) (some rules) → ComparesBaseline rules

/-- The verdict may rest on the metrics of the run, once they have been read. -/
def RestsOn (h : Past) (runId : RunId) : Prop := (∃ run, h.Loaded runId run) ∨ h.MayCompare

theorem MayCompare.anti {h h' : Past} (hh : h'.MayCompare) (hsub : h ⊆ h') : h.MayCompare :=
  fun gate rules hrules => hh gate rules (hrules.mono hsub)

end Past

/-- **The statements that can change a verdict**: the status of a run that an evaluation may compare
with moves to SUCCEEDED or away from it, while no such run was created later; or a metric is added to
those that an evaluation has read. -/
def Op.Disturbs (env : Env) (db : Db) (h : Pasts) : Op → Prop
  | .markRunStatus b j w k status _ => db.Owns j w k ∧ ∃ base,
      db.evaluationRuns.lookup b = some base ∧ (base.status = .succeeded ∨ status = .succeeded) ∧
        ∃ p runId run, Past.Loaded (h p) runId run ∧ Past.MayCompare (h p) ∧
          rivals db run base = true ∧ ¬ Outdated db run base
  | .recordEvaluationMetric j w b k metricName _ split _ => db.Owns j w k ∧
      (∃ name, env.textColumn metricName = some name ∧
        db.evaluationMetrics.lookup (b, name, "all") = none) ∧
      env.textColumn split = some "all" ∧
      ∃ p metrics, (h p).Answered (.metricMap b) metrics ∧ Past.RestsOn (h p) b
  | _ => False

/-! ### What a statement changes -/

section Changes

variable {env : Env} {db db' : Db} {i : Input} {op : Op}

/-- The runs after a statement. -/
theorem RecordStep.runs_cases (hstep : RecordStep env db i op db'.records) :
    db'.evaluationRuns = db.evaluationRuns ∨
      (∃ b row, op = .createEvaluationRun row ∧ db.evaluationRuns.lookup b = none ∧
        db'.evaluationRuns = db.evaluationRuns.insert b { row with createdAt := i.now }) ∨
      ∃ b j w k status setCompleted base completedAt,
        op = .markRunStatus b j w k status setCompleted ∧ db.Owns j w k ∧
          db.evaluationRuns.lookup b = some base ∧
          db'.evaluationRuns = db.evaluationRuns.insert b { base with status, completedAt } := by
  generalize hc : db'.records = c at hstep
  have hruns : db'.evaluationRuns = c.evaluationRuns := congrArg Records.evaluationRuns hc
  rw [hruns]
  cases hstep with
  | createEvaluationRun hfree => exact Or.inr (Or.inl ⟨_, _, rfl, hfree, rfl⟩)
  | markRunStatus howns hrow =>
      exact Or.inr (Or.inr ⟨_, _, _, _, _, _, _, _, rfl, howns, hrow, rfl⟩)
  | _ => exact Or.inl rfl

/-- The metrics after a statement. -/
theorem RecordStep.metrics_cases (hstep : RecordStep env db i op db'.records) :
    db'.evaluationMetrics = db.evaluationMetrics ∨
      ∃ j w b k metricName value split count name part row,
        op = .recordEvaluationMetric j w b k metricName value split count ∧ db.Owns j w k ∧
          env.textColumn metricName = some name ∧ env.textColumn split = some part ∧
          db.evaluationMetrics.lookup (b, name, part) = none ∧
          db'.evaluationMetrics = db.evaluationMetrics.insert (b, name, part) row := by
  generalize hc : db'.records = c at hstep
  have hmetrics : db'.evaluationMetrics = c.evaluationMetrics :=
    congrArg Records.evaluationMetrics hc
  rw [hmetrics]
  cases hstep with
  | recordEvaluationMetric howns hname hpart hcount hfree =>
      exact Or.inr ⟨_, _, _, _, _, _, _, _, _, _, _, rfl, howns, hname, hpart, hfree, rfl⟩
  | _ => exact Or.inl rfl

/-- The verdicts after a statement. -/
theorem RecordStep.verdicts_cases (hstep : RecordStep env db i op db'.records) {key : RunId × ℕ}
    {result : QualityGateResult} (hresult : db'.qualityGateResults.lookup key = some result) :
    db.qualityGateResults.lookup key = some result ∨
      op = .recordGateResult key.1 key.2 result.status result.ruleResults := by
  generalize hc : db'.records = c at hstep
  have hresults : db'.qualityGateResults = c.qualityGateResults :=
    congrArg Records.qualityGateResults hc
  rw [hresults] at hresult
  cases hstep with
  | recordGateResult hrow hs hfree =>
      obtain ⟨rfl, rfl⟩ | hold := lookup_insert_cases hresult
      · exact Or.inr rfl
      · exact Or.inl hold
  | _ => exact Or.inl hresult

/-- A metric of another run, or of another split, is not in the metric map. -/
theorem metricMap_insert {b b' : RunId} {name part : String} {row : EvaluationMetric}
    (hmetrics : db'.evaluationMetrics = db.evaluationMetrics.insert (b, name, part) row)
    (hfree : db.evaluationMetrics.lookup (b, name, part) = none) (hother : ¬ (b = b' ∧ part = "all")) :
    EvaluationMetricsRepo.metricMap env db' b' = EvaluationMetricsRepo.metricMap env db b' := by
  unfold EvaluationMetricsRepo.metricMap
  rw [hmetrics, Table.filter_rows_insert (decide_eq_false hother)]
  intro row' hrow'
  rw [hfree] at hrow'
  cases hrow'

end Changes

/-! ### What verdicts rest on -/

/-- **What the evaluations have found is found again.** -/
structure Steady (env : Env) (h : Pasts) (db db' : Db) : Prop where
  configs : db'.evaluationConfigs = db.evaluationConfigs
  chosen : ∀ p runId x, Past.Loaded (h p) runId x → Past.MayCompare (h p) →
    topRun db' x = topRun db x
  standing : ∀ p runId x run run', Past.Loaded (h p) runId x → Past.MayCompare (h p) →
    x.SameInputs run → run.SameInputs run' → db.evaluationRuns.lookup runId = some run →
      db'.evaluationRuns.lookup runId = some run' → Standing db run → Standing db' run'
  metrics : ∀ p b m, (h p).Answered (.metricMap b) m → Past.RestsOn (h p) b →
    EvaluationMetricsRepo.metricMap env db' b = EvaluationMetricsRepo.metricMap env db b

section Steady

variable {env : Env} {h : Pasts} {db db' : Db} {i : Input} {op : Op} {p : ℕ}

theorem topRun_of_same {x : EvaluationRun} (hruns : db'.evaluationRuns = db.evaluationRuns)
    (hconfigs : db'.evaluationConfigs = db.evaluationConfigs) : topRun db' x = topRun db x := by
  unfold topRun
  rw [qualifies_congr hconfigs (.refl x), hruns]

theorem standing_of_same {run : EvaluationRun} (hruns : db'.evaluationRuns = db.evaluationRuns)
    (hconfigs : db'.evaluationConfigs = db.evaluationConfigs) (hs : Standing db run) :
    Standing db' run := by
  unfold Standing Outdated
  rw [rivals_congr hconfigs (.refl run), qualifies_congr hconfigs (.refl run), hruns]
  exact hs

/-- A change elsewhere. -/
theorem Steady.of_records (hrecords : db'.records = db.records) : Steady env h db db' := by
  have hruns : db'.evaluationRuns = db.evaluationRuns := congrArg Records.evaluationRuns hrecords
  have hconfigs : db'.evaluationConfigs = db.evaluationConfigs :=
    congrArg Records.evaluationConfigs hrecords
  refine ⟨hconfigs, fun _ _ _ _ _ => topRun_of_same hruns hconfigs, ?_, fun _ b _ _ _ => ?_⟩
  · intro p runId x run run' _ _ _ _ hrun hrun' hs
    rw [hruns, hrun] at hrun'
    cases hrun'
    exact standing_of_same hruns hconfigs hs
  · unfold EvaluationMetricsRepo.metricMap
    rw [show db'.evaluationMetrics = db.evaluationMetrics from
      congrArg Records.evaluationMetrics hrecords]

/-- The change of a row that no evaluation may choose. -/
theorem Steady.of_insert {b : RunId} {row : EvaluationRun}
    (hruns : db'.evaluationRuns = db.evaluationRuns.insert b row)
    (hconfigs : db'.evaluationConfigs = db.evaluationConfigs)
    (hmetrics : ∀ p b m, (h p).Answered (.metricMap b) m → Past.RestsOn (h p) b →
      EvaluationMetricsRepo.metricMap env db' b = EvaluationMetricsRepo.metricMap env db b)
    (hcreated : ∀ base, db.evaluationRuns.lookup b = some base → base.createdAt = row.createdAt)
    (hold : ∀ p runId x, Past.Loaded (h p) runId x → Past.MayCompare (h p) →
      ∀ base, db.evaluationRuns.lookup b = some base → qualifies db x (b, base) = true →
        Outdated db x base)
    (hnew : ∀ p runId x, Past.Loaded (h p) runId x → Past.MayCompare (h p) →
      qualifies db x (b, row) = true → Outdated db x row) : Steady env h db db' := by
  refine ⟨hconfigs, fun p runId x hx hmay => ?_, ?_, hmetrics⟩
  · exact topRun_insert hruns hconfigs hcreated (hold p runId x hx hmay) (hnew p runId x hx hmay)
  · intro p runId x run run' hx hmay hsame hsame' hrun hrun' hs
    refine hs.insert hruns hconfigs hcreated (fun base hbase hqualifies => ?_) hrun hrun' hsame'
    rw [← qualifies_congr rfl hsame] at hqualifies
    exact (hold p runId x hx hmay base hbase hqualifies).congr hsame rfl

/-- **A statement that disturbs nothing leaves everything as it was found.** -/
theorem steady_of_not_disturbs (hop : Past.Justifies env (h p) op)
    (hstep : RecordStep env db i op db'.records) (hno : ¬ op.Disturbs env db h) :
    Steady env h db db' := by
  have hconfigs : db'.evaluationConfigs = db.evaluationConfigs := hstep.grows.evaluationConfigs
  have hmetrics : ∀ q b m, (h q).Answered (.metricMap b) m → Past.RestsOn (h q) b →
      EvaluationMetricsRepo.metricMap env db' b = EvaluationMetricsRepo.metricMap env db b := by
    intro q b m hm hrests
    obtain hsame | ⟨j, w, b', k, metricName, value, split, count, name, part, row, rfl, howns, hname,
      hpart, hfree, hinsert⟩ := hstep.metrics_cases
    · unfold EvaluationMetricsRepo.metricMap
      rw [hsame]
    · refine metricMap_insert hinsert hfree ?_
      rintro ⟨rfl, rfl⟩
      exact hno ⟨howns, ⟨name, hname, hfree⟩, hpart, q, m, hm, hrests⟩
  obtain hsame | ⟨b, row, rfl, hfree, hinsert⟩ | ⟨b, j, w, k, status, setCompleted, base, completedAt,
    rfl, howns, hbase, hinsert⟩ := hstep.runs_cases
  · refine ⟨hconfigs, fun _ _ _ _ _ => topRun_of_same hsame hconfigs, ?_, hmetrics⟩
    intro q runId x run run' _ _ _ _ hrun hrun' hs
    rw [hsame, hrun] at hrun'
    cases hrun'
    exact standing_of_same hsame hconfigs hs
  · -- a new run is QUEUED
    have hqueued : row.status = .queued := hop.1
    have hnone : ∀ base, db.evaluationRuns.lookup b ≠ some base := by
      intro base hbase
      rw [hfree] at hbase
      cases hbase
    refine .of_insert hinsert hconfigs hmetrics (fun base hbase => absurd hbase (hnone base))
      (fun _ _ _ _ _ base hbase => absurd hbase (hnone base)) fun _ _ x _ _ hqualifies => ?_
    simp [qualifies, hqueued] at hqualifies
  · have houtdated : ∀ q runId x, Past.Loaded (h q) runId x → Past.MayCompare (h q) →
        (base.status = .succeeded ∨ status = .succeeded) → rivals db x base = true →
          Outdated db x base := by
      intro q runId x hx hmay hstatus hrivals
      by_contra hlatest
      exact hno ⟨howns, base, hbase, hstatus, q, runId, x, hx, hmay, hrivals, hlatest⟩
    refine .of_insert hinsert hconfigs hmetrics (fun base' hbase' => ?_)
      (fun q runId x hx hmay base' hbase' hqualifies => ?_) fun q runId x hx hmay hqualifies => ?_
    · rw [hbase] at hbase'
      cases hbase'
      rfl
    · rw [hbase] at hbase'
      cases hbase'
      simp only [qualifies, Bool.and_eq_true, decide_eq_true_eq] at hqualifies
      exact houtdated q runId x hx hmay (Or.inl hqualifies.1) hqualifies.2
    · simp only [qualifies, Bool.and_eq_true, decide_eq_true_eq] at hqualifies
      exact houtdated q runId x hx hmay (Or.inr hqualifies.1) hqualifies.2

end Steady

/-! ### The invariant -/

/-- **What the evaluations have read is what the database would answer now.** -/
structure FoundAgain (env : Env) (db : Db) (h : Pasts) : Prop where
  standing : ∀ p runId x run, Past.Loaded (h p) runId x → Past.MayCompare (h p) →
    db.evaluationRuns.lookup runId = some run → Standing db run
  listed : ∀ p runId x listed, Past.Loaded (h p) runId x →
    (h p).Answered (.listForModelVersion x.baseline) listed → Past.MayCompare (h p) →
      ((seenRuns runId x listed).find? fun b => comparable db x b.2).map Prod.fst =
        (topRun db x).map Prod.fst
  measured : ∀ p b m, (h p).Answered (.metricMap b) m → Past.RestsOn (h p) b →
    m = EvaluationMetricsRepo.metricMap env db b

/-- Every verdict was decided by what its evaluation has read, which is found again. -/
structure Reproducible (env : Env) (s : World) (h : Pasts) : Prop where
  found : FoundAgain env s.db h
  verdicts : ∀ runId gate result, s.db.qualityGateResults.lookup (runId, gate) = some result →
    ∃ p, Past.Decides (h p) runId gate (result.status, result.ruleResults)

section Invariant

variable {env : Env} {s s' : World} {h h' : Pasts} {p : ℕ} {op : Op}

/-- The stored row of a run that was loaded. -/
theorem Knows.loaded (hk : Knows env s h) {runId : RunId} {x : EvaluationRun}
    (hx : Past.Loaded (h p) runId x) :
    ∃ run, s.db.evaluationRuns.lookup runId = some run ∧ x.SameInputs run :=
  hk.told p _ _ hx.1 x rfl

theorem Past.RestsOn.anti {m m' : Past} {b : RunId} (hrests : m'.RestsOn b) (hsub : m ⊆ m')
    (hloaded : ∀ run, m'.Loaded b run → m.Loaded b run) : m.RestsOn b := by
  obtain ⟨run, hrun⟩ | hmay := hrests
  · exact Or.inl ⟨run, hloaded run hrun⟩
  · exact Or.inr (hmay.anti hsub)

/-- **What is found again is so after a steady change.** -/
theorem FoundAgain.steady (hf : FoundAgain env s.db h) (hk : Knows env s h)
    (hsteady : Steady env h s.db s'.db) (hgrow : s.db.records.Grows s'.db.records) :
    FoundAgain env s'.db h := by
  refine ⟨fun q runId x run' hx hmay hrun' => ?_, fun q runId x listed hx hlisted hmay => ?_,
    fun q b m hm hrests => ?_⟩
  · obtain ⟨run, hrun, hsame⟩ := hk.loaded hx
    obtain ⟨run₁, hrun₁, hsame'⟩ := hgrow.evaluationRuns runId run hrun
    obtain rfl : run₁ = run' := Option.some.inj (hrun₁.symm.trans hrun')
    exact hsteady.standing q runId x run run₁ hx hmay hsame hsame' hrun hrun'
      (hf.standing q runId x run hx hmay hrun)
  · rw [hsteady.chosen q runId x hx hmay, comparable_congr hsteady.configs (.refl x)]
    exact hf.listed q runId x listed hx hlisted hmay
  · rw [hsteady.metrics q b m hm hrests]
    exact hf.measured q b m hm hrests

/-- A change that adds no answer, and no verdict. -/
theorem Reproducible.frame (hr : Reproducible env s h) (hk : Knows env s h)
    (hrecords : s'.db.records = s.db.records) (hsub : ∀ q, h q ⊆ h' q)
    (hold : ∀ q op a, (h' q).Answered op a → (h q).Answered op a) : Reproducible env s' h' := by
  have hf : FoundAgain env s'.db h :=
    hr.found.steady hk (.of_records hrecords) (hrecords ▸ .refl _)
  have hloaded : ∀ q runId x, Past.Loaded (h' q) runId x → Past.Loaded (h q) runId x :=
    fun q runId x hx => ⟨hold q _ _ hx.1, hx.2⟩
  refine ⟨⟨fun q runId x run hx hmay hrun => ?_, fun q runId x listed hx hl hmay => ?_,
    fun q b m hm hrests => ?_⟩, fun runId gate result hresult => ?_⟩
  · exact hf.standing q runId x run (hloaded q _ _ hx) (hmay.anti (hsub q)) hrun
  · exact hf.listed q runId x listed (hloaded q _ _ hx) (hold q _ _ hl) (hmay.anti (hsub q))
  · exact hf.measured q b m (hold q _ _ hm) (hrests.anti (hsub q) (hloaded q b))
  · rw [show s'.db.qualityGateResults = s.db.qualityGateResults from
      congrArg Records.qualityGateResults hrecords] at hresult
    obtain ⟨q, hdecides⟩ := hr.verdicts runId gate result hresult
    exact ⟨q, hdecides.mono (hsub q)⟩

/-- A run that is loaded is the stored one, and it is loaded before all other reads. -/
theorem loaded_add {i : Input} (hgate : Past.JustifiesGate (h p) op) {q : ℕ} {runId : RunId}
    {x : EvaluationRun} (hx : Past.Loaded (h.add p ⟨op, (op.perform env p i s).2⟩ q) runId x) :
    Past.Loaded (h q) runId x ∨ (h q = [] ∧ op = .getEvaluationRun runId ∧
      s.db.evaluationRuns.lookup runId = some x) := by
  obtain ⟨hanswer, hs⟩ := hx
  obtain ⟨rfl, heq⟩ | hanswer := Histories.answered_add hanswer
  · obtain ⟨rfl, heq⟩ := Sigma.mk.inj heq
    exact Or.inr ⟨hgate, rfl, (Except.ok.inj (eq_of_heq heq)).symm⟩
  · exact Or.inl ⟨hanswer, hs⟩

/-- **Every statement that disturbs nothing keeps what is found again.** -/
theorem FoundAgain.perform (hf : FoundAgain env s.db h) (hk : Knows env s h) (i : Input)
    (hop : Past.Justifies env (h p) op) (hgate : Past.JustifiesGate (h p) op)
    (hno : ¬ op.Disturbs env s.db h) :
    FoundAgain env (op.perform env p i s).1.db (h.add p ⟨op, (op.perform env p i s).2⟩) := by
  have hstep := perform_records env p i s op
  have hsub : ∀ q, h q ⊆ h.add p ⟨op, (op.perform env p i s).2⟩ q :=
    fun q => Histories.subset_add h p q _
  have hkept : FoundAgain env (op.perform env p i s).1.db h :=
    hf.steady hk (steady_of_not_disturbs hop hstep hno) hstep.grows
  refine ⟨fun q runId x run hx hmay hrun => ?_, fun q runId x listed hx hl hmay => ?_,
    fun q b m hm hrests => ?_⟩
  · obtain hx' | ⟨_, rfl, hstored⟩ := loaded_add hgate hx
    · exact hkept.standing q runId x run hx' (hmay.anti (hsub q)) hrun
    · -- it was loaded as completed
      obtain rfl : x = run := Option.some.inj (hstored.symm.trans hrun)
      exact Or.inl hx.2
  · obtain ⟨rfl, heq⟩ | hl' := Histories.answered_add hl
    · obtain ⟨rfl, heq⟩ := Sigma.mk.inj heq
      obtain rfl := Except.ok.inj (eq_of_heq heq)
      obtain hx' | ⟨_, hload, _⟩ := loaded_add hgate hx
      · obtain ⟨run, hrun, hsame⟩ := hk.loaded hx'
        show ((seenRuns runId x (EvaluationRunsRepo.listForModelVersion s.db x.baseline)).find?
          fun b => comparable s.db x b.2).map Prod.fst = (topRun s.db x).map Prod.fst
        rw [find_seenRuns hrun hsame hx'.2, topRun_congr hsame,
          find_seesAs hrun (hf.standing q runId x run hx' (hmay.anti (hsub q)) hrun)]
      · cases hload
    · obtain hx' | ⟨hempty, _, _⟩ := loaded_add hgate hx
      · exact hkept.listed q runId x listed hx' hl' (hmay.anti (hsub q))
      · rw [hempty] at hl'
        cases hl'
  · obtain ⟨rfl, heq⟩ | hm' := Histories.answered_add hm
    · obtain ⟨rfl, heq⟩ := Sigma.mk.inj heq
      exact Except.ok.inj (eq_of_heq heq)
    · refine hkept.measured q b m hm' (hrests.anti (hsub q) fun run hrun => ?_)
      obtain hrun | ⟨hempty, _, _⟩ := loaded_add hgate hrun
      · exact hrun
      · rw [hempty] at hm'
        cases hm'

theorem Reproducible.perform (hr : Reproducible env s h) (hk : Knows env s h) (i : Input)
    (hop : Past.Justifies env (h p) op) (hgate : Past.JustifiesGate (h p) op)
    (hno : ¬ op.Disturbs env s.db h) :
    Reproducible env (op.perform env p i s).1 (h.add p ⟨op, (op.perform env p i s).2⟩) := by
  have hsub : ∀ q, h q ⊆ h.add p ⟨op, (op.perform env p i s).2⟩ q :=
    fun q => Histories.subset_add h p q _
  refine ⟨hr.found.perform hk i hop hgate hno, fun runId gate result hresult => ?_⟩
  obtain hold | rfl := (perform_records env p i s op).verdicts_cases hresult
  · obtain ⟨q, hdecides⟩ := hr.verdicts runId gate result hold
    exact ⟨q, hdecides.mono (hsub q)⟩
  · exact ⟨p, Past.Decides.mono (hsub p) hgate⟩

theorem reproducible_invariant (env : Env) :
    GuardedInvariant (M := platform env)
      (fun m op => Past.Disciplined env m op ∧ Past.JustifiesGate m op) (Reproducible env)
      (Knows env) fun h op _ s => ¬ op.Disturbs env s.db h where
  perform _ i _ _ _ _ hk hr hop hno := hr.perform hk i hop.1.2 hop.2 hno
  fault p _ _ _ h hk hr _ := hr.frame hk rfl (fun q => Histories.subset_add h p q _)
    fun _ _ _ ha => Histories.answered_of_fault ha
  halt _ _ _ hk hr := hr.frame hk rfl (fun _ _ hd => hd) fun _ _ _ ha => ha
  ambient a s h hk hr := by
    refine hr.frame hk ?_ (fun _ _ hd => hd) fun _ _ _ ha => ha
    show (s.beat env a.1 a.2).db.records = s.db.records
    rw [beat_frame]
    rfl

end Invariant

/-! ### Verdicts -/

/-- **The verdict is computed once more**, from what is stored now. -/
def Recomputes (env : Env) (s : World) (runId : RunId) (gate : ℕ) (answer : GateStatus × List Json) :
    Prop :=
  ∃ run rules baselineMetrics, s.db.evaluationRuns.lookup runId = some run ∧
    s.db.qualityGates.lookup gate = some rules ∧
    (∀ p supply, evalAlone env p supply (resolveBaselineMetrics runId run) s =
      (.ok baselineMetrics, s)) ∧
    evaluate rules (EvaluationMetricsRepo.metricMap env s.db runId) baselineMetrics = .ok answer

/-- It comes to what the engine answers. -/
theorem recomputes_iff {env : Env} {s : World} {runId : RunId} {gate : ℕ}
    {answer : GateStatus × List Json} : Recomputes env s runId gate answer ↔
      ∃ run rules, s.db.evaluationRuns.lookup runId = some run ∧
        s.db.qualityGates.lookup gate = some rules ∧
        engineAnswer env s.db runId run rules = .ok answer := by
  constructor
  · rintro ⟨run, rules, baseline, hrun, hgate, hresolve, hanswer⟩
    have heq := (hresolve 0 fun _ _ => {}).symm.trans (resolveBaselineMetrics_alone runId run)
    obtain rfl := Except.ok.inj (congrArg Prod.fst heq)
    exact ⟨run, rules, hrun, hgate, hanswer⟩
  · rintro ⟨run, rules, hrun, hgate, hanswer⟩
    exact ⟨run, rules, _, hrun, hgate, fun _ _ => resolveBaselineMetrics_alone runId run, hanswer⟩

/-- No statement of the run disturbs a verdict. -/
def LeavesVerdicts (env : Env) (s : World) (es : List (SysEvent env)) : Prop :=
  ∀ fs m p i, fs ++ [.step p i] <+: es → Reaches s fs m → ∀ call op k, m.AtOp p call op k →
    ¬ op.Disturbs env m.shared.db (pasts env s fs)

section Runs

variable {env : Env} {s : World} {h : Pasts} {es fs : List (SysEvent env)} {c m : System env}

/-- The baseline that an evaluation has found is the one of its run. -/
theorem FoundAgain.baseline (hf : FoundAgain env s.db h) (hk : Knows env s h) {p : ℕ} {runId : RunId}
    {x run : EvaluationRun} {baseline : Option Metrics} (hx : Past.Loaded (h p) runId x)
    (hmay : Past.MayCompare (h p)) (hresolves : Past.Resolves (h p) runId x baseline)
    (hrun : s.db.evaluationRuns.lookup runId = some run) (hsame : x.SameInputs run) :
    baseline = baselineMetrics env s.db runId run := by
  have hversion : x.baseline = run.baseline := hsame.2.2.2.2.1.symm
  unfold baselineMetrics
  obtain ⟨hnone, rfl⟩ | ⟨hsome, listed, hlisted, hfinds⟩ := hresolves
  · rw [hversion] at hnone
    rw [baselineRun, if_pos hnone]
    rfl
  · rw [hversion] at hsome
    rw [baselineRun_eq_topRun hrun (by rw [← Option.not_isNone, hsome]; rfl), ← topRun_congr hsame]
    have hrel := hfinds s.db fun c config? hc => hk.told p _ _ hc
    have hkeys := hf.listed p runId x listed hx hlisted hmay
    revert hrel hkeys
    generalize (seenRuns runId x listed).find? _ = first
    intro hrel hkeys
    cases hrel with
    | none =>
        cases htop : topRun s.db x with
        | none => rfl
        | some r =>
            rw [htop] at hkeys
            cases hkeys
    | @some r metrics hread =>
        cases htop : topRun s.db x with
        | none =>
            rw [htop] at hkeys
            cases hkeys
        | some r' =>
            rw [htop] at hkeys
            rw [hf.measured p r.1 metrics hread (Or.inr hmay), Option.some.inj hkeys]
            rfl

/-- **Every verdict is computed again.** -/
theorem Reproducible.recomputes (hr : Reproducible env s h) (hk : Knows env s h)
    (horder : ∀ p, History.Orderly Past.JustifiesGate (h p)) {runId : RunId} {gate : ℕ}
    {result : QualityGateResult}
    (hresult : s.db.qualityGateResults.lookup (runId, gate) = some result) :
    Recomputes env s runId gate (result.status, result.ruleResults) := by
  obtain ⟨p, x, rules, metrics, baseline, hx, hrules, hmetrics, hresolves, hanswer⟩ :=
    hr.verdicts runId gate result hresult
  obtain ⟨run, hrun, hsame⟩ := hk.loaded hx
  have hgate : s.db.qualityGates.lookup gate = some rules := hk.told p _ _ hrules
  refine recomputes_iff.mpr ⟨run, rules, hrun, hgate, ?_⟩
  unfold engineAnswer
  rw [← hr.found.measured p runId metrics hmetrics (Or.inl ⟨x, hx⟩), ← hanswer]
  by_cases hcompares : ComparesBaseline rules
  · -- the evaluation knows of no other gate
    have hmay : Past.MayCompare (h p) := by
      intro gate' rules' hrules'
      obtain ⟨_, heq⟩ := Past.gate_unique (horder p) hrules hrules'
      cases heq
      exact hcompares
    rw [hr.found.baseline hk hx hmay hresolves hrun hsame]
  · exact evaluate_of_not_compares hcompares

/-- What the calls keep, gates included. -/
theorem gateDisciplined_program (env : Env) (call : Call) :
    (call.program env).Justified (fun m op => Past.Disciplined env m op ∧ Past.JustifiesGate m op) []
      fun _ _ => True :=
  ((disciplined_program env call).and (justifiesGate_program env call)).mono fun _ _ _ => trivial

theorem reproducible_of_reaches (h : Reaches s es c) (hquiet : LeavesVerdicts env s es) :
    Reproducible env c.shared (pasts env s es) := by
  refine (reproducible_invariant env).run (gateDisciplined_program env) ?_
    (fun fs m _ hm => knows_of_reaches ⟨h.1, hm⟩)
    (fun fs m p i hfs hm call op k hat => hquiet fs m p i hfs ⟨h.1, hm⟩ call op k hat) h.2
  refine ⟨⟨fun _ _ _ _ hx => ?_, fun _ _ _ _ hx => ?_, fun _ _ _ hm => ?_⟩,
    fun runId gate result hresult => ?_⟩
  · cases hx.1
  · cases hx.1
  · cases hm
  · rw [h.1.db] at hresult
    cases hresult

theorem qualityGates_of_reaches (h : Reaches s es c) :
    c.shared.db.qualityGates = s.db.qualityGates :=
  kept_of_reaches (P := fun s' => s'.db.qualityGates = s.db.qualityGates)
    (fun _ _ hgrow hs => hgrow.records.qualityGates.trans hs) h List.nil_prefix rfl rfl

/-- **Where no statement disturbs a verdict, every recorded verdict is computed again in every later
state.** -/
theorem verdicts_reproducible (h : Reaches s es c) (hquiet : LeavesVerdicts env s es) (hfs : fs <+: es)
    (hm : Reaches s fs m) {runId : RunId} {gate : ℕ} {result : QualityGateResult}
    (hresult : m.shared.db.qualityGateResults.lookup (runId, gate) = some result) :
    Recomputes env c.shared runId gate (result.status, result.ruleResults) := by
  have hlater : c.shared.db.qualityGateResults.lookup (runId, gate) = some result :=
    kept_of_reaches (P := fun s => s.db.qualityGateResults.lookup (runId, gate) = some result)
      (fun _ _ hgrow hr => hgrow.records.qualityGateResults _ _ hr) h hfs hm.2 hresult
  refine (reproducible_of_reaches h hquiet).recomputes (knows_of_reaches h) (fun p => ?_) hlater
  have hdisciplined := disciplined_of_run (gateDisciplined_program env) h.2
  exact (hdisciplined.orderly p).mono fun _ _ hop => hop.2

/-! ### Quiet runs -/

/-- The statement sets no status of a run and records no metric of one. -/
def Op.isQuiet : Op → Bool
  | .markRunStatus .. | .recordEvaluationMetric .. => false
  | _ => true

/-- The event begins no evaluation of a gate. -/
def NoGate {env : Env} : System env → SysEvent env → Prop :=
  Config.Begins fun call : Call => call.duty ≠ .gate

instance {env : Env} (c : System env) : (e : SysEvent env) → Decidable (NoGate c e)
  | .start _ call => inferInstanceAs (Decidable (Call.duty call ≠ .gate))
  | .step .. | .fault .. | .crash _ | .ambient _ => isTrue trivial

/-- **No verdict is disturbed** if the evaluations of gates begin after the last attempt. -/
theorem leavesVerdicts_of_quiet {before after : List (SysEvent env)} {m : System env}
    (hm : Reaches s before m)
    (hbefore : Runs.Always Config.step NoGate ({ shared := s } : System env) before)
    (hafter : Runs.Always Config.step (Config.AtStep fun op _ _ => op.isQuiet = true) m after) :
    LeavesVerdicts env s (before ++ after) := by
  intro fs m' p i hfs hm' call op k hat hdisturbs
  have hprefix : fs <+: before ++ after := (List.prefix_append _ _).trans hfs
  obtain hle | hle := le_total fs.length before.length
  · -- no gate has been evaluated
    obtain ⟨gs, rfl⟩ := List.prefix_of_prefix_length_le hprefix (List.prefix_append _ _) hle
    have hduty : ∀ q, ∀ d ∈ pasts env s fs q, d.1.duty ≠ .gate := by
      intro q d hd
      refine executed_of_run (M := platform env) (ψ := fun call => call.duty ≠ .gate)
        (χ := fun op => op.duty ≠ .gate)
        (fun call hcall => Prog.all_mono (fun op hop => ?_) (inside_program env call))
        (Runs.always_append hm'.2 hbefore).1 hm'.2 hd
      obtain hany | hsame := hop.2
      · rw [hany]
        decide
      · rw [hsame]
        exact hcall
    cases op
    case markRunStatus =>
        obtain ⟨_, _, _, _, q, _, _, hx, _⟩ := hdisturbs
        exact hduty q _ hx.1 rfl
    case recordEvaluationMetric =>
        obtain ⟨_, _, _, q, _, hmetrics, _⟩ := hdisturbs
        exact hduty q _ hmetrics rfl
    all_goals exact hdisturbs
  · obtain ⟨gs, rfl⟩ := List.prefix_of_prefix_length_le (List.prefix_append _ _) hprefix hle
    rw [List.append_assoc, List.prefix_append_right_inj] at hfs
    obtain ⟨rest, rfl⟩ := hfs
    have hlast := Runs.runFrom_append.mp hm'.2
    obtain ⟨m₁, hm₁, hgs⟩ := hlast
    obtain rfl : m₁ = m := Option.some.inj (hm₁.symm.trans hm.2)
    rw [List.append_assoc] at hafter
    have hquiet := (Runs.always_append hgs hafter).2.1 call op k hat
    cases op <;> simp only [Op.isQuiet, Bool.false_eq_true] at hquiet
    all_goals exact hdisturbs

end Runs

/-! ### A baseline that is evaluated again -/

/-- `exact_match` is no worse than that of the baseline. -/
def noWorse : Dict :=
  [("all", .arr [.obj [("metric", .str "exact_match"), ("operator", .str ">="),
    ("baseline_delta", .num 0)]])]

/-- A platform with two versions of a model, and with the gate. -/
def deltaStart : World :=
  { evaluationStart with
    db := { evaluationStart.db with
      modelVersions := evaluationStart.db.modelVersions.insert (2, 1) { artifactId := 1 }
      qualityGates := AList.insert 1 noWorse ∅ } }

theorem deltaStart_initial : deltaStart.Initial where
  total d := World.fresh_initial.total d
  db := rfl
  rest := rfl

/-- A subprocess that reports one metric. -/
def scoreLines (score : ℚ) (now : Time) : Input where
  now := now
  lines := [.json (.obj [("event", .str "metric"), ("metric_name", .str "exact_match"),
    ("metric_value", .num score)]), .json (.obj [("event", .str "final")])]

/-- An evaluation is created in `n` statements at the time `now`, and comes to the score. -/
def scored (p : ℕ) (runId : RunId) (now : Time) (payload : EvaluationCreate) (n : ℕ) (score : ℚ) :
    List (SysEvent Env.standard) :=
  session p (.createEvaluation payload) n { uuid := runId, now } ++
    session (p + 1) .schedulerRunOnce 8 { now } ++
    session (p + 2) (.processJobMessage runId 7) 26 (scoreLines score now)

/-- The baseline version is evaluated, and then the candidate. -/
def candidateScored : List (SysEvent Env.standard) :=
  scored 0 1 0 evaluationPayload 6 (1 / 4) ++
    scored 3 2 1 { evaluationPayload with model := (2, 1), baseline := (some 1, some 1) } 7 (1 / 2)

/-- The gate of the candidate is evaluated. -/
def candidateGated : List (SysEvent Env.standard) :=
  session 6 (.evaluateQualityGate 2 1) 7 { now := 1 }

/-- The answer of the engine for the candidate. -/
def candidateStatus (s : World) : Option GateStatus := do
  let run ← s.db.evaluationRuns.lookup 2
  (engineAnswer .standard s.db 2 run noWorse).toOption.map Prod.fst

/-- A new evaluation of the baseline version is created. -/
def baselineCreated : List (SysEvent Env.standard) :=
  session 7 (.createEvaluation evaluationPayload) 6 { uuid := 3, now := 2 }

/-- The candidate passes, and so it does after the baseline was asked for again. -/
theorem candidate_passes_again : ∃ c : System .standard,
    Reaches deltaStart (candidateScored ++ (candidateGated ++ baselineCreated)) c ∧
      ∃ results, Recomputes .standard c.shared 2 1 (.pass, results) := by
  obtain ⟨m, hm, hquiet⟩ := exists_reaches deltaStart_initial candidateScored
    (P := fun m : System .standard => Runs.Always Config.step
      (Config.AtStep fun op _ _ => op.isQuiet = true) m (candidateGated ++ baselineCreated))
    (by decide +kernel)
  obtain ⟨g, hg, result, hresult, hpass⟩ := exists_reaches deltaStart_initial
    (candidateScored ++ candidateGated) (P := fun c : System .standard =>
      ∃ result ∈ c.shared.db.qualityGateResults.lookup (2, 1), result.status = .pass)
    (by decide +kernel)
  obtain ⟨c, hc, _⟩ := exists_reaches deltaStart_initial
    (candidateScored ++ (candidateGated ++ baselineCreated))
    (P := fun _ : System .standard => True) (by decide +kernel)
  have hagain := verdicts_reproducible hc (leavesVerdicts_of_quiet hm (by decide +kernel) hquiet)
    ⟨baselineCreated, List.append_assoc _ _ _⟩ hg hresult
  rw [hpass] at hagain
  exact ⟨c, hc, _, hagain⟩

/-- **The verdict changes with a newer evaluation of the baseline**: the candidate has passed, and
fails when the verdict is computed again. -/
theorem newer_baseline_changes_verdict :
    (∃ m : System .standard, Reaches deltaStart (candidateScored ++ candidateGated) m ∧
      ∃ result ∈ m.shared.db.qualityGateResults.lookup (2, 1), result.status = .pass) ∧
    ∃ c : System .standard,
      Reaches deltaStart (candidateScored ++ candidateGated ++ scored 7 3 2 evaluationPayload 6 1) c ∧
        ¬ ∃ results, Recomputes .standard c.shared 2 1 (.pass, results) := by
  refine ⟨exists_reaches deltaStart_initial _ (by decide +kernel), ?_⟩
  obtain ⟨c, hc, hstatus⟩ := exists_reaches deltaStart_initial
    (candidateScored ++ candidateGated ++ scored 7 3 2 evaluationPayload 6 1)
    (P := fun c : System .standard => candidateStatus c.shared = some .fail) (by decide +kernel)
  refine ⟨c, hc, fun hagain => ?_⟩
  obtain ⟨results, hagain⟩ := hagain
  obtain ⟨run, rules, hrun, hgate, hanswer⟩ := recomputes_iff.mp hagain
  rw [qualityGates_of_reaches hc] at hgate
  obtain rfl : noWorse = rules := Option.some.inj hgate
  simp only [candidateStatus, hrun, Option.bind_eq_bind, Option.bind_some, hanswer,
    Except.toOption, Option.map_some] at hstatus
  cases hstatus

end PosttrainPlatform
