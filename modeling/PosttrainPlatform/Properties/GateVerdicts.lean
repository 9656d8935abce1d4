import PosttrainPlatform.Properties.Alone
import PosttrainPlatform.Properties.GateEngine

/-!
# The verdict of `evaluate_quality_gate`

`baselineMetrics` is what `resolve_baseline_metrics` computes from one state, and
`evaluateQualityGate_alone` the outcome of an evaluation that runs alone: what the engine raises, or
what is recorded of its answer.
-/

namespace PosttrainPlatform

open Doubles Programs Service QualityGateEngine

/-! ### The baseline of a run -/

/-- `_config_compatible` in one state. -/
def configsAgree (db : Db) (candidateConfigId baselineConfigId : ℕ) : Bool :=
  candidateConfigId == baselineConfigId ||
    match db.evaluationConfigs.lookup candidateConfigId,
      db.evaluationConfigs.lookup baselineConfigId with
    | some cand, some base =>
        cand.taskType == base.taskType &&
          (Json.obj cand.metricDefinitions).pyEq (.obj base.metricDefinitions)
    | _, _ => false

/-- The run can be compared with a base run: the same dataset version, and compatible configs. -/
def comparable (db : Db) (run base : EvaluationRun) : Bool :=
  decide (base.dataset = run.dataset) &&
    configsAgree db run.evaluationConfigId base.evaluationConfigId

/-- The completed runs of the baseline version, the latest created first; the run itself is seen as it
was loaded. -/
def completedRuns (db : Db) (runId : RunId) (run : EvaluationRun) : List (RunId × EvaluationRun) :=
  ((EvaluationRunsRepo.listForModelVersion db run.baseline).map fun r =>
    if r.1 = runId then (runId, run) else r).filter fun r => r.2.status = .succeeded

/-- The run whose metrics are the baseline. -/
def baselineRun (db : Db) (runId : RunId) (run : EvaluationRun) : Option (RunId × EvaluationRun) :=
  if run.baseline.1.isNone then none
  else (completedRuns db runId run).find? fun r => comparable db run r.2

/-- `resolve_baseline_metrics` in one state. -/
def baselineMetrics (env : Env) (db : Db) (runId : RunId) (run : EvaluationRun) : Option Metrics :=
  (baselineRun db runId run).map fun r => EvaluationMetricsRepo.metricMap env db r.1

section Alone

variable {env : Env} {p : ℕ} {supply : Supply} {s : World}

theorem configCompatible_alone (c₁ c₂ : ℕ) :
    evalAlone env p supply (configCompatible c₁ c₂) s = (.ok (configsAgree s.db c₁ c₂), s) := by
  unfold configCompatible configsAgree
  by_cases h : c₁ = c₂
  · rw [if_pos h, h, beq_self_eq_true]
    rfl
  · rw [if_neg h, beq_eq_false_iff_ne.mpr h, Bool.false_or]
    refine (evalAlone_read rfl).trans ((evalAlone_read rfl).trans ?_)
    cases s.db.evaluationConfigs.lookup c₁ with
    | none => rfl
    | some cand => cases s.db.evaluationConfigs.lookup c₂ <;> rfl

/-- The loop stops at the first run that can be compared. -/
theorem firstComparable_alone (run : EvaluationRun) (completed : List (RunId × EvaluationRun)) :
    evalAlone env p supply (firstComparable run completed) s =
      (.ok ((completed.find? fun r => comparable s.db run r.2).map fun r =>
        EvaluationMetricsRepo.metricMap env s.db r.1), s) := by
  induction completed with
  | nil => rfl
  | cons r rest ih =>
      obtain ⟨baseId, base⟩ := r
      show evalAlone env p supply
        (configCompatible run.evaluationConfigId base.evaluationConfigId >>= _) s = _
      rw [evalAlone, Prog.eval_bind_ok (configCompatible_alone _ _)]
      have hcomparable : comparable s.db run base = (decide (base.dataset = run.dataset) &&
        configsAgree s.db run.evaluationConfigId base.evaluationConfigId) := rfl
      rw [← hcomparable]
      cases h : comparable s.db run base with
      | true =>
          rw [if_pos rfl]
          refine (evalAlone_read rfl).trans ?_
          rw [List.find?_cons, h]
          rfl
      | false =>
          rw [if_neg Bool.false_ne_true, List.find?_cons, h]
          exact ih

theorem resolveBaselineMetrics_alone (runId : RunId) (run : EvaluationRun) :
    evalAlone env p supply (resolveBaselineMetrics runId run) s =
      (.ok (baselineMetrics env s.db runId run), s) := by
  unfold resolveBaselineMetrics baselineMetrics baselineRun
  cases run.baseline.1.isNone with
  | true => rfl
  | false => exact (evalAlone_read rfl).trans (firstComparable_alone _ _)

/-! ### An evaluation -/

/-- What the engine answers for a run and a gate in one state. -/
def engineAnswer (env : Env) (db : Db) (runId : RunId) (run : EvaluationRun) (rules : Dict) :
    Except Exn (GateStatus × List Json) :=
  evaluate rules (EvaluationMetricsRepo.metricMap env db runId) (baselineMetrics env db runId run)

/-- An evaluation of a completed run comes to what the engine answers. -/
theorem evaluateQualityGate_alone {runId : RunId} {gate : ℕ} {run : EvaluationRun} {rules : Dict}
    (hrun : s.db.evaluationRuns.lookup runId = some run) (hstatus : run.status = .succeeded)
    (hgate : s.db.qualityGates.lookup gate = some rules) :
    evalAlone env p supply (evaluateQualityGate runId gate) s =
      evalAlone env p supply (ofEngine (engineAnswer env s.db runId run rules) >>= fun r => do
        let inserted ← exec (.recordGateResult runId gate r.1 r.2)
        let existing ← found (.http 409) (← exec (.getGateResult runId gate))
        pure (existing, inserted)) s := by
  refine (evalAlone_read rfl).trans ?_
  rw [hrun]
  refine (evalAlone_read rfl).trans ?_
  rw [hgate, hstatus]
  refine (evalAlone_read rfl).trans ?_
  exact Prog.eval_bind_ok (resolveBaselineMetrics_alone runId run)

/-- Of a completed run there is a result after `record`: the one of this call, if there was none. -/
theorem record_completed {db : Db} {runId : RunId} {gate : ℕ} {run : EvaluationRun}
    (hrun : db.evaluationRuns.lookup runId = some run) (hstatus : run.status = .succeeded)
    (status : GateStatus) (results : List Json) (now : Time) :
    ∃ result, (QualityGateResultsRepo.record db runId gate status results now).1.qualityGateResults.lookup
        (runId, gate) = some result ∧
      (db.qualityGateResults.lookup (runId, gate) = none → result.status = status) := by
  have hcompleted : ∃ row ∈ db.evaluationRuns.lookup runId, row.status = .succeeded :=
    ⟨run, hrun, hstatus⟩
  unfold QualityGateResultsRepo.record
  rw [if_pos hcompleted]
  unfold Table.insertNew
  cases hrow : db.qualityGateResults.lookup (runId, gate) with
  | some row => exact ⟨row, hrow, nofun⟩
  | none => exact ⟨_, AList.lookup_insert _, fun _ => rfl⟩

/-- The evaluation of a gate ends in a recorded verdict, which is ERROR for malformed rules, if it is
the first for the run. -/
def EndsInVerdict (env : Env) (p : ℕ) (supply : Supply) (s : World) (runId : RunId) (gate : ℕ)
    (rules : Dict) : Prop :=
  ∃ result inserted s', evalAlone env p supply (evaluateQualityGate runId gate) s =
      (.ok (result, inserted), s') ∧
    s'.db.qualityGateResults.lookup (runId, gate) = some result ∧
    (s.db.qualityGateResults.lookup (runId, gate) = none →
      (leavesOf rules = [] ∨ ∃ leaf ∈ leavesOf rules, Malformed leaf) → result.status = .error)

section Verdict

variable {runId : RunId} {gate : ℕ} {run : EvaluationRun} {rules : Dict}
  (hrun : s.db.evaluationRuns.lookup runId = some run) (hstatus : run.status = .succeeded)
  (hgate : s.db.qualityGates.lookup gate = some rules)

include hrun hstatus hgate

variable (p) (supply) in
/-- An answer whose results can be stored is recorded. -/
theorem verdict_recorded {status : GateStatus} {results : List Json}
    (hanswer : engineAnswer env s.db runId run rules = .ok (status, results))
    (hstorable : Json.allStorable results = true) :
    ∃ result inserted s', evalAlone env p supply (evaluateQualityGate runId gate) s =
        (.ok (result, inserted), s') ∧
      s'.db.qualityGateResults.lookup (runId, gate) = some result ∧
      (s.db.qualityGateResults.lookup (runId, gate) = none → result.status = status) := by
  rw [evaluateQualityGate_alone hrun hstatus hgate, hanswer]
  let r := QualityGateResultsRepo.record s.db runId gate status results
    (supply (.recordGateResult runId gate status results) s).now
  obtain ⟨result, hresult, hfirst⟩ : ∃ result, r.1.qualityGateResults.lookup (runId, gate) =
    some result ∧ _ := record_completed hrun hstatus status results _
  have hrecord : evalAlone env p supply (do
        let inserted ← exec (.recordGateResult runId gate status results)
        let existing ← found (.http 409) (← exec (.getGateResult runId gate))
        pure (existing, inserted)) s = (.ok (result, r.2), { s with db := r.1 }) := by
    have hrecorded : (Op.recordGateResult runId gate status results).perform env p
        (supply (.recordGateResult runId gate status results) s) s =
        ({ s with db := r.1 }, .ok r.2) := if_pos hstorable
    refine (evalAlone_perform hrecorded).trans ?_
    refine (evalAlone_read rfl).trans ?_
    rw [show r.1.qualityGateResults.lookup (runId, gate) = some result from hresult]
    rfl
  exact ⟨result, _, _, hrecord, hresult, hfirst⟩

/-- An evaluation that returns has an answer whose results can be stored. -/
theorem answer_of_verdict {r : QualityGateResult × Bool} {s' : World}
    (h : evalAlone env p supply (evaluateQualityGate runId gate) s = (.ok r, s')) :
    ∃ status results, engineAnswer env s.db runId run rules = .ok (status, results) ∧
      Json.allStorable results = true := by
  rw [evaluateQualityGate_alone hrun hstatus hgate] at h
  cases hanswer : engineAnswer env s.db runId run rules with
  | error e =>
      rw [hanswer] at h
      cases h
  | ok answer =>
      obtain ⟨status, results⟩ := answer
      refine ⟨status, results, rfl, ?_⟩
      rw [hanswer] at h
      obtain ⟨inserted, hinserted, _⟩ := returns_exec_bind.mp ⟨r, congrArg Prod.fst h⟩
      by_contra hstorable
      cases ((congrArg Prod.snd (if_neg hstorable)).symm.trans hinserted :)

/-- **The evaluation of a gate ends in a recorded verdict exactly if the engine copes with every leaf,
and no other leaf of `any` passes beside a malformed one.** -/
theorem ends_in_verdict_iff :
    EndsInVerdict env p supply s runId gate rules ↔
      (∀ leaf ∈ leavesOf rules, LeafFits (EvaluationMetricsRepo.metricMap env s.db runId)
        (baselineMetrics env s.db runId run) leaf) ∧
      (s.db.qualityGateResults.lookup (runId, gate) = none → (rules.get? "all").isSome = false →
        (∃ leaf ∈ leavesOf rules, Malformed leaf) →
          ∀ leaf ∈ leavesOf rules, ¬ Passes (EvaluationMetricsRepo.metricMap env s.db runId)
            (baselineMetrics env s.db runId run) leaf) := by
  rw [← evaluate_fits_iff]
  constructor
  · rintro ⟨result, inserted, s', heval, hresult, herror⟩
    obtain ⟨status, results, hanswer, hstorable⟩ :=
      answer_of_verdict hrun hstatus hgate heval
    refine ⟨⟨status, results, hanswer, hstorable⟩, fun hnone hany hmalformed => ?_⟩
    obtain ⟨result₁, inserted₁, s₁, heval₁, _, hfirst⟩ :=
      verdict_recorded p supply hrun hstatus hgate hanswer hstorable
    cases heval.symm.trans heval₁
    have hstatus' : status = .error := (hfirst hnone).symm.trans (herror hnone (Or.inr hmalformed))
    exact ((status_of_malformed_leaf hanswer hmalformed).mp hstatus').resolve_left (by simp [hany])
  · rintro ⟨⟨status, results, hanswer, hstorable⟩, hany⟩
    obtain ⟨result, inserted, s', heval, hresult, hfirst⟩ :=
      verdict_recorded p supply hrun hstatus hgate hanswer hstorable
    refine ⟨result, inserted, s', heval, hresult, fun hnone hmalformed => ?_⟩
    rw [hfirst hnone]
    rcases hmalformed with hnil | hmalformed
    · exact status_of_no_leaves hanswer hnil
    · refine (status_of_malformed_leaf hanswer hmalformed).mpr ?_
      cases hall : (rules.get? "all").isSome with
      | true => exact Or.inl rfl
      | false => exact Or.inr (hany hnone hall hmalformed)

end Verdict

end Alone

/-! ### Two gates -/

def accurateRun : EvaluationRun where
  jobId := 1
  model := (1, 1)
  dataset := (1, 1)
  evaluationConfigId := 1
  baseline := (none, none)
  status := .succeeded

/-- The database after the run has scored every example, with a gate. -/
def gatedDb (rules : Dict) : Db :=
  { Db.initial with
    evaluationRuns := AList.insert 1 accurateRun ∅
    evaluationMetrics := AList.insert (1, "exact_match", "all") ⟨.num 1, 1, 1⟩ ∅
    qualityGates := AList.insert 1 rules ∅ }

/-- `exact_match >= 1 / 2`. -/
def halfCorrect : Dict :=
  [("metric", .str "exact_match"), ("operator", .str ">="), ("value", .num (1 / 2))]

/-- The gate of a proper rule ends in a verdict. -/
theorem half_correct_ends : EndsInVerdict Env.standard 0 (fun _ _ => {})
    { db := gatedDb [("all", .arr [.obj halfCorrect])] } 1 1 [("all", .arr [.obj halfCorrect])] := by
  refine (ends_in_verdict_iff (show _ = some accurateRun from rfl) rfl rfl).mpr
    ⟨?_, fun _ hall => ?_⟩
  · intro leaf hleaf
    rw [show leaf = .obj halfCorrect from List.mem_singleton.mp hleaf]
    have hmetrics : EvaluationMetricsRepo.metricMap Env.standard
        (gatedDb [("all", .arr [.obj halfCorrect])]) 1 = [("exact_match", .finite 1)] := by
      decide +kernel
    show LeafFits (EvaluationMetricsRepo.metricMap Env.standard _ 1) _ _
    rw [hmetrics]
    refine ⟨rfl, rfl, fun _ => trivial, fun name candidate hcandidate => ⟨fun threshold h => ?_,
      fun c hc _ => ?_⟩⟩
    · cases (show some (Json.num (1 / 2)) = _ from h)
      rfl
    · cases (show some ("exact_match", Number.finite 1) = _ from hcandidate)
      cases (show some (Comparison.mk (.finite 1) (.num (1 / 2)) [.finite 1]) = _ from hc)
      refine ⟨⟨.finite (1 / 2), rfl, fun heq => ?_⟩, by simp⟩
      exact absurd (Json.str.inj (show Json.str ">=" = .str "==" from heq)) (by decide)
  · cases hall

/-- A leaf that is a text makes the engine raise. -/
theorem text_leaf_raises : ¬ EndsInVerdict Env.standard 0 (fun _ _ => {})
    { db := gatedDb [("all", .arr [.str "exact_match"])] } 1 1
      [("all", .arr [.str "exact_match"])] := by
  rintro ⟨result, inserted, s', h, _⟩
  cases (show _ = (Except.error Exn.attributeError, _) from rfl).symm.trans h

end PosttrainPlatform
