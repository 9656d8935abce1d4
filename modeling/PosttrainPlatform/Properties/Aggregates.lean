import PosttrainPlatform.Properties.CompletedRuns

/-!
# Aggregates and rows

The aggregates are computed in the subprocess, over its examples, and the rows are kept in the database,
one for each id.  The two agree when the examples have different ids.  The metrics of a run may come
from different attempts; those of one attempt come from one pass.
-/

namespace PosttrainPlatform

open Doubles Programs Process Traces ToyEvaluator EvaluationMetrics

/-- The value of a number. -/
def Json.rational? : Json → Option ℚ
  | .num q => some q
  | _ => none

/-- The result rows of a run, each with the id of its example. -/
def Db.resultRows (db : Db) (runId : RunId) : List (String × EvaluationResult) :=
  (db.evaluationResults.rows.filter fun r => r.1.1 = runId).map fun r => (r.1.2, r.2)

/-- **The metric row says of the result rows what they say themselves**: how many they are, and the mean
of their scores. -/
structure EvaluationMetric.Agrees (metric : EvaluationMetric)
    (rows : List (String × EvaluationResult)) : Prop where
  value : metric.metricValue = .num (mean (rows.filterMap fun r => r.2.score.rational?))
  count : metric.sampleCount = rows.length

/-- The first examples of the dataset have different ids. -/
def DistinctIds (env : Env) (py : Python) (dataset : Bytes) (maxExamples : Json) : Prop :=
  ∃ ids, exampleIds env py dataset maxExamples = some ids ∧ ids.Nodup

/-! ### The examples of a pass -/

/-- The text of the id of an example. -/
def ToyEvaluator.idText (env : Env) (entry : Json) : String :=
  env.pyStr ((exampleId? entry).getD .null)

/-- The score of an example. -/
def ToyEvaluator.scoreOf (param : Number) (entry : Json) : ℚ := (score? param entry).getD 0

section Examples

variable {env : Env} {host : Host} {inputs : Inputs} {records : List ExampleRecord}

theorem idText_of_example {entry exampleId : Json} (h : exampleId? entry = some exampleId) :
    idText env entry = env.pyStr exampleId := by
  unfold idText
  rw [h]
  rfl

theorem scoreOf_of_score {param : Number} {entry : Json} {q : ℚ} (h : score? param entry = some q) :
    scoreOf param entry = q := by
  unfold scoreOf
  rw [h]
  rfl

/-- The ids of examples that have all been scored. -/
theorem idTexts_of_scored
    (h : (scoreExamples env host inputs.param 0 inputs.examples).result = .ok records) :
    idTexts env inputs.examples = inputs.examples.map (idText env) := by
  unfold idTexts idText
  rw [show (fun entry => env.pyStr ((exampleId? entry).getD .null)) =
    env.pyStr ∘ fun entry => (exampleId? entry).getD .null from rfl, ← List.map_map]
  congr 1
  refine List.filterMap_eq_map_iff_forall_eq_some.mpr fun entry hentry => ?_
  obtain ⟨n, hn⟩ := List.mem_iff_getElem?.mp hentry
  obtain ⟨_, _, _, ⟨exampleId, _, _, hexample, _⟩, _⟩ := (scoreExamples_spec h).2 n entry hn
  rw [hexample]
  rfl

/-- The records of a pass have the scores of its examples. -/
theorem scores_of_scored
    (h : (scoreExamples env host inputs.param 0 inputs.examples).result = .ok records) :
    records.map (fun r => r.exactMatch) = inputs.examples.map (scoreOf inputs.param) := by
  obtain ⟨hlength, hevery⟩ := scoreExamples_spec h
  refine List.ext_getElem? fun n => ?_
  rw [List.getElem?_map, List.getElem?_map]
  cases hn : inputs.examples[n]? with
  | none =>
      have hend : records[n]? = none := by
        rw [List.getElem?_eq_none_iff] at hn ⊢
        omega
      rw [hend]
      rfl
  | some entry =>
      obtain ⟨record, _, hrecord, ⟨_, _, _, _, _, hscore, _⟩, _⟩ := hevery n entry hn
      rw [hrecord, Option.map_some, Option.map_some, scoreOf_of_score hscore]

/-- The aggregated accuracy of a pass. -/
theorem exactMatch_of_scored {metrics : List AggregateMetric} {m : AggregateMetric}
    (h : (scoreExamples env host inputs.param 0 inputs.examples).result = .ok records)
    (hmetrics : aggregate records = some metrics) (hm : m ∈ metrics)
    (hname : m.metricName = "exact_match") :
    m.metricValue = mean (inputs.examples.map (scoreOf inputs.param)) ∧
      m.sampleCount = inputs.examples.length := by
  rw [← scores_of_scored h, ← (scoreExamples_spec h).1]
  exact (metric_of_aggregate hmetrics hm).1 hname

end Examples

/-! ### Accuracy -/

section Accuracy

variable {env : Env} {py : Python} {s : World} {es : List (SysEvent env)} {c : System env}
  {runId : RunId} {run : EvaluationRun} {config : EvaluationConfig} {model dataset : Bytes}

theorem mem_resultRows {db : Db} {id : String} {row : EvaluationResult} :
    (id, row) ∈ db.resultRows runId ↔ db.evaluationResults.lookup (runId, id) = some row := by
  unfold Db.resultRows
  rw [List.mem_map]
  constructor
  · intro hmem
    obtain ⟨⟨⟨run, id'⟩, row'⟩, hmem, heq⟩ := hmem
    obtain ⟨hstored, hrun⟩ := List.mem_filter.mp hmem
    have hkey : run = runId := of_decide_eq_true hrun
    cases heq
    rw [← hkey]
    exact Table.mem_rows.mp hstored
  · intro hrow
    exact ⟨((runId, id), row), List.mem_filter.mpr ⟨Table.mem_rows.mpr hrow, decide_eq_true rfl⟩, rfl⟩

theorem map_fst_resultRows (db : Db) : (db.resultRows runId).map Prod.fst = db.resultIds runId := by
  unfold Db.resultRows Db.resultIds
  rw [List.map_map]
  rfl

theorem mean_perm {l l' : List ℚ} (h : l.Perm l') : mean l = mean l' := by
  unfold mean
  rw [h.sum_eq, h.length_eq]

/-- **Rows with the scores of examples with different ids** have their mean. -/
theorem mean_of_rows {rows : List (String × EvaluationResult)} {examples : List Json} {param : Number}
    (hrows : (rows.map Prod.fst).Nodup) (hids : (examples.map (idText env)).Nodup)
    (hscores : ∀ id row, (id, row) ∈ rows → ∃ entry ∈ examples, id = idText env entry ∧
      row.score = .num (scoreOf param entry))
    (hall : ∀ entry ∈ examples, ∃ row, (idText env entry, row) ∈ rows) :
    mean (rows.filterMap fun r => r.2.score.rational?) = mean (examples.map (scoreOf param)) := by
  have hperm : (rows.map fun r => (r.1, r.2.score)).Perm
      (examples.map fun entry => (idText env entry, Json.num (scoreOf param entry))) := by
    refine (List.perm_ext_iff_of_nodup ?_ ?_).mpr fun ⟨id, score⟩ => ?_
    · refine List.Nodup.of_map Prod.fst ?_
      rw [List.map_map]
      exact hrows
    · refine List.Nodup.of_map Prod.fst ?_
      rw [List.map_map]
      exact hids
    rw [List.mem_map, List.mem_map]
    constructor
    · intro hmem
      obtain ⟨⟨id', row⟩, hrow, heq⟩ := hmem
      cases heq
      obtain ⟨entry, hentry, hid, hscore⟩ := hscores id' row hrow
      exact ⟨entry, hentry, by rw [hid, hscore]⟩
    · intro hmem
      obtain ⟨entry, hentry, heq⟩ := hmem
      cases heq
      obtain ⟨row, hrow⟩ := hall entry hentry
      obtain ⟨entry', hentry', hid, hscore⟩ := hscores _ row hrow
      have hsame : entry = entry' := List.inj_on_of_nodup_map hids hentry hentry' hid
      rw [← hsame] at hscore
      exact ⟨(idText env entry, row), hrow, by rw [hscore]⟩
  have hvalues := ((hperm.map Prod.snd).filterMap Json.rational?)
  rw [List.map_map, List.map_map, List.filterMap_map, List.filterMap_map] at hvalues
  refine (mean_perm hvalues).trans ?_
  rw [show Json.rational? ∘ Prod.snd ∘ (fun entry => (idText env entry, Json.num (scoreOf param entry))) =
    some ∘ scoreOf param from rfl, List.filterMap_eq_map]

/-- **The aggregates agree with the rows exactly if the examples have different ids.** -/
theorem aggregates_agree_iff (hplain : PlainTexts env) (h : Reaches s es c)
    (htoy : Runs.Always Config.step (Config.AtStep (RunsToyEvaluator env py))
      ({ shared := s } : System env) es)
    (hrun : c.shared.db.evaluationRuns.lookup runId = some run) (hs : run.status = .succeeded)
    (hconfig : c.shared.db.evaluationConfigs.lookup run.evaluationConfigId = some config)
    (hconfigured : config.IsToy) (hmodel : c.shared.HasModel env run model)
    (hdataset : c.shared.HasDataset env run dataset) {part : String} {metric : EvaluationMetric}
    (hmetric : c.shared.db.evaluationMetrics.lookup (runId, "exact_match", part) = some metric) :
    metric.Agrees (c.shared.db.resultRows runId) ↔
      DistinctIds env py dataset (.ofNat? config.maxExamples) := by
  have hk := knows_of_reaches h
  have hprinted : ∀ p op a, History.Answered (pasts env s es p) op a →
      PrintedByToyEvaluator env py op a := fun p op a ha => printed_of_reaches h htoy ha
  -- the metric is the one of a pass
  obtain ⟨p, j, w, run₀, context, files, lines, event, hstart, hspawn, hline, hkind, ⟨metricName, hname,
    hcolumn⟩, hvalue, hcount⟩ := hk.start_of_metric hmetric
  obtain ⟨host, hpass⟩ := hk.toyPass hprinted hstart hspawn hrun hconfig hconfigured
  obtain ⟨inputs, records, metrics, m, hreads, hrecords, hmetrics, hm, rfl⟩ :=
    hpass.metric event hline hkind
  cases hname
  have hexact : m.metricName = "exact_match" := (hplain.textColumn _ _ hcolumn).symm
  obtain ⟨hmean, hlength⟩ := exactMatch_of_scored hrecords hmetrics hm hexact
  have hvalue : Json.num m.metricValue = metric.metricValue := Option.some.inj hvalue
  have hcount : metric.sampleCount = inputs.examples.length := by
    rw [← hlength]
    exact intColumn_natCast hcount
  -- so are the rows
  have hexamples := hreads.dataset dataset hdataset
  obtain ⟨ids, hids, hresults⟩ := completed_ids hplain h htoy hrun hs hconfig hconfigured hdataset
  have hidTexts : ids = inputs.examples.map (idText env) := by
    unfold exampleIds at hids
    rw [hexamples] at hids
    rw [← idTexts_of_scored hrecords]
    exact (Option.some.inj hids).symm
  subst hidTexts
  have hrows : ((c.shared.db.resultRows runId).map Prod.fst).Nodup := by
    rw [map_fst_resultRows]
    exact nodup_resultIds _ _
  constructor
  · intro hagrees
    refine ⟨_, hids, ?_⟩
    have hperm : (c.shared.db.resultIds runId).Perm (inputs.examples.map (idText env)) := by
      refine (List.Nodup.subperm (nodup_resultIds _ _) fun id => (hresults id).mp).perm_of_length_le ?_
      have hagreed := hagrees.count
      rw [hcount] at hagreed
      rw [← map_fst_resultRows, List.length_map, List.length_map]
      omega
    exact hperm.nodup_iff.mp (nodup_resultIds _ _)
  · intro hdistinct
    obtain ⟨ids, hids', hnodup⟩ := hdistinct
    obtain rfl := Option.some.inj (hids.symm.trans hids')
    constructor
    · rw [← hvalue, hmean]
      refine congrArg Json.num (mean_of_rows hrows hnodup (fun id row hrow => ?_)
        fun entry hentry => ?_).symm
      · obtain ⟨_, _, _, inputs', n, entry, exampleId, q, hreads', hn, hexample, hid, hscore, hnum⟩ :=
          hk.pass_of_result hplain hprinted hrun hconfig hconfigured (mem_resultRows.mp hrow)
        have hsame : inputs'.examples = inputs.examples :=
          Except.ok.inj ((hreads'.dataset dataset hdataset).symm.trans hexamples)
        have hparam : inputs'.param = inputs.param :=
          Except.ok.inj ((hreads'.model model hmodel).symm.trans (hreads.model model hmodel))
        rw [hsame] at hn
        rw [hparam] at hscore
        exact ⟨entry, List.mem_of_getElem? hn, hid.trans (idText_of_example hexample).symm,
          hnum.trans (congrArg Json.num (scoreOf_of_score hscore).symm)⟩
      · have hstored := (hresults _).mpr (List.mem_map_of_mem hentry)
        obtain ⟨row, hrow⟩ := Option.isSome_iff_exists.mp (mem_resultIds.mp hstored)
        exact ⟨row, mem_resultRows.mpr hrow⟩
    · have hperm : (c.shared.db.resultIds runId).Perm (inputs.examples.map (idText env)) :=
        (List.perm_ext_iff_of_nodup (nodup_resultIds _ _) hnodup).mpr hresults
      have hlengths := hperm.length_eq
      rw [← map_fst_resultRows, List.length_map, List.length_map] at hlengths
      rw [hcount, hlengths]

end Accuracy

/-- The aggregates of two examples with different ids agree with their rows. -/
theorem aggregates_agree_two : ∃ c : System .digesting,
    Reaches (completeStart twoExamples) (completeJob twoExamples) c ∧
      ∃ metric ∈ c.shared.db.evaluationMetrics.lookup (1, "exact_match", "all"),
        metric.sampleCount = 2 ∧ metric.Agrees (c.shared.db.resultRows 1) := by
  obtain ⟨c, hc, ⟨run, hrun, hs, hconfigId, hmodelId, hdatasetId⟩, ⟨metric, hmetric, hcount⟩, _⟩ :=
    twoExamples_completed
  have htoy := twoExamples_toy
  have hdistinct : DistinctIds .digesting .standard twoExamples .null :=
    ⟨["e1", "e2"], by decide +kernel, by decide⟩
  exact ⟨c, hc, metric, hmetric, hcount, (aggregates_agree_iff plainTexts_digesting hc htoy hrun hs
    (completeStart_config hc hconfigId) rfl (completeStart_hasModel hc hmodelId)
    (completeStart_hasDataset hc hdatasetId) hmetric).mpr hdistinct⟩

/-- A dataset in which two examples have one id. -/
def twinExamples : Bytes :=
  Codec.dumps (.obj [("examples", .arr [exampleFields "e1" "a", exampleFields "e1" "b"])])

/-- **An aggregate that disagrees**: two samples are counted, and one row is kept. -/
theorem twin_examples_disagree : ∃ c : System .digesting,
    Reaches (completeStart twinExamples) (completeJob twinExamples) c ∧
      Runs.Always Config.step (Config.AtStep (RunsToyEvaluator .digesting .standard))
        ({ shared := completeStart twinExamples } : System .digesting) (completeJob twinExamples) ∧
      (∃ run ∈ c.shared.db.evaluationRuns.lookup 1, run.status = .succeeded) ∧
      ∃ metric ∈ c.shared.db.evaluationMetrics.lookup (1, "exact_match", "all"),
        metric.sampleCount = 2 ∧ ¬ metric.Agrees (c.shared.db.resultRows 1) := by
  obtain ⟨c, hc, hs, hrows, metric, hmetric, hcount⟩ := exists_reaches
    (completeStart_initial twinExamples) (completeJob twinExamples)
    (P := fun c : System .digesting =>
      (∃ run ∈ c.shared.db.evaluationRuns.lookup 1, run.status = .succeeded) ∧
      (c.shared.db.resultRows 1).length = 1 ∧
      ∃ metric ∈ c.shared.db.evaluationMetrics.lookup (1, "exact_match", "all"),
        metric.sampleCount = 2) (by decide +kernel)
  have htoy := runsToyEvaluator_of_check (completeStart twinExamples) _ _
    (completeJob_prints twinExamples) (by decide +kernel)
  refine ⟨c, hc, htoy, hs, metric, hmetric, hcount, fun hagrees => ?_⟩
  have hsame := hagrees.count
  rw [hcount, hrows] at hsame
  cases hsame

/-! ### Latencies -/

section Latencies

variable {env : Env} {py : Python} {s : World} {h : Pasts} {runId : RunId} {run : EvaluationRun}
  {config : EvaluationConfig}

variable {es : List (SysEvent env)} {c : System env}

end Latencies

end PosttrainPlatform
