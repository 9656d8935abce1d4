import PosttrainPlatform.Properties.Delivery
import PosttrainPlatform.Properties.MetricVisibility

/-!
# Completed runs of the toy evaluator

A subprocess may be killed after any of its events, and a retry begins with the rows of the attempts
before it.  All attempts read the same two files, though, and report the same examples; and the one
that marks the run as SUCCEEDED has reported all of them.
-/

namespace PosttrainPlatform

open Doubles Programs Process Traces ToyEvaluator EvaluationMetrics

/-! ### The files of a run -/

/-- The artifact has the content, and no other bytes have its digest. -/
def World.HasFile (env : Env) (s : World) (a : ArtifactId) (data : Bytes) : Prop :=
  ∃ artifact, s.db.artifacts.lookup a = some artifact ∧
    ∀ d, env.sha256 d = artifact.contentHash ↔ d = data

/-- The content of the model version of a run. -/
def World.HasModel (env : Env) (s : World) (run : EvaluationRun) (data : Bytes) : Prop :=
  ∃ version, s.db.modelVersions.lookup run.model = some version ∧ s.HasFile env version.artifactId data

/-- The content of the dataset version of a run. -/
def World.HasDataset (env : Env) (s : World) (run : EvaluationRun) (data : Bytes) : Prop :=
  ∃ a, s.db.datasetVersions.lookup run.dataset = some a ∧ s.HasFile env a data

theorem World.HasFile.grow {env : Env} {s s' : World} {a : ArtifactId} {data : Bytes}
    (h : s.HasFile env a data) (hgrow : s.Grows s') : s'.HasFile env a data := by
  obtain ⟨artifact, hrow, honly⟩ := h
  obtain ⟨artifact', hrow', hbecomes⟩ := hgrow.records.artifacts a artifact hrow
  refine ⟨artifact', hrow', fun d => ?_⟩
  rw [hbecomes.1]
  exact honly d

theorem World.HasModel.grow {env : Env} {s s' : World} {run : EvaluationRun} {data : Bytes}
    (h : s.HasModel env run data) (hgrow : s.Grows s') : s'.HasModel env run data := by
  obtain ⟨version, hversion, hfile⟩ := h
  exact ⟨version, hgrow.records.modelVersions _ _ hversion, hfile.grow hgrow⟩

theorem World.HasDataset.grow {env : Env} {s s' : World} {run : EvaluationRun} {data : Bytes}
    (h : s.HasDataset env run data) (hgrow : s.Grows s') : s'.HasDataset env run data := by
  obtain ⟨a, ha, hfile⟩ := h
  exact ⟨a, hgrow.records.datasetVersions _ _ ha, hfile.grow hgrow⟩

/-- Python and Postgres keep texts as they are. -/
structure PlainTexts (env : Env) : Prop where
  pyStr : ∀ t, env.pyStr (.str t) = t
  textColumn : ∀ t t', env.textColumn (.str t) = some t' → t' = t

/-! ### One pass of the evaluator -/

/-- The inputs of a pass, which are those of the files of its run. -/
structure Reads (env : Env) (py : Python) (s : World) (run : EvaluationRun)
    (config : EvaluationConfig) (host : Host) (context : Dict) (files : List (String × Bytes))
    (inputs : Inputs) : Prop where
  result : (readInputs py host files context).result = .ok inputs
  model : ∀ data, s.HasModel env run data → (modelParam py data).result = .ok inputs.param
  dataset : ∀ data, s.HasDataset env run data →
    (datasetExamples py data (.ofNat? config.maxExamples)).result = .ok inputs.examples

/-- **What the events of a pass say.** -/
structure ToyPass (env : Env) (py : Python) (s : World) (run : EvaluationRun)
    (config : EvaluationConfig) (context : Dict) (files : List (String × Bytes)) (lines : List Line)
    (host : Host) : Prop where
  result : ∀ event : Dict, .json (.obj event) ∈ lines → event.get? "event" = some (.str "result") →
    ∃ inputs n entry record, Reads env py s run config host context files inputs ∧
      inputs.examples[n]? = some entry ∧ Scored env host inputs.param n entry record event
  metric : ∀ event : Dict, .json (.obj event) ∈ lines → event.get? "event" = some (.str "metric") →
    ∃ inputs records metrics m, Reads env py s run config host context files inputs ∧
      (scoreExamples env host inputs.param 0 inputs.examples).result = .ok records ∧
      aggregate records = some metrics ∧ m ∈ metrics ∧ event = metricEvent config.split m
  final : ∀ event : Dict, .json (.obj event) ∈ lines → event.get? "event" = some (.str "final") →
    ∃ inputs records metrics, Reads env py s run config host context files inputs ∧
      (scoreExamples env host inputs.param 0 inputs.examples).result = .ok records ∧
      aggregate records = some metrics ∧
      (∀ e, .report e ∈ (scoreExamples env host inputs.param 0 inputs.examples).trace →
        .json (.obj e) ∈ lines) ∧
      ∀ m ∈ metrics, .json (.obj (metricEvent config.split m)) ∈ lines

section Pass

variable {env : Env} {py : Python} {s : World} {h : Pasts} {p : ℕ} {t : Ticket}
  {run run₀ : EvaluationRun} {config : EvaluationConfig} {context : Dict}
  {files : List (String × Bytes)}

theorem Knows.hasFile_of_fetched (hk : Knows env s h) {a : ArtifactId} {file : Bytes × Hash}
    {data : Bytes} (hfetched : Past.Fetched (h p) a file) (hfile : s.HasFile env a data) {d : Bytes}
    (hd : env.sha256 d = file.2) : d = data := by
  obtain ⟨artifact, hartifact, _, _, hhash⟩ := hfetched
  obtain ⟨row, hrow, hbecomes⟩ := hk.told p _ _ hartifact artifact rfl
  obtain ⟨row', hrow', honly⟩ := hfile
  rw [hrow] at hrow'
  cases hrow'
  have hsame : row.contentHash = artifact.contentHash := hbecomes.1
  exact (honly d).mp (by rw [hd, hhash, hsame])

/-- **The context of an attempt** has the configuration and the digests of the files of the run. -/
theorem Knows.context_of_start (hk : Knows env s h)
    (hstart : Past.StartsEvaluation (h p) t run₀ context files)
    (hrun : s.db.evaluationRuns.lookup t.runId = some run)
    (hconfig : s.db.evaluationConfigs.lookup run.evaluationConfigId = some config) :
    ∃ resources inputs, context = evaluationContext t (some config) resources inputs ∧
      (∀ data, s.HasModel env run data → ∀ d, env.sha256 d = inputs.model.2 → d = data) ∧
      ∀ data, s.HasDataset env run data → ∀ d, env.sha256 d = inputs.dataset.2 → d = data := by
  obtain ⟨config?, resources, inputs, version, dataset, hread, hversion, hdataset, hmodel, hdata,
    hcontext, _⟩ := hstart.prepared
  -- the run that the attempt has found is the stored one
  obtain ⟨_, run₁, hrun₁, hsame⟩ := hk.told p _ _ hstart.evaluates.found t.runId run₀ rfl
  rw [hrun] at hrun₁
  cases hrun₁
  obtain ⟨_, hsameModel, hsameDataset, hsameConfig, _⟩ := hsame
  have hconfig? : s.db.evaluationConfigs.lookup run₀.evaluationConfigId = config? :=
    hk.told p _ _ hread
  rw [← hsameConfig, hconfig] at hconfig?
  subst hconfig?
  refine ⟨resources, inputs, hcontext, fun data hhas d hd => ?_, fun data hhas d hd => ?_⟩
  · obtain ⟨version', hversion', hfile⟩ := hhas
    have hstored := hk.told p _ _ hversion version rfl
    rw [← hsameModel, hversion'] at hstored
    cases hstored
    exact hk.hasFile_of_fetched hmodel hfile hd
  · obtain ⟨a, ha, hfile⟩ := hhas
    have hstored := hk.told p _ _ hdataset dataset rfl
    rw [← hsameDataset, ha] at hstored
    cases hstored
    exact hk.hasFile_of_fetched hdata hfile hd

theorem hashAccepted_ofId {hash actual : Hash} (h : hashAccepted (.ofId hash) actual = true) :
    actual = hash := by
  have hcast : ((hash : ℕ) : ℚ) = (actual : ℚ) := of_decide_eq_true h
  exact (Nat.cast_injective hcast).symm

/-- **A pass reads the two files of its run**, when it accepts their digests. -/
theorem Knows.reads_of_accepted (hk : Knows env s h)
    (hstart : Past.StartsEvaluation (h p) t run₀ context files)
    (hrun : s.db.evaluationRuns.lookup t.runId = some run)
    (hconfig : s.db.evaluationConfigs.lookup run.evaluationConfigId = some config) {host : Host}
    {inputs : Inputs} (hinputs : (readInputs py host files context).result = .ok inputs)
    (hmodelFile : AcceptedFile env host context files "model_path" "model_expected_hash")
    (hdatasetFile : AcceptedFile env host context files "dataset_path" "dataset_expected_hash") :
    Reads env py s run config host context files inputs := by
  obtain ⟨resources, fetched, hcontext, hmodel, hdataset⟩ := hk.context_of_start hstart hrun hconfig
  obtain ⟨⟨path, bytes, hpath, hbytes, hparam⟩, path', bytes', hpath', hbytes', hexamples⟩ :=
    readInputs_spec hinputs
  refine ⟨hinputs, fun data hhas => ?_, fun data hhas => ?_⟩
  · obtain ⟨path₁, d, hpath₁, hd, haccepted⟩ := hmodelFile
    rw [hpath] at hpath₁
    cases hpath₁
    rw [hbytes] at hd
    cases hd
    rw [hcontext] at haccepted
    rwa [hmodel data hhas bytes (hashAccepted_ofId haccepted)] at hparam
  · obtain ⟨path₁, d, hpath₁, hd, haccepted⟩ := hdatasetFile
    rw [hpath'] at hpath₁
    cases hpath₁
    rw [hbytes'] at hd
    cases hd
    rw [hcontext] at haccepted hexamples
    rwa [hdataset data hhas bytes' (hashAccepted_ofId haccepted)] at hexamples

/-- The context of a toy evaluation names the toy evaluator and the split of the configuration. -/
theorem Knows.toy_context (hk : Knows env s h)
    (hstart : Past.StartsEvaluation (h p) t run₀ context files)
    (hrun : s.db.evaluationRuns.lookup t.runId = some run)
    (hconfig : s.db.evaluationConfigs.lookup run.evaluationConfigId = some config)
    (htoy : config.IsToy) : context.get? "evaluator_entrypoint" = some toyEvaluatorEntrypoint ∧
      context.getD "split" (.str "all") = config.split := by
  obtain ⟨resources, fetched, rfl, _⟩ := hk.context_of_start hstart hrun hconfig
  exact ⟨congrArg some htoy, rfl⟩

/-- **Every output of the toy evaluator for a run is that of one pass.** -/
theorem Knows.toyPass (hk : Knows env s h)
    (hprinted : ∀ p op a, History.Answered (h p) op a → PrintedByToyEvaluator env py op a)
    (hstart : Past.StartsEvaluation (h p) t run₀ context files) {lines : List Line}
    (hspawn : History.Answered (h p) (.spawn .evaluation context files) lines)
    (hrun : s.db.evaluationRuns.lookup t.runId = some run)
    (hconfig : s.db.evaluationConfigs.lookup run.evaluationConfigId = some config)
    (htoy : config.IsToy) : ∃ host, ToyPass env py s run config context files lines host := by
  obtain ⟨hentry, hsplit⟩ := hk.toy_context hstart hrun hconfig htoy
  obtain ⟨i, hleaves, rfl⟩ := hprinted p _ _ hspawn hentry
  obtain ⟨host, hreports⟩ := hleaves.reports
  have hreads : ∀ inputs, (readInputs py host files context).result = .ok inputs →
      AcceptedFile env host context files "model_path" "model_expected_hash" →
      AcceptedFile env host context files "dataset_path" "dataset_expected_hash" →
      Reads env py s run config host context files inputs :=
    fun inputs => hk.reads_of_accepted hstart hrun hconfig
  refine ⟨host, ?_, ?_, ?_⟩
  · intro event hline hkind
    obtain ⟨hmodelFile, hdatasetFile, before, hoccurs, _⟩ :=
      hreports event _ hline hkind (by decide)
    obtain ⟨inputs, n, entry, record, hinputs, hn, hscored⟩ := result_of_mem_trace hoccurs.mem hkind
    exact ⟨inputs, n, entry, record, hreads inputs hinputs hmodelFile hdatasetFile, hn, hscored⟩
  · intro event hline hkind
    obtain ⟨hmodelFile, hdatasetFile, before, hoccurs, _⟩ :=
      hreports event _ hline hkind (by decide)
    obtain ⟨inputs, records, metrics, m, hinputs, hrecords, hmetrics, hm, hevent⟩ :=
      metric_of_mem_trace hoccurs.mem hkind
    rw [hsplit] at hevent
    exact ⟨inputs, records, metrics, m, hreads inputs hinputs hmodelFile hdatasetFile, hrecords,
      hmetrics, hm, hevent⟩
  · intro event hline hkind
    obtain ⟨hmodelFile, hdatasetFile, before, hoccurs, hbefore⟩ :=
      hreports event _ hline hkind (by decide)
    obtain ⟨inputs, records, metrics, hinputs, hrecords, hmetrics, heq⟩ :=
      final_of_occurs hoccurs hkind
    rw [hsplit] at heq
    refine ⟨inputs, records, metrics, hreads inputs hinputs hmodelFile hdatasetFile, hrecords,
      hmetrics, fun e he => hbefore e ?_, fun m hm => hbefore _ ?_⟩
    · rw [heq]
      exact List.mem_append_left _ he
    · rw [heq]
      exact List.mem_append_right _ (List.mem_map_of_mem hm)

end Pass

/-! ### The rows of a run -/

/-- The ids of the result rows of a run. -/
def Db.resultIds (db : Db) (runId : RunId) : List String :=
  (db.evaluationResults.rows.filter fun r => r.1.1 = runId).map fun r => r.1.2

section Rows

variable {env : Env} {py : Python} {s : World} {h : Pasts} {runId : RunId} {run : EvaluationRun}
  {config : EvaluationConfig}

theorem mem_resultIds {db : Db} {id : String} :
    id ∈ db.resultIds runId ↔ (db.evaluationResults.lookup (runId, id)).isSome := by
  unfold Db.resultIds
  rw [List.mem_map]
  constructor
  · intro hmem
    obtain ⟨⟨⟨run, id'⟩, row⟩, hmem, hid⟩ := hmem
    obtain ⟨hstored, hrun⟩ := List.mem_filter.mp hmem
    have hkey : run = runId := of_decide_eq_true hrun
    rw [← hkey, ← show id' = id from hid]
    exact Option.isSome_iff_exists.mpr ⟨row, Table.mem_rows.mp hstored⟩
  · intro hrow
    obtain ⟨row, hrow⟩ := Option.isSome_iff_exists.mp hrow
    refine ⟨((runId, id), row), List.mem_filter.mpr ⟨Table.mem_rows.mpr hrow, ?_⟩, rfl⟩
    exact decide_eq_true rfl

/-- The rows of a table that belong to one first key have different second keys. -/
theorem nodup_resultIds (db : Db) (runId : RunId) : (db.resultIds runId).Nodup := by
  have hkeys : ((db.evaluationResults.rows.filter fun r => r.1.1 = runId).map Prod.fst).Nodup :=
    (Table.nodup_rows _).sublist (List.filter_sublist.map _)
  unfold Db.resultIds
  rw [show (fun r : (RunId × String) × EvaluationResult => r.1.2) = Prod.snd ∘ Prod.fst from rfl,
    ← List.map_map]
  refine List.Nodup.map_on (fun a ha b hb heq => ?_) hkeys
  have hrun : ∀ a ∈ (db.evaluationResults.rows.filter fun r => r.1.1 = runId).map Prod.fst,
      a.1 = runId := by
    intro a ha
    obtain ⟨r, hr, rfl⟩ := List.mem_map.mp ha
    exact of_decide_eq_true (List.mem_filter.mp hr).2
  exact Prod.ext ((hrun a ha).trans (hrun b hb).symm) heq

theorem mem_idTexts {examples : List Json} {id : String} :
    id ∈ idTexts env examples ↔ ∃ (n : ℕ) (entry exampleId : Json), examples[n]? = some entry ∧
      exampleId? entry = some exampleId ∧ id = env.pyStr exampleId := by
  unfold idTexts
  rw [List.mem_map]
  constructor
  · intro h
    obtain ⟨exampleId, hmem, hid⟩ := h
    obtain ⟨entry, hentry, hexample⟩ := List.mem_filterMap.mp hmem
    obtain ⟨n, hn⟩ := List.mem_iff_getElem?.mp hentry
    exact ⟨n, entry, exampleId, hn, hexample, hid.symm⟩
  · intro h
    obtain ⟨n, entry, exampleId, hn, hexample, hid⟩ := h
    exact ⟨exampleId, List.mem_filterMap.mpr ⟨entry, List.mem_of_getElem? hn, hexample⟩, hid.symm⟩

/-- **Every result row of a run is the result of an example of a pass.** -/
theorem Knows.pass_of_result (hk : Knows env s h) (hplain : PlainTexts env)
    (hprinted : ∀ p op a, History.Answered (h p) op a → PrintedByToyEvaluator env py op a)
    (hrun : s.db.evaluationRuns.lookup runId = some run)
    (hconfig : s.db.evaluationConfigs.lookup run.evaluationConfigId = some config)
    (htoy : config.IsToy) {id : String} {row : EvaluationResult}
    (hrow : s.db.evaluationResults.lookup (runId, id) = some row) :
    ∃ host context files inputs, ∃ (n : ℕ) (entry exampleId : Json) (q : ℚ),
      Reads env py s run config host context files inputs ∧ inputs.examples[n]? = some entry ∧
      exampleId? entry = some exampleId ∧ id = env.pyStr exampleId ∧
      score? inputs.param entry = some q ∧ row.score = .num q := by
  obtain ⟨p, j, w, prediction, expectedOutput, he⟩ := hk.sources.results runId id row hrow
  obtain ⟨event, value, ⟨run₀, context, files, hstart, before, after, hspawn, _⟩, hkind, hid, rfl, _, _,
    hscore, _⟩ := hk.justified he
  obtain ⟨host, hpass⟩ := hk.toyPass hprinted hstart hspawn hrun hconfig htoy
  obtain ⟨inputs, n, entry, record, hreads, hn, exampleId, _, _, hexample, rfl, hrecord, _⟩ :=
    hpass.result event (List.mem_append_right _ List.mem_cons_self) hkind
  cases hid
  exact ⟨host, context, files, inputs, n, entry, exampleId, _, hreads, hn, hexample,
    hplain.pyStr _, hrecord, hscore⟩

/-- **Every metric row of a run is a metric of a pass**, the one of the attempt that it names. -/
theorem Knows.start_of_metric (hk : Knows env s h) {name part : String} {row : EvaluationMetric}
    (hrow : s.db.evaluationMetrics.lookup (runId, name, part) = some row) :
    ∃ p j w run₀ context files lines, ∃ event : Dict,
      Past.StartsEvaluation (h p) ⟨j, w, row.attemptNumber, runId⟩ run₀ context files ∧
      History.Answered (h p) (.spawn .evaluation context files) lines ∧
      .json (.obj event) ∈ lines ∧ event.get? "event" = some (.str "metric") ∧
      (∃ metricName, event.get? "metric_name" = some metricName ∧
        env.textColumn metricName = some name) ∧
      event.get? "metric_value" = some row.metricValue ∧
      intColumn env (event.getD "sample_count" (.num 0)) = some row.sampleCount := by
  obtain ⟨p, j, w, metricName, split, count, hname, _, hcount, he⟩ :=
    hk.sources.evaluationMetrics runId name part row hrow
  obtain ⟨event, ⟨run₀, context, files, hstart, before, after, hspawn, _⟩, hkind, hmetric, hvalue, _,
    rfl⟩ := hk.justified he
  exact ⟨p, j, w, run₀, context, files, _, event, hstart, hspawn,
    List.mem_append_right _ List.mem_cons_self, hkind, ⟨metricName, hmetric, hname⟩, hvalue, hcount⟩

end Rows

/-! ### Completeness -/

section Complete

variable {env : Env} {py : Python} {s : World} {h : Pasts} {runId : RunId} {run : EvaluationRun}
  {config : EvaluationConfig}

/-- **A completed run has a row for each example, and each metric once.** -/
theorem Delivered.complete (hd : Delivered env s h runId) (hk : Knows env s h)
    (hplain : PlainTexts env)
    (hprinted : ∀ p op a, History.Answered (h p) op a → PrintedByToyEvaluator env py op a)
    (hrun : s.db.evaluationRuns.lookup runId = some run)
    (hconfig : s.db.evaluationConfigs.lookup run.evaluationConfigId = some config)
    (htoy : config.IsToy) :
    ∃ host context files inputs records metrics,
      Reads env py s run config host context files inputs ∧
      (scoreExamples env host inputs.param 0 inputs.examples).result = .ok records ∧
      aggregate records = some metrics ∧
      (∀ id ∈ idTexts env inputs.examples, (s.db.evaluationResults.lookup (runId, id)).isSome) ∧
      ∀ m ∈ metrics, ∃ part, env.textColumn config.split = some part ∧
        (s.db.evaluationMetrics.lookup (runId, m.metricName, part)).isSome := by
  obtain ⟨p, t, run₀, context, files, lines, rfl, hstart, hspawn, ⟨final, hfinal, hkind⟩, hrows⟩ := hd
  obtain ⟨host, hpass⟩ := hk.toyPass hprinted hstart hspawn hrun hconfig htoy
  obtain ⟨inputs, records, metrics, hreads, hrecords, hmetrics, hresults, hreported⟩ :=
    hpass.final final hfinal hkind
  refine ⟨host, context, files, inputs, records, metrics, hreads, hrecords, hmetrics,
    fun id hid => ?_, fun m hm => ?_⟩
  · obtain ⟨n, entry, exampleId, hn, hexample, rfl⟩ := mem_idTexts.mp hid
    obtain ⟨record, event, _, ⟨exampleId', _, _, hexample', rfl, _, _⟩, hmem⟩ :=
      (scoreExamples_spec hrecords).2 n entry hn
    rw [hexample] at hexample'
    cases hexample'
    obtain ⟨_, hvalue, hrow⟩ := (hrows _ (hresults _ hmem)).result rfl
    cases hvalue
    rwa [hplain.pyStr] at hrow
  · obtain ⟨_, name, part, hvalue, hname, hpart, hrow⟩ := (hrows _ (hreported m hm)).metric rfl
    cases hvalue
    rw [← hplain.textColumn _ _ hname]
    exact ⟨part, hpart, hrow⟩

variable {es : List (SysEvent env)} {c : System env} {data : Bytes}

/-- **The result rows of a completed run** are those of the first examples of its dataset. -/
theorem completed_ids (hplain : PlainTexts env) (h : Reaches s es c)
    (htoy : Runs.Always Config.step (Config.AtStep (RunsToyEvaluator env py))
      ({ shared := s } : System env) es)
    (hrun : c.shared.db.evaluationRuns.lookup runId = some run) (hs : run.status = .succeeded)
    (hconfig : c.shared.db.evaluationConfigs.lookup run.evaluationConfigId = some config)
    (hconfigured : config.IsToy) (hdata : c.shared.HasDataset env run data) :
    ∃ ids, exampleIds env py data (.ofNat? config.maxExamples) = some ids ∧
      ∀ id, id ∈ c.shared.db.resultIds runId ↔ id ∈ ids := by
  have hk := knows_of_reaches h
  have hprinted : ∀ p op a, History.Answered (pasts env s es p) op a →
      PrintedByToyEvaluator env py op a := fun p op a ha => printed_of_reaches h htoy ha
  obtain ⟨host, context, files, inputs, records, metrics, hreads, _, _, hids, _⟩ :=
    (delivered_of_reaches h runId run hrun hs).complete hk hplain hprinted hrun hconfig hconfigured
  have hexamples := hreads.dataset data hdata
  refine ⟨idTexts env inputs.examples, ?_, fun id => ?_⟩
  · unfold exampleIds
    rw [hexamples]
    rfl
  · rw [mem_resultIds]
    refine ⟨fun hrow => ?_, hids id⟩
    obtain ⟨row, hrow⟩ := Option.isSome_iff_exists.mp hrow
    obtain ⟨_, _, _, inputs', n, entry, exampleId, _, hreads', hn, hexample, hid, _⟩ :=
      hk.pass_of_result hplain hprinted hrun hconfig hconfigured hrow
    -- both passes have read the same examples
    have hsame : inputs'.examples = inputs.examples :=
      Except.ok.inj ((hreads'.dataset data hdata).symm.trans hexamples)
    rw [hsame] at hn
    exact mem_idTexts.mpr ⟨n, entry, exampleId, hn, hexample, hid⟩

/-- **The metric rows of a completed run** that has scored an example: each of the five metrics has one,
that of the split of the configuration. -/
theorem completed_metrics (hplain : PlainTexts env) (h : Reaches s es c)
    (htoy : Runs.Always Config.step (Config.AtStep (RunsToyEvaluator env py))
      ({ shared := s } : System env) es)
    (hrun : c.shared.db.evaluationRuns.lookup runId = some run) (hs : run.status = .succeeded)
    (hconfig : c.shared.db.evaluationConfigs.lookup run.evaluationConfigId = some config)
    (hconfigured : config.IsToy) (hdata : c.shared.HasDataset env run data) {ids : List String}
    (hids : exampleIds env py data (.ofNat? config.maxExamples) = some ids) (hne : ids ≠ []) :
    ∃ part, env.textColumn config.split = some part ∧ ∀ name ∈ metricNames, ∀ part',
      (c.shared.db.evaluationMetrics.lookup (runId, name, part')).isSome ↔ part' = part := by
  have hk := knows_of_reaches h
  have hprinted : ∀ p op a, History.Answered (pasts env s es p) op a →
      PrintedByToyEvaluator env py op a := fun p op a ha => printed_of_reaches h htoy ha
  obtain ⟨host, context, files, inputs, records, metrics, hreads, hrecords, hmetrics, _, hparts⟩ :=
    (delivered_of_reaches h runId run hrun hs).complete hk hplain hprinted hrun hconfig hconfigured
  have hexamples : idTexts env inputs.examples = ids := by
    unfold exampleIds at hids
    rw [hreads.dataset data hdata] at hids
    exact Option.some.inj hids
  rw [← hexamples] at hne
  obtain ⟨id, hid⟩ := List.exists_mem_of_ne_nil _ hne
  obtain ⟨n, entry, _, hn, _⟩ := mem_idTexts.mp hid
  obtain ⟨record, event, hrecord, ⟨_, _, _, _, _, _, hlatency⟩, _⟩ :=
    (scoreExamples_spec hrecords).2 n entry hn
  have hnames : metrics.map (fun m => m.metricName) = metricNames :=
    aggregate_names (List.mem_of_getElem? hrecord) (by rw [hlatency]; rfl) hmetrics
  have hreported : ∀ name ∈ metricNames, ∃ part, env.textColumn config.split = some part ∧
      (c.shared.db.evaluationMetrics.lookup (runId, name, part)).isSome := by
    intro name hname
    rw [← hnames] at hname
    obtain ⟨m, hm, rfl⟩ := List.mem_map.mp hname
    exact hparts m hm
  obtain ⟨part, hpart, _⟩ := hreported "exact_match" List.mem_cons_self
  refine ⟨part, hpart, fun name hname part' => ⟨fun hrow => ?_, fun heq => ?_⟩⟩
  · obtain ⟨row, hrow⟩ := Option.isSome_iff_exists.mp hrow
    have hsplit := hk.split_of_row hprinted hrun hconfig hconfigured hrow
    exact Option.some.inj (hsplit.symm.trans hpart)
  · obtain ⟨part'', hpart'', hrow⟩ := hreported name hname
    rw [hpart] at hpart''
    cases hpart''
    rw [heq]
    exact hrow

/-- **No evaluation result is lost**: when a run of the toy evaluator is SUCCEEDED, its rows are those
of the first examples of its dataset, and if there are any, each of the five metrics has one row, that
of the split of the configuration. -/
theorem completed_results (hplain : PlainTexts env) (h : Reaches s es c)
    (htoy : Runs.Always Config.step (Config.AtStep (RunsToyEvaluator env py))
      ({ shared := s } : System env) es)
    (hrun : c.shared.db.evaluationRuns.lookup runId = some run) (hs : run.status = .succeeded)
    (hconfig : c.shared.db.evaluationConfigs.lookup run.evaluationConfigId = some config)
    (hconfigured : config.IsToy) (hdata : c.shared.HasDataset env run data) :
    ∃ ids, exampleIds env py data (.ofNat? config.maxExamples) = some ids ∧
      (c.shared.db.resultIds runId).Nodup ∧
      (∀ id, id ∈ c.shared.db.resultIds runId ↔ id ∈ ids) ∧
      (ids ≠ [] → ∃ part, env.textColumn config.split = some part ∧
        ∀ name ∈ metricNames, ∀ part',
          (c.shared.db.evaluationMetrics.lookup (runId, name, part')).isSome ↔ part' = part) := by
  obtain ⟨ids, hids, hresults⟩ := completed_ids hplain h htoy hrun hs hconfig hconfigured hdata
  refine ⟨ids, hids, nodup_resultIds _ _, hresults, fun hne => ?_⟩
  exact completed_metrics hplain h htoy hrun hs hconfig hconfigured hdata hids hne

end Complete

/-! ### A completed run -/

theorem plainTexts_digesting : PlainTexts .digesting where
  pyStr _ := rfl
  textColumn _ _ h := (Option.some.inj h).symm

/-- What a pass that is not interrupted prints in the attempt of a ticket. -/
def toyLines (env : Env) (host : Host) (t : Ticket) (config : EvaluationConfig)
    (model dataset : Bytes) : List Line :=
  let inputs : EvaluationInputs :=
    { model := (model, env.sha256 model), dataset := (dataset, env.sha256 dataset) }
  let context := evaluationContext t (some config) [] inputs
  let files := evaluationFiles t inputs
  let acts := (evaluationMain env host files context
    (ToyEvaluator.run env .standard host files context)).trace
  (acts.filterMap Action.event?).map fun event => .json (.obj event)

/-- What the toy evaluator is given in that attempt. -/
def toyPass (env : Env) (host : Host) (t : Ticket) (config : EvaluationConfig)
    (model dataset : Bytes) : ToyEvaluator.Pass :=
  let inputs : EvaluationInputs :=
    { model := (model, env.sha256 model), dataset := (dataset, env.sha256 dataset) }
  { host := host
    context := evaluationContext t (some config) [] inputs
    files := evaluationFiles t inputs }

/-- An evaluation is created, admitted and executed. -/
def toyJob (env : Env) (n : ℕ) (i : Input) : List (SysEvent env) :=
  session 0 (.createEvaluation evaluationPayload) 6 { uuid := 1 } ++
    session 1 .schedulerRunOnce 8 {} ++ session 2 (.processJobMessage 1 7) n i

theorem toyJob_supplied {env : Env} {P : ℕ → Input → Prop} {n : ℕ} {i : Input}
    (hcreated : P 0 { uuid := 1 }) (hscheduled : P 1 {}) (hexecuted : P 2 i) :
    ∀ e ∈ toyJob env n i, SuppliedWith P e := by
  unfold toyJob
  simp only [List.forall_mem_append]
  exact ⟨⟨suppliedWith_session hcreated, suppliedWith_session hscheduled⟩,
    suppliedWith_session hexecuted⟩

/-- The fields of an example that every model answers in one way. -/
def exampleFields (id expected : String) : Json :=
  .obj [("id", .str id), ("input", .str "a"), ("expected_output", .str expected)]

/-- A dataset with two examples. -/
def twoExamples : Bytes :=
  Codec.dumps (.obj [("examples", .arr [exampleFields "e1" "a", exampleFields "e2" "b"])])

def completeStart (dataset : Bytes) : World :=
  .evaluable .digesting (splitConfig "all") modelFile dataset

def completeJob (dataset : Bytes) : List (SysEvent Env.digesting) :=
  toyJob .digesting 40
    { now := 1
      lines := toyLines .digesting (.steady 0) ⟨1, 7, 1, 1⟩ (splitConfig "all") modelFile dataset }

theorem completeStart_initial (dataset : Bytes) : (completeStart dataset).Initial :=
  World.evaluable_initial _ _ _ _

/-- The dataset of the start is there in every state that is reached. -/
theorem completeStart_hasDataset {dataset : Bytes} {es : List (SysEvent Env.digesting)}
    {c : System .digesting} (hc : Reaches (completeStart dataset) es c) {run : EvaluationRun}
    (hrun : run.dataset = (1, 1)) : c.shared.HasDataset .digesting run dataset := by
  refine kept_of_reaches (P := fun s => s.HasDataset .digesting run dataset)
    (fun _ _ hgrow h => h.grow hgrow) hc List.nil_prefix rfl ?_
  refine ⟨2, ?_, ⟨_, rfl, fun d => Codec.digest_injective.eq_iff⟩⟩
  rw [hrun]
  rfl

theorem completeStart_hasModel {dataset : Bytes} {es : List (SysEvent Env.digesting)}
    {c : System .digesting} (hc : Reaches (completeStart dataset) es c) {run : EvaluationRun}
    (hrun : run.model = (1, 1)) : c.shared.HasModel .digesting run modelFile := by
  refine kept_of_reaches (P := fun s => s.HasModel .digesting run modelFile)
    (fun _ _ hgrow h => h.grow hgrow) hc List.nil_prefix rfl ?_
  refine ⟨{ artifactId := 1 }, ?_, ⟨_, rfl, fun d => Codec.digest_injective.eq_iff⟩⟩
  rw [hrun]
  rfl

theorem completeStart_config {dataset : Bytes} {es : List (SysEvent Env.digesting)}
    {c : System .digesting} (hc : Reaches (completeStart dataset) es c) {run : EvaluationRun}
    (hrun : run.evaluationConfigId = 1) :
    c.shared.db.evaluationConfigs.lookup run.evaluationConfigId = some (splitConfig "all") := by
  rw [hrun, evaluationConfigs_of_reaches hc]
  rfl

/-- The job prints what the toy evaluator does on a machine that is infinitely fast. -/
theorem completeJob_prints (dataset : Bytes) : ∀ e ∈ completeJob dataset, SuppliedWith (fun _ i =>
    (toyPass .digesting (.steady 0) ⟨1, 7, 1, 1⟩ (splitConfig "all") modelFile dataset).Prints
      .digesting i) e :=
  toyJob_supplied ⟨rfl, .inl rfl⟩ ⟨rfl, .inl rfl⟩ ⟨rfl, .inr rfl⟩

theorem twoExamples_toy : Runs.Always Config.step
    (Config.AtStep (RunsToyEvaluator .digesting .standard))
    ({ shared := completeStart twoExamples } : System .digesting) (completeJob twoExamples) :=
  runsToyEvaluator_of_check _ _ _ (completeJob_prints twoExamples) (by decide +kernel)

/-- The job with two examples ends: both count, and one attempt has reported the percentiles. -/
theorem twoExamples_completed : ∃ c : System .digesting,
    Reaches (completeStart twoExamples) (completeJob twoExamples) c ∧
      (∃ run ∈ c.shared.db.evaluationRuns.lookup 1, run.status = .succeeded ∧
        run.evaluationConfigId = 1 ∧ run.model = (1, 1) ∧ run.dataset = (1, 1)) ∧
      (∃ metric ∈ c.shared.db.evaluationMetrics.lookup (1, "exact_match", "all"),
        metric.sampleCount = 2) ∧
      ∃ p50 ∈ c.shared.db.evaluationMetrics.lookup (1, "latency_p50_ms", "all"),
      ∃ p95 ∈ c.shared.db.evaluationMetrics.lookup (1, "latency_p95_ms", "all"),
        p50.attemptNumber = p95.attemptNumber :=
  exists_reaches (completeStart_initial twoExamples) (completeJob twoExamples) (by decide +kernel)

theorem completed_results_two : ∃ c : System .digesting,
    Reaches (completeStart twoExamples) (completeJob twoExamples) c ∧
      (∀ id, id ∈ c.shared.db.resultIds 1 ↔ id ∈ ["e1", "e2"]) ∧
      ∀ name ∈ metricNames, ∀ part,
        (c.shared.db.evaluationMetrics.lookup (1, name, part)).isSome ↔ part = "all" := by
  obtain ⟨c, hc, ⟨run, hrun, hs, hconfigId, _, hdatasetId⟩, _⟩ := twoExamples_completed
  have htoy := twoExamples_toy
  obtain ⟨ids, hids, _, hresults, hmetrics⟩ := completed_results plainTexts_digesting hc htoy hrun hs
    (completeStart_config hc hconfigId) rfl (completeStart_hasDataset hc hdatasetId)
  have heq : exampleIds .digesting .standard twoExamples .null = some ["e1", "e2"] := by
    decide +kernel
  obtain rfl : ids = ["e1", "e2"] := Option.some.inj (hids.symm.trans heq)
  obtain ⟨part, hpart, hevery⟩ := hmetrics (List.cons_ne_nil _ _)
  cases hpart
  exact ⟨c, hc, hresults, hevery⟩

end PosttrainPlatform
