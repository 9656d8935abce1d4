import PosttrainPlatform.Properties.Aggregates

/-!
# Evaluations that are repeated

The toy evaluator scores the same examples alike in every pass over a model and a dataset.  Of examples
with one id the first one has the row of the run, whichever attempt has written it.  So what a completed
run says of its model depends on the two files and on `max_examples` only; the latencies are those of
the machine.
-/

namespace PosttrainPlatform

open Doubles Programs Process Traces ToyEvaluator EvaluationMetrics

/-! ### Results in turn -/

section Turn

variable {env : Env} {py : Python} {host : Host} {param : Number} {files : List (String × Bytes)}
  {context : Dict} {x : Action} {before : List Action}

/-- The examples in front of this one have been reported. -/
def ToyEvaluator.ReportedBefore (env : Env) (host : Host) (param : Number) (position : ℕ)
    (examples : List Json) (n : ℕ) (reported : Dict → Prop) : Prop :=
  ∀ m < n, ∃ entry record event, examples[m]? = some entry ∧
    Scored env host param (position + m) entry record event ∧ reported event

/-- **A result comes after those of the examples in front of it.** -/
theorem occurs_scoreExamples {position : ℕ} {examples : List Json}
    (h : Occurs before x (scoreExamples env host param position examples).trace) :
    ∃ n entry record event, examples[n]? = some entry ∧
      Scored env host param (position + n) entry record event ∧ x = .report event ∧
      ReportedBefore env host param position examples n fun e => .report e ∈ before := by
  induction examples generalizing position before with
  | nil => exact absurd h not_occurs_nil
  | cons entry examples ih =>
      obtain hfirst | ⟨record, rest, hrecord, hbefore, hlater⟩ := occurs_bind h
      · obtain ⟨record, hrecord⟩ := scored_of_mem_trace hfirst.mem
        obtain ⟨event, hscored, htrace⟩ := trace_scoreExample hrecord
        rw [htrace] at hfirst
        exact ⟨0, entry, record, event, rfl, hscored, (occurs_singleton.mp hfirst).2,
          fun m hm => absurd hm (Nat.not_lt_zero m)⟩
      · obtain hrest | ⟨records, tail, _, _, hlast⟩ := occurs_bind hlater
        · obtain ⟨n, entry', record', event, hn, hscored, hx, hreported⟩ := ih hrest
          rw [hbefore]
          refine ⟨n + 1, entry', record', event, hn, ?_, hx, fun m hm => ?_⟩
          · rwa [Nat.add_right_comm, Nat.add_assoc] at hscored
          · cases m with
            | zero =>
                obtain ⟨event₀, hscored₀, htrace⟩ := trace_scoreExample hrecord
                refine ⟨entry, record, event₀, rfl, hscored₀, List.mem_append_left _ ?_⟩
                rw [htrace]
                exact List.mem_singleton_self _
            | succ m =>
                obtain ⟨entry₁, record₁, event₁, hm', hscored₁, hmem⟩ :=
                  hreported m (Nat.lt_of_succ_lt_succ hm)
                refine ⟨entry₁, record₁, event₁, hm', ?_, List.mem_append_right _ hmem⟩
                rwa [Nat.add_right_comm, Nat.add_assoc] at hscored₁
        · exact absurd hlast.mem List.not_mem_nil

/-- A result of the evaluator is that of an example, in turn. -/
theorem result_of_occurs {e : Dict}
    (h : Occurs before (.report e) (run env py host files context).trace)
    (hkind : e.get? "event" = some (.str "result")) :
    ∃ inputs n entry record, (readInputs py host files context).result = .ok inputs ∧
      inputs.examples[n]? = some entry ∧ Scored env host inputs.param n entry record e ∧
      ReportedBefore env host inputs.param 0 inputs.examples n fun e => .report e ∈ before := by
  obtain ⟨inputs, hinputs, h⟩ := occurs_bind_of_silent trace_readInputs h
  obtain hresult | ⟨records, tail, _, _, h⟩ := occurs_bind h
  · obtain ⟨n, entry, record, event, hn, hscored, hx, hreported⟩ := occurs_scoreExamples hresult
    cases hx
    rw [Nat.zero_add] at hscored
    exact ⟨inputs, n, entry, record, hinputs, hn, hscored, hreported⟩
  · -- what follows the loop are metrics and the final event
    obtain ⟨metrics, _, h⟩ := occurs_bind_of_silent (Script.trace_found _ _) h
    obtain hmetric | ⟨_, rest, _, _, hfinal⟩ := occurs_bind h
    · have hmem := hmetric.mem
      rw [(trace_reportMetrics _ _).1] at hmem
      obtain ⟨m, _, hx⟩ := List.mem_map.mp hmem
      cases hx
      exact absurd (Json.str.inj (Option.some.inj hkind)) (by decide)
    · cases (occurs_singleton.mp hfinal).2
      exact absurd (Json.str.inj (Option.some.inj hkind)) (by decide)

/-- **Every result in the output of a pass** is that of an example, and the results of the examples in
front of it stand in earlier lines. -/
theorem ToyEvaluator.Leaves.result {i : Input} (h : ToyEvaluator.Leaves env py context files i)
    {before after : List Line} {event : Dict}
    (hlines : i.lines = before ++ .json (.obj event) :: after)
    (hkind : event.get? "event" = some (.str "result")) :
    ∃ host inputs n entry record, (readInputs py host files context).result = .ok inputs ∧
      AcceptedFile env host context files "model_path" "model_expected_hash" ∧
      AcceptedFile env host context files "dataset_path" "dataset_expected_hash" ∧
      inputs.examples[n]? = some entry ∧ Scored env host inputs.param n entry record event ∧
      ReportedBefore env host inputs.param 0 inputs.examples n fun e => .json (.obj e) ∈ before := by
  obtain ⟨host, acts, hacts, hleaves⟩ := h
  obtain ⟨pre, hoccurs, hearlier⟩ := hleaves.occurs hlines
  obtain hframing | ⟨hmodel, hdataset, y, z, tail, rfl, htail⟩ :=
    occurs_evaluationMain (hoccurs.mono hacts)
  · exact absurd hframing (not_framing hkind (by decide))
  · obtain ⟨inputs, n, entry, record, hinputs, hn, hscored, hreported⟩ :=
      result_of_occurs htail hkind
    refine ⟨host, inputs, n, entry, record, hinputs, hmodel, hdataset, hn, hscored, fun m hm => ?_⟩
    obtain ⟨entry', record', event', hm', hscored', hmem⟩ := hreported m hm
    exact ⟨entry', record', event', hm', hscored',
      hearlier _ (List.mem_cons_of_mem _ (List.mem_cons_of_mem _ hmem))⟩

end Turn

/-! ### The first result with an id -/

/-- The event is a result for the example with this id. -/
def Dict.ResultFor (env : Env) (id : String) (e : Dict) : Prop :=
  e.get? "event" = some (.str "result") ∧ ∃ value, e.get? "example_id" = some value ∧
    env.pyStr value = id

/-- A subprocess of the run has printed a result with this score, the first one for its id. -/
def Past.FirstResult (env : Env) (h : Past) (runId : RunId) (id : String) (score : Json) : Prop :=
  ∃ t run context files before after, ∃ event : Dict, t.runId = runId ∧
    h.StartsEvaluation t run context files ∧
    h.Answered (.spawn .evaluation context files) (before ++ .json (.obj event) :: after) ∧
    event.ResultFor env id ∧ score = event.getD "score" .null ∧
    ∀ e : Dict, .json (.obj e) ∈ before → ¬ e.ResultFor env id

/-- **Every row has the first result with its id** of some subprocess. -/
def FirstResults (env : Env) (s : World) (h : Pasts) : Prop :=
  ∀ runId id row, s.db.evaluationResults.lookup (runId, id) = some row →
    ∃ q, Past.FirstResult env (h q) runId id row.score

section First

variable {env : Env} {p : ℕ} {s s' : World} {h h' : Pasts}

theorem RecordStep.result {db : Db} {i : Input} {op : Op} {c : Records}
    (hstep : RecordStep env db i op c) {runId : RunId} {id : String} {row : EvaluationResult}
    (hrow : c.evaluationResults.lookup (runId, id) = some row) :
    db.evaluationResults.lookup (runId, id) = some row ∨
      ∃ j w k prediction expectedOutput latencyMs,
        op = .recordResult j w runId k id prediction expectedOutput row.score latencyMs ∧
          db.Owns j w k ∧ db.evaluationResults.lookup (runId, id) = none := by
  cases hstep with
  | recordResult howns hfree =>
      obtain ⟨hkey, rfl⟩ | hold := lookup_insert_cases hrow
      · cases hkey
        exact Or.inr ⟨_, _, _, _, _, _, rfl, howns, hfree⟩
      · exact Or.inl hold
  | _ => exact Or.inl hrow

theorem Past.FirstResult.mono {m m' : Past} (hsub : m ⊆ m') {runId : RunId} {id : String}
    {score : Json} (hf : m.FirstResult env runId id score) : m'.FirstResult env runId id score := by
  obtain ⟨t, run, context, files, before, after, event, hrun, hstart, hspawn, hrest⟩ := hf
  exact ⟨t, run, context, files, before, after, event, hrun, hstart.mono hsub, hspawn.mono hsub, hrest⟩

theorem FirstResults.grow (hf : FirstResults env s h)
    (hsame : s'.db.evaluationResults = s.db.evaluationResults) (hsub : ∀ q, h q ⊆ h' q) :
    FirstResults env s' h' := by
  intro runId id row hrow
  rw [hsame] at hrow
  obtain ⟨q, hfirst⟩ := hf runId id row hrow
  exact ⟨q, hfirst.mono (hsub q)⟩

/-- **A row is written only for the first result with its id**: those before it have been handled, and
one of them with this id would have left its row. -/
theorem FirstResults.perform (hf : FirstResults env s h) (hk : Knows env s h) {op : Op}
    (hop : Past.Disciplined env (h p) op) (i : Input) :
    FirstResults env (op.perform env p i s).1 (h.add p ⟨op, (op.perform env p i s).2⟩) := by
  intro runId id row hrow
  obtain hold | ⟨j, w, k, prediction, expectedOutput, latencyMs, rfl, howns, hfree⟩ :=
    (perform_records env p i s op).result hrow
  · obtain ⟨q, hfirst⟩ := hf runId id row hold
    exact ⟨q, hfirst.mono (Histories.subset_add h p q _)⟩
  obtain ⟨event, value, ⟨run, context, files, hstart, before, after, hspawn, hhandled⟩, hkind, hid, rfl,
    _, _, hscore, _⟩ := hop.2
  have hsub := Histories.subset_add h p p ⟨_, ((Op.recordResult j w runId k (env.pyStr value)
    prediction expectedOutput row.score latencyMs).perform env p i s).2⟩
  refine ⟨p, ⟨j, w, k, runId⟩, run, context, files, before, after, event, rfl, hstart.mono hsub,
    hspawn.mono hsub, ⟨hkind, value, hid, rfl⟩, hscore, fun e he hsame => ?_⟩
  obtain ⟨hresult, value', hid', heq⟩ := hsame
  obtain ⟨exampleId, b, hexample, hrecord⟩ := (hhandled e he).result hresult
  obtain rfl : exampleId = value' := Option.some.inj (hexample.symm.trans hid')
  obtain hlost | hthere := hk.told p _ _ hrecord
  · exact not_lost_of_owns howns hlost
  · rw [heq, hfree] at hthere
    cases hthere

theorem firstResults_invariant (env : Env) :
    HistoryInvariant (M := platform env) (Past.Disciplined env) (FirstResults env) (Knows env)
      fun _ _ _ => True where
  perform _ i _ _ _ _ hk hf hop _ := hf.perform hk hop i
  fault p _ _ _ h _ hf _ := hf.grow rfl fun q => Histories.subset_add h p q _
  halt _ _ _ _ hf := hf.grow rfl fun _ _ hd => hd
  ambient a s h _ hf := by
    refine hf.grow ?_ fun _ _ hd => hd
    show (s.beat env a.1 a.2).db.evaluationResults = _
    rw [beat_frame]

theorem firstResults_of_reaches {s : World} {es : List (SysEvent env)} {c : System env}
    (h : Reaches s es c) : FirstResults env c.shared (pasts env s es) := by
  refine (firstResults_invariant env).run (disciplined_program env) (fun runId id row hrow => ?_)
    (fun fs m _ hm => knows_of_reaches ⟨h.1, hm⟩)
    (Runs.always_of_forall (Config.atStep_of_forall fun _ _ _ => trivial) _ es) h.2
  rw [h.1.db] at hrow
  cases hrow

end First

/-! ### The scores of a run -/

section Scores

variable {env : Env} {py : Python} {s : World} {h : Pasts} {p : ℕ} {runId : RunId}
  {run : EvaluationRun} {config : EvaluationConfig} {examples : List Json} {id : String}

/-- The first example with this id. -/
def ToyEvaluator.firstExample (env : Env) (examples : List Json) (id : String) : Option Json :=
  examples.find? fun entry => idText env entry = id

/-- An example with this id, and none before it. -/
theorem firstExample_of_getElem? {n : ℕ} {entry : Json} (hn : examples[n]? = some entry)
    (hid : idText env entry = id)
    (hfirst : ∀ m < n, ∀ entry', examples[m]? = some entry' → idText env entry' ≠ id) :
    firstExample env examples id = some entry := by
  obtain ⟨hlt, hentry⟩ := List.getElem?_eq_some_iff.mp hn
  refine List.find?_eq_some_iff_getElem.mpr ⟨decide_eq_true hid, n, hlt, hentry, fun m hm => ?_⟩
  have hm' := List.getElem?_eq_getElem (hm.trans hlt)
  simpa using hfirst m hm _ hm'

theorem ToyEvaluator.Scored.resultFor {host : Host} {param : Number} {position : ℕ} {entry : Json}
    {record : ExampleRecord} {event : Dict} (hplain : PlainTexts env)
    (h : Scored env host param position entry record event) :
    event.ResultFor env (idText env entry) := by
  obtain ⟨exampleId, prediction, expected, hexample, rfl, _⟩ := h
  exact ⟨rfl, _, rfl, (hplain.pyStr _).trans (idText_of_example hexample).symm⟩

theorem Dict.ResultFor.unique {event : Dict} {id' : String} (h : event.ResultFor env id)
    (h' : event.ResultFor env id') : id = id' := by
  obtain ⟨_, value, hvalue, rfl⟩ := h
  obtain ⟨_, value', hvalue', rfl⟩ := h'
  rw [Option.some.inj (hvalue.symm.trans hvalue')]

/-- **A score is that of the first example with its id**, in the files of the run. -/
theorem Knows.score_of_first (hk : Knows env s h) (hplain : PlainTexts env)
    (hprinted : ∀ p op a, History.Answered (h p) op a → PrintedByToyEvaluator env py op a)
    (hrun : s.db.evaluationRuns.lookup runId = some run)
    (hconfig : s.db.evaluationConfigs.lookup run.evaluationConfigId = some config)
    (htoy : config.IsToy) {score : Json} (hfirst : Past.FirstResult env (h p) runId id score) :
    ∃ host context files inputs entry, Reads env py s run config host context files inputs ∧
      firstExample env inputs.examples id = some entry ∧
      score = .num (scoreOf inputs.param entry) := by
  obtain ⟨t, run₀, context, files, before, after, event, rfl, hstart, hspawn, hresult, rfl, hnone⟩ :=
    hfirst
  obtain ⟨hentry, _⟩ := hk.toy_context hstart hrun hconfig htoy
  obtain ⟨i, hleaves, hlines⟩ := hprinted p _ _ hspawn hentry
  obtain ⟨host, inputs, n, entry, record, hinputs, hmodel, hdataset, hn, hscored, hreported⟩ :=
    hleaves.result hlines hresult.1
  have hid : idText env entry = id := (hscored.resultFor hplain).unique hresult
  refine ⟨host, context, files, inputs, entry,
    hk.reads_of_accepted hstart hrun hconfig hinputs hmodel hdataset,
    firstExample_of_getElem? hn hid fun m hm entry' hm' hsame => ?_, ?_⟩
  · -- the result of an earlier example with this id would stand before it
    obtain ⟨entry₁, record₁, event₁, hentry₁, hscored₁, hbefore⟩ := hreported m hm
    obtain rfl : entry' = entry₁ := Option.some.inj (hm'.symm.trans hentry₁)
    refine hnone event₁ hbefore ?_
    rw [← hsame]
    exact hscored₁.resultFor hplain
  · obtain ⟨_, _, _, _, rfl, hscore, _⟩ := hscored
    rw [scoreOf_of_score hscore]
    rfl

variable {es : List (SysEvent env)} {c : System env} {model dataset : Bytes}

/-- **The scores of a run are those of its files.** -/
theorem scores_determined (hplain : PlainTexts env) (h : Reaches s es c)
    (htoy : Runs.Always Config.step (Config.AtStep (RunsToyEvaluator env py))
      ({ shared := s } : System env) es)
    (hrun : c.shared.db.evaluationRuns.lookup runId = some run)
    (hconfig : c.shared.db.evaluationConfigs.lookup run.evaluationConfigId = some config)
    (hconfigured : config.IsToy) (hmodel : c.shared.HasModel env run model)
    (hdataset : c.shared.HasDataset env run dataset) {row : EvaluationResult}
    (hrow : c.shared.db.evaluationResults.lookup (runId, id) = some row) :
    ∃ param examples entry, (modelParam py model).result = .ok param ∧
      (datasetExamples py dataset (.ofNat? config.maxExamples)).result = .ok examples ∧
      firstExample env examples id = some entry ∧ row.score = .num (scoreOf param entry) := by
  obtain ⟨q, hfirst⟩ := firstResults_of_reaches h runId id row hrow
  obtain ⟨_, _, _, inputs, entry, hreads, hentry, hscore⟩ := (knows_of_reaches h).score_of_first hplain
    (fun p op a ha => printed_of_reaches h htoy ha) hrun hconfig hconfigured hfirst
  exact ⟨_, _, entry, hreads.model model hmodel, hreads.dataset dataset hdataset, hentry, hscore⟩

end Scores

/-! ### The accuracies of a run -/

section Accuracies

variable {env : Env} {host host' : Host} {param : Number}

/-- What a record says of the model, and not of the machine. -/
def EvaluationMetrics.ExampleRecord.accuracies (r : ExampleRecord) : ℚ × ℚ :=
  (r.exactMatch, r.tokenAccuracy)

theorem scoreExample_agree {position : ℕ} {entry : Json} {r r' : ExampleRecord}
    (h : (scoreExample env host param position entry).result = .ok r)
    (h' : (scoreExample env host' param position entry).result = .ok r') :
    r.accuracies = r'.accuracies := by
  obtain ⟨fields, hfields, h⟩ := Script.result_bind_eq_ok.mp h
  obtain ⟨exampleId, _, h⟩ := Script.result_bind_eq_ok.mp h
  obtain ⟨input, hinput, h⟩ := Script.result_bind_eq_ok.mp h
  obtain ⟨expected, hexpected, h⟩ := Script.result_bind_eq_ok.mp h
  obtain ⟨_, _, h⟩ := Script.result_bind_eq_ok.mp h
  obtain ⟨fields', hfields', h'⟩ := Script.result_bind_eq_ok.mp h'
  obtain ⟨exampleId', _, h'⟩ := Script.result_bind_eq_ok.mp h'
  obtain ⟨input', hinput', h'⟩ := Script.result_bind_eq_ok.mp h'
  obtain ⟨expected', hexpected', h'⟩ := Script.result_bind_eq_ok.mp h'
  obtain ⟨_, _, h'⟩ := Script.result_bind_eq_ok.mp h'
  obtain rfl : fields = fields' := Except.ok.inj (hfields.symm.trans hfields')
  obtain rfl : input = input' := Except.ok.inj (hinput.symm.trans hinput')
  obtain rfl : expected = expected' := Except.ok.inj (hexpected.symm.trans hexpected')
  rw [← Except.ok.inj h, ← Except.ok.inj h']
  rfl

/-- **Two passes over the same examples record the same accuracies.** -/
theorem scoreExamples_agree {position : ℕ} {examples : List Json} {records records' : List ExampleRecord}
    (h : (scoreExamples env host param position examples).result = .ok records)
    (h' : (scoreExamples env host' param position examples).result = .ok records') :
    records.map (fun r => r.accuracies) = records'.map fun r => r.accuracies := by
  induction examples generalizing position records records' with
  | nil => rw [← Except.ok.inj h, ← Except.ok.inj h']
  | cons entry examples ih =>
      obtain ⟨r, hr, h⟩ := Script.result_bind_eq_ok.mp h
      obtain ⟨rest, hrest, h⟩ := Script.result_bind_eq_ok.mp h
      obtain ⟨r', hr', h'⟩ := Script.result_bind_eq_ok.mp h'
      obtain ⟨rest', hrest', h'⟩ := Script.result_bind_eq_ok.mp h'
      rw [← Except.ok.inj h, ← Except.ok.inj h', List.map_cons, List.map_cons,
        scoreExample_agree hr hr', ih hrest hrest']

theorem accuracyMetrics_congr {records records' : List ExampleRecord}
    (h : records.map (fun r => r.accuracies) = records'.map fun r => r.accuracies) :
    accuracyMetrics records = accuracyMetrics records' := by
  have hexact : (records.map fun r => r.exactMatch) = records'.map fun r => r.exactMatch := by
    simpa [ExampleRecord.accuracies, Function.comp_def] using congrArg (List.map Prod.fst) h
  have htoken : (records.map fun r => r.tokenAccuracy) = records'.map fun r => r.tokenAccuracy := by
    simpa [ExampleRecord.accuracies, Function.comp_def] using congrArg (List.map Prod.snd) h
  have hlength : records.length = records'.length := by simpa using congrArg List.length h
  unfold accuracyMetrics
  rw [hexact, htoken, hlength]

/-- The names of the metrics that say something of the model. -/
def accuracyNames : List String := ["exact_match", "token_accuracy"]

theorem accuracy_of_aggregate {records : List ExampleRecord} {metrics : List AggregateMetric}
    {m : AggregateMetric} (h : aggregate records = some metrics) (hm : m ∈ metrics)
    (hname : m.metricName ∈ accuracyNames) : m ∈ accuracyMetrics records := by
  unfold aggregate at h
  split at h
  · rw [← Option.some.inj h] at hm
    exact absurd hm List.not_mem_nil
  obtain ⟨rows, hrows, h⟩ := Option.bind_eq_some_iff.mp h
  rw [← Option.some.inj h] at hm
  obtain hm | hm := List.mem_append.mp hm
  · exact hm
  -- the other rows have the names of latencies
  unfold latencyMetrics at hrows
  split at hrows
  · rw [← Option.some.inj hrows] at hm
    exact absurd hm List.not_mem_nil
  obtain ⟨p50, _, hrows⟩ := Option.bind_eq_some_iff.mp hrows
  obtain ⟨p95, _, hrows⟩ := Option.bind_eq_some_iff.mp hrows
  rw [← Option.some.inj hrows] at hm
  simp only [List.mem_cons, List.not_mem_nil, or_false] at hm
  obtain rfl | rfl | rfl := hm <;> exact absurd hname (by simp [accuracyNames])

theorem accuracyMetrics_unique {records : List ExampleRecord} {m m' : AggregateMetric}
    (hm : m ∈ accuracyMetrics records) (hm' : m' ∈ accuracyMetrics records)
    (hname : m.metricName = m'.metricName) : m = m' := by
  simp only [accuracyMetrics, List.mem_cons, List.not_mem_nil, or_false] at hm hm'
  obtain rfl | rfl := hm
  · obtain rfl | rfl := hm'
    · rfl
    · simp at hname
  · obtain rfl | rfl := hm'
    · simp at hname
    · rfl

end Accuracies

/-! ### Two runs -/

/-- A completed run of the toy evaluator, with its configuration. -/
structure World.CompletesToy (s : World) (runId : RunId) (run : EvaluationRun)
    (config : EvaluationConfig) : Prop where
  stored : s.db.evaluationRuns.lookup runId = some run
  succeeded : run.status = .succeeded
  configured : s.db.evaluationConfigs.lookup run.evaluationConfigId = some config
  toy : config.IsToy

/-- The runs evaluate the same model version on the same examples. -/
structure EvaluationRun.SameTask (run run' : EvaluationRun) (config config' : EvaluationConfig) :
    Prop where
  model : run.model = run'.model
  dataset : run.dataset = run'.dataset
  maxExamples : config.maxExamples = config'.maxExamples

section Repeat

variable {env : Env} {py : Python} {s : World} {es : List (SysEvent env)} {c : System env}
  {runId runId' : RunId} {run run' : EvaluationRun} {config config' : EvaluationConfig}
  {model dataset : Bytes}

/-- The records behind an accuracy of a run. -/
theorem records_of_accuracy (hplain : PlainTexts env) (h : Reaches s es c)
    (htoy : Runs.Always Config.step (Config.AtStep (RunsToyEvaluator env py))
      ({ shared := s } : System env) es) (hrun : c.shared.CompletesToy runId run config)
    (hmodel : c.shared.HasModel env run model) (hdataset : c.shared.HasDataset env run dataset)
    {name part : String} (hname : name ∈ accuracyNames) {row : EvaluationMetric}
    (hrow : c.shared.db.evaluationMetrics.lookup (runId, name, part) = some row) :
    ∃ host param examples records, ∃ m ∈ accuracyMetrics records,
      (modelParam py model).result = .ok param ∧
      (datasetExamples py dataset (.ofNat? config.maxExamples)).result = .ok examples ∧
      (scoreExamples env host param 0 examples).result = .ok records ∧
      m.metricName = name ∧ row.metricValue = .num m.metricValue ∧ row.sampleCount = m.sampleCount := by
  have hk := knows_of_reaches h
  obtain ⟨p, j, w, run₀, context, files, lines, event, hstart, hspawn, hline, hkind, ⟨metricName, hmetric,
    hcolumn⟩, hvalue, hcount⟩ := hk.start_of_metric hrow
  obtain ⟨host, hpass⟩ := hk.toyPass (fun p op a ha => printed_of_reaches h htoy ha) hstart hspawn
    hrun.stored hrun.configured hrun.toy
  obtain ⟨inputs, records, metrics, m, hreads, hrecords, hmetrics, hm, rfl⟩ :=
    hpass.metric event hline hkind
  cases hmetric
  have hsame : m.metricName = name := (hplain.textColumn _ _ hcolumn).symm
  refine ⟨host, inputs.param, inputs.examples, records, m, ?_, hreads.model model hmodel,
    hreads.dataset dataset hdataset, hrecords, hsame, (Option.some.inj hvalue).symm,
    intColumn_natCast hcount⟩
  exact accuracy_of_aggregate hmetrics hm (hsame ▸ hname)

/-- **Evaluations can be repeated**: two completed runs that evaluate the same model version on the same
examples have rows for the same ids, with the same scores, and the same accuracies, whatever attempts
have written them. -/
theorem evaluations_repeat (hplain : PlainTexts env) (h : Reaches s es c)
    (htoy : Runs.Always Config.step (Config.AtStep (RunsToyEvaluator env py))
      ({ shared := s } : System env) es) (hrun : c.shared.CompletesToy runId run config)
    (hrun' : c.shared.CompletesToy runId' run' config') (hsame : run.SameTask run' config config')
    (hmodel : c.shared.HasModel env run model) (hdataset : c.shared.HasDataset env run dataset) :
    (∀ id, (c.shared.db.evaluationResults.lookup (runId, id)).map (fun row => row.score) =
      (c.shared.db.evaluationResults.lookup (runId', id)).map fun row => row.score) ∧
    ∀ name ∈ accuracyNames, ∀ part part' metric metric',
      c.shared.db.evaluationMetrics.lookup (runId, name, part) = some metric →
      c.shared.db.evaluationMetrics.lookup (runId', name, part') = some metric' →
        metric.metricValue = metric'.metricValue ∧ metric.sampleCount = metric'.sampleCount := by
  have hmodel' : c.shared.HasModel env run' model := by
    unfold World.HasModel
    rw [← hsame.model]
    exact hmodel
  have hdataset' : c.shared.HasDataset env run' dataset := by
    unfold World.HasDataset
    rw [← hsame.dataset]
    exact hdataset
  refine ⟨fun id => ?_, fun name hname part part' metric metric' hmetric hmetric' => ?_⟩
  · obtain ⟨ids, hids, hrows⟩ := completed_ids hplain h htoy hrun.stored hrun.succeeded hrun.configured
      hrun.toy hdataset
    obtain ⟨ids', hids', hrows'⟩ := completed_ids hplain h htoy hrun'.stored hrun'.succeeded hrun'.configured
      hrun'.toy hdataset'
    rw [hsame.maxExamples] at hids
    obtain rfl : ids = ids' := Option.some.inj (hids.symm.trans hids')
    have hiff : (c.shared.db.evaluationResults.lookup (runId, id)).isSome ↔
        (c.shared.db.evaluationResults.lookup (runId', id)).isSome := by
      rw [← mem_resultIds, ← mem_resultIds, hrows, hrows']
    cases hrow : c.shared.db.evaluationResults.lookup (runId, id) with
    | none =>
        rw [hrow] at hiff
        have hnone : c.shared.db.evaluationResults.lookup (runId', id) = none := by
          rw [← Option.not_isSome_iff_eq_none, ← hiff]
          simp
        rw [hnone]
    | some row =>
        obtain ⟨row', hrow'⟩ := Option.isSome_iff_exists.mp (hiff.mp (by rw [hrow]; rfl))
        rw [hrow', Option.map_some, Option.map_some]
        obtain ⟨param, examples, entry, hparam, hexamples, hentry, hscore⟩ := scores_determined hplain h
          htoy hrun.stored hrun.configured hrun.toy hmodel hdataset hrow
        obtain ⟨param', examples', entry', hparam', hexamples', hentry', hscore'⟩ :=
          scores_determined hplain h htoy hrun'.stored hrun'.configured hrun'.toy hmodel' hdataset' hrow'
        rw [hsame.maxExamples] at hexamples
        obtain rfl : param = param' := Except.ok.inj (hparam.symm.trans hparam')
        obtain rfl : examples = examples' := Except.ok.inj (hexamples.symm.trans hexamples')
        obtain rfl : entry = entry' := Option.some.inj (hentry.symm.trans hentry')
        rw [hscore, hscore']
  · obtain ⟨host, param, examples, records, m, hm, hparam, hexamples, hrecords, hmname, hvalue, hcount⟩ :=
      records_of_accuracy hplain h htoy hrun hmodel hdataset hname hmetric
    obtain ⟨host', param', examples', records', m', hm', hparam', hexamples', hrecords', hmname', hvalue',
      hcount'⟩ := records_of_accuracy hplain h htoy hrun' hmodel' hdataset' hname hmetric'
    rw [hsame.maxExamples] at hexamples
    obtain rfl : param = param' := Except.ok.inj (hparam.symm.trans hparam')
    obtain rfl : examples = examples' := Except.ok.inj (hexamples.symm.trans hexamples')
    -- the two hosts differ, and the accuracies do not
    rw [accuracyMetrics_congr (scoreExamples_agree hrecords hrecords')] at hm
    obtain rfl := accuracyMetrics_unique hm hm' (hmname.trans hmname'.symm)
    exact ⟨hvalue.trans hvalue'.symm, hcount.trans hcount'.symm⟩

end Repeat

/-- The evaluation of `completeJob`, and the same once more on a slower machine. -/
def repeatedJob : List (SysEvent Env.digesting) :=
  completeJob twoExamples ++ (session 3 (.createEvaluation evaluationPayload) 6 { uuid := 2 } ++
    session 4 .schedulerRunOnce 8 {} ++ session 5 (.processJobMessage 2 7) 40
      { now := 1
        lines := toyLines .digesting (.steady 10) ⟨2, 7, 1, 2⟩ (splitConfig "all") modelFile
          twoExamples })

/-- Both jobs print what the toy evaluator does. -/
theorem repeatedJob_prints : ∀ e ∈ repeatedJob, SuppliedWith (fun p i =>
    (if p = 2 then
        toyPass .digesting (.steady 0) ⟨1, 7, 1, 1⟩ (splitConfig "all") modelFile twoExamples
      else
        toyPass .digesting (.steady 10) ⟨2, 7, 1, 2⟩ (splitConfig "all") modelFile twoExamples).Prints
      .digesting i) e := by
  unfold repeatedJob completeJob
  simp only [List.forall_mem_append]
  exact ⟨toyJob_supplied ⟨rfl, .inl rfl⟩ ⟨rfl, .inl rfl⟩ ⟨rfl, .inr rfl⟩,
    ⟨suppliedWith_session ⟨rfl, .inl rfl⟩, suppliedWith_session ⟨rfl, .inl rfl⟩⟩,
    suppliedWith_session ⟨rfl, .inr rfl⟩⟩

/-- The two runs have the same scores and accuracies. -/
theorem second_evaluation_repeats : ∃ c : System .digesting,
    Reaches (completeStart twoExamples) repeatedJob c ∧
      (c.shared.db.evaluationResults.lookup (1, "e1")).isSome ∧
      (∀ id, (c.shared.db.evaluationResults.lookup (1, id)).map (fun row => row.score) =
        (c.shared.db.evaluationResults.lookup (2, id)).map fun row => row.score) ∧
      ∃ metric ∈ c.shared.db.evaluationMetrics.lookup (1, "token_accuracy", "all"),
      ∃ metric' ∈ c.shared.db.evaluationMetrics.lookup (2, "token_accuracy", "all"),
        metric.metricValue = metric'.metricValue := by
  obtain ⟨c, hc, ⟨run, hrun, hs, hconfigId, hmodelId, hdatasetId⟩, ⟨run', hrun', hs', hconfigId', hmodelId',
    hdatasetId'⟩, hfirst, ⟨metric, hmetric⟩, ⟨metric', hmetric'⟩⟩ :=
    exists_reaches (completeStart_initial twoExamples) repeatedJob
    (P := fun c : System .digesting => (∃ run ∈ c.shared.db.evaluationRuns.lookup 1,
        run.status = .succeeded ∧ run.evaluationConfigId = 1 ∧ run.model = (1, 1) ∧
          run.dataset = (1, 1)) ∧
      (∃ run ∈ c.shared.db.evaluationRuns.lookup 2,
        run.status = .succeeded ∧ run.evaluationConfigId = 1 ∧ run.model = (1, 1) ∧
          run.dataset = (1, 1)) ∧
      (c.shared.db.evaluationResults.lookup (1, "e1")).isSome ∧
      (∃ m, c.shared.db.evaluationMetrics.lookup (1, "token_accuracy", "all") = some m) ∧
      ∃ m, c.shared.db.evaluationMetrics.lookup (2, "token_accuracy", "all") = some m)
    (by simp only [← Option.isSome_iff_exists]; decide +kernel)
  have htoy := runsToyEvaluator_of_check (completeStart twoExamples) _ _ repeatedJob_prints
    (by decide +kernel)
  have hsame : run.SameTask run' (splitConfig "all") (splitConfig "all") :=
    ⟨hmodelId.trans hmodelId'.symm, hdatasetId.trans hdatasetId'.symm, rfl⟩
  obtain ⟨hscores, haccuracies⟩ := evaluations_repeat plainTexts_digesting hc htoy
    ⟨hrun, hs, completeStart_config hc hconfigId, rfl⟩
    ⟨hrun', hs', completeStart_config hc hconfigId', rfl⟩ hsame (completeStart_hasModel hc hmodelId)
    (completeStart_hasDataset hc hdatasetId)
  exact ⟨c, hc, hfirst, hscores, metric, hmetric, metric', hmetric',
    (haccuracies "token_accuracy" (by simp [accuracyNames]) _ _ metric metric' hmetric hmetric').1⟩

end PosttrainPlatform
