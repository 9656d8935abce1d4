import PosttrainPlatform.Subprocess.EvaluationMetrics
import PosttrainPlatform.Subprocess.Process

/-!
# `app/evaluation/toy_evaluator.py`

One result event for each example, the aggregate metrics, and the final event.
-/

namespace PosttrainPlatform.ToyEvaluator

open Doubles Traces Process EvaluationMetrics

/-- `param >= 0.5`. -/
def identityParam (param : Number) : Bool := Number.le (.finite (1 / 2)) param

/-- `_predict`. -/
def predict (input : String) (param : Number) : String :=
  let tokens := Words.words isSpace input.toList
  String.ofList (List.intercalate [' '] (if identityParam param then tokens else tokens.reverse))

/-- `xs[:n]`. -/
def takeFirst {α : Type} (n : ℤ) (xs : List α) : List α :=
  if 0 ≤ n then xs.take n.toNat else xs.take (xs.length + n).toNat

/-- The integer that a slice takes a value for. -/
def sliceIndex : Json → Option ℤ
  | .num q => if q.den = 1 then some q.num else none
  | .bool b => some (if b then 1 else 0)
  | _ => none

/-- `examples[:max_examples]`, when there is a maximum. -/
def firstExamples (examples : Json) : Json → Process Json
  | .null => pure examples
  | maxExamples =>
      match examples with
      | .arr xs => do
          let n ← Script.found .typeError (sliceIndex maxExamples)
          pure (.arr (takeFirst n xs))
      | .str s => do
          let n ← Script.found .typeError (sliceIndex maxExamples)
          pure (.str (String.ofList (takeFirst n s.toList)))
      | .obj _ => Script.raise .keyError
      | _ => Script.raise .typeError

/-- What a `for` loop goes through. -/
def iterated : Json → Process (List Json)
  | .arr xs => pure xs
  | .str s => pure (s.toList.map fun c => .str (String.singleton c))
  | .obj d => pure (d.map fun field => .str field.1)
  | _ => Script.raise .typeError

/-- A text to split, and no other value. -/
def text (v : Json) : Process String :=
  match v with
  | .str s => pure s
  | _ => Script.raise .attributeError

/-- The text in `expected or ""`; `none` stands for a value that is false. -/
def textOrEmpty (v : Json) : Process (Option String) :=
  if v.truthy then do pure (some (← text v)) else pure none

def resultEvent (exampleId prediction : String) (expected : Json) (score latencyMs : ℚ) : Dict :=
  [("event", .str "result"), ("example_id", .str exampleId), ("prediction", .str prediction),
    ("expected_output", expected), ("score", .num score), ("latency_ms", .num latencyMs)]

def metricEvent (split : Json) (metric : AggregateMetric) : Dict :=
  [("event", .str "metric"), ("metric_name", .str metric.metricName),
    ("metric_value", .num metric.metricValue), ("split", split),
    ("sample_count", .num metric.sampleCount)]

def finalEvent (exampleCount : ℕ) : Dict :=
  [("event", .str "final"), ("example_count", .num exampleCount)]

/-- One iteration of the loop, for the example at a position. -/
def scoreExample (env : Env) (host : Host) (param : Number) (position : ℕ) (entry : Json) :
    Process ExampleRecord := do
  let fields ← dict .typeError entry
  let exampleId ← item fields "id"
  let input ← text (fields.getD "input" (.str ""))
  let expected ← textOrEmpty (fields.getD "expected_output" (.str ""))
  let prediction := predict input param
  let em := exactMatch (some prediction) expected
  report (resultEvent (env.pyStr exampleId) prediction (fields.getD "expected_output" (.str "")) em
    (host.latencyMs position))
  pure { exactMatch := em
         tokenAccuracy := tokenAccuracy (some prediction) expected
         latencyMs := some (host.latencyMs position) }

/-- The loop, from a position on. -/
def scoreExamples (env : Env) (host : Host) (param : Number) :
    ℕ → List Json → Process (List ExampleRecord)
  | _, [] => pure []
  | position, entry :: examples => do
      let scored ← scoreExample env host param position entry
      let rest ← scoreExamples env host param (position + 1) examples
      pure (scored :: rest)

/-- The loop over the aggregate metrics. -/
def reportMetrics (split : Json) : List AggregateMetric → Process Unit
  | [] => pure ()
  | metric :: metrics => do
      report (metricEvent split metric)
      reportMetrics split metrics

/-- The local variables of `run` that its loop reads. -/
structure Inputs where
  param : Number
  examples : List Json

/-- `run` up to its loop. -/
def readInputs (py : Python) (host : Host) (files : List (String × Bytes)) (context : Dict) :
    Process Inputs := do
  let model ← loadFile py host files (← item context "model_path")
  let dataset ← loadFile py host files (← item context "dataset_path")
  let modelFields ← dict .attributeError model
  let param ← float py (modelFields.getD "param" (.num 0))
  let datasetFields ← dict .attributeError dataset
  let examples ← firstExamples (datasetFields.getD "examples" (.arr []))
    (context.getD "max_examples" .null)
  let examples ← iterated examples
  pure { param, examples }

/-- `run`. -/
def run (env : Env) (py : Python) (host : Host) (files : List (String × Bytes)) (context : Dict) :
    Process Unit := do
  let inputs ← readInputs py host files context
  let perExample ← scoreExamples env host inputs.param 0 inputs.examples
  let metrics ← Script.found .indexError (aggregate perExample)
  reportMetrics (context.getD "split" (.str "all")) metrics
  report (finalEvent perExample.length)

/-! ### The records -/

section Records

variable {env : Env} {host : Host} {param : Number}

/-- **The records hold the accuracies of the examples.** -/
theorem scored_example {position : ℕ} {entry : Json} {r : ExampleRecord}
    (h : (scoreExample env host param position entry).result = .ok r) :
    ∃ p e, r.exactMatch = exactMatch p e ∧ r.tokenAccuracy = tokenAccuracy p e := by
  obtain ⟨fields, _, h⟩ := Script.result_bind_eq_ok.mp h
  obtain ⟨exampleId, _, h⟩ := Script.result_bind_eq_ok.mp h
  obtain ⟨input, _, h⟩ := Script.result_bind_eq_ok.mp h
  obtain ⟨expected, _, h⟩ := Script.result_bind_eq_ok.mp h
  obtain ⟨_, _, h⟩ := Script.result_bind_eq_ok.mp h
  have hr := Except.ok.inj h
  refine ⟨some (predict input param), expected, ?_, ?_⟩
  · rw [← hr]
  · rw [← hr]

theorem scored_examples {position : ℕ} {examples : List Json} {records : List ExampleRecord}
    (h : (scoreExamples env host param position examples).result = .ok records) :
    ∀ r ∈ records, ∃ p e, r.exactMatch = exactMatch p e ∧ r.tokenAccuracy = tokenAccuracy p e := by
  induction examples generalizing position records with
  | nil =>
      intro r hr
      rw [← Except.ok.inj h] at hr
      exact absurd hr List.not_mem_nil
  | cons entry examples ih =>
      obtain ⟨first, hfirst, h⟩ := Script.result_bind_eq_ok.mp h
      obtain ⟨rest, hrest, h⟩ := Script.result_bind_eq_ok.mp h
      intro r hr
      rw [← Except.ok.inj h] at hr
      obtain rfl | hr := List.mem_cons.mp hr
      · exact scored_example hfirst
      · exact ih hrest r hr

end Records

/-! ### The events -/

/-- The id of an example. -/
def exampleId? (entry : Json) : Option Json := entry.dict?.bind fun fields => fields.get? "id"

/-- The score of an example, which depends on the parameter of the model only. -/
def score? (param : Number) (entry : Json) : Option ℚ := do
  let fields ← entry.dict?
  let input ← (text (fields.getD "input" (.str ""))).result.toOption
  let expected ← (textOrEmpty (fields.getD "expected_output" (.str ""))).result.toOption
  pure (exactMatch (some (predict input param)) expected)

/-- The event and the record of an example. -/
def Scored (env : Env) (host : Host) (param : Number) (position : ℕ) (entry : Json)
    (record : ExampleRecord) (event : Dict) : Prop :=
  ∃ exampleId prediction expected, exampleId? entry = some exampleId ∧
    event = resultEvent (env.pyStr exampleId) prediction expected record.exactMatch
      (host.latencyMs position) ∧
    score? param entry = some record.exactMatch ∧
    record.latencyMs = some (host.latencyMs position)

/-- The parameter in the bytes of a model. -/
def modelParam (py : Python) (model : Bytes) : Process Number := do
  let fields ← dict .attributeError (← Script.found .valueError (py.loads model))
  float py (fields.getD "param" (.num 0))

/-- The first examples in the bytes of a dataset. -/
def datasetExamples (py : Python) (dataset : Bytes) (maxExamples : Json) : Process (List Json) := do
  let fields ← dict .attributeError (← Script.found .valueError (py.loads dataset))
  let examples ← firstExamples (fields.getD "examples" (.arr [])) maxExamples
  iterated examples

/-- The texts of the ids of some examples. -/
def idTexts (env : Env) (examples : List Json) : List String :=
  (examples.filterMap exampleId?).map env.pyStr

/-- The ids of the first examples in the bytes of a dataset. -/
def exampleIds (env : Env) (py : Python) (dataset : Bytes) (maxExamples : Json) :
    Option (List String) :=
  (datasetExamples py dataset maxExamples).result.toOption.map (idTexts env)

section Events

variable {env : Env} {py : Python} {host : Host} {param : Number} {files : List (String × Bytes)}
  {context : Dict} {x : Action}

@[simp] theorem trace_text (v : Json) : (text v).trace = [] := by
  cases v <;> rfl

@[simp] theorem trace_textOrEmpty (v : Json) : (textOrEmpty v).trace = [] := by
  unfold textOrEmpty
  split
  · exact Script.trace_bind_of_silent (trace_text v) fun _ => rfl
  · rfl

@[simp] theorem trace_toDouble (x : Number) : (toDouble x).trace = [] := by
  cases x with
  | finite q =>
      unfold toDouble
      dsimp only
      split <;> rfl
  | nan => rfl
  | infinity negative => rfl

@[simp] theorem trace_float (v : Json) : (float py v).trace = [] := by
  cases v with
  | str s => exact Script.trace_found _ _
  | _ => exact Script.trace_bind_of_silent (Script.trace_found _ _) trace_toDouble

@[simp] theorem trace_firstExamples (examples maxExamples : Json) :
    (firstExamples examples maxExamples).trace = [] := by
  cases maxExamples with
  | null => rfl
  | _ => cases examples <;>
      first
      | rfl
      | exact Script.trace_bind_of_silent (Script.trace_found _ _) fun _ => rfl

@[simp] theorem trace_iterated (v : Json) : (iterated v).trace = [] := by
  cases v <;> rfl

/-- Reading the inputs reports nothing. -/
@[simp] theorem trace_readInputs : (readInputs py host files context).trace = [] := by
  refine Script.trace_bind_of_silent (trace_item _ _) fun modelPath => ?_
  refine Script.trace_bind_of_silent (trace_loadFile _) fun model => ?_
  refine Script.trace_bind_of_silent (trace_item _ _) fun datasetPath => ?_
  refine Script.trace_bind_of_silent (trace_loadFile _) fun dataset => ?_
  refine Script.trace_bind_of_silent (trace_dict _ _) fun modelFields => ?_
  refine Script.trace_bind_of_silent (trace_float _) fun param => ?_
  refine Script.trace_bind_of_silent (trace_dict _ _) fun datasetFields => ?_
  refine Script.trace_bind_of_silent (trace_firstExamples _ _) fun examples => ?_
  exact Script.trace_bind_of_silent (trace_iterated _) fun _ => rfl

/-- **The inputs are what the two files hold.** -/
theorem readInputs_spec {inputs : Inputs}
    (h : (readInputs py host files context).result = .ok inputs) :
    (∃ path model, context.get? "model_path" = some path ∧
        (openFile host files path).result = .ok model ∧
        (modelParam py model).result = .ok inputs.param) ∧
      ∃ path dataset, context.get? "dataset_path" = some path ∧
        (openFile host files path).result = .ok dataset ∧
        (datasetExamples py dataset (context.getD "max_examples" .null)).result =
          .ok inputs.examples := by
  obtain ⟨modelPath, hmodelPath, h⟩ := Script.result_bind_eq_ok.mp h
  obtain ⟨model, hmodel, h⟩ := Script.result_bind_eq_ok.mp h
  obtain ⟨modelData, hmodelData, hmodel⟩ := Script.result_bind_eq_ok.mp hmodel
  obtain ⟨datasetPath, hdatasetPath, h⟩ := Script.result_bind_eq_ok.mp h
  obtain ⟨dataset, hdataset, h⟩ := Script.result_bind_eq_ok.mp h
  obtain ⟨datasetData, hdatasetData, hdataset⟩ := Script.result_bind_eq_ok.mp hdataset
  obtain ⟨modelFields, hmodelFields, h⟩ := Script.result_bind_eq_ok.mp h
  obtain ⟨param, hparam, h⟩ := Script.result_bind_eq_ok.mp h
  obtain ⟨datasetFields, hdatasetFields, h⟩ := Script.result_bind_eq_ok.mp h
  obtain ⟨first, hfirst, h⟩ := Script.result_bind_eq_ok.mp h
  obtain ⟨examples, hexamples, h⟩ := Script.result_bind_eq_ok.mp h
  have hinputs := Except.ok.inj h
  constructor
  · refine ⟨modelPath, modelData, Script.result_found_eq_ok.mp hmodelPath, hmodelData, ?_⟩
    refine Script.result_bind_eq_ok.mpr ⟨model, hmodel, ?_⟩
    refine Script.result_bind_eq_ok.mpr ⟨modelFields, hmodelFields, ?_⟩
    rw [← hinputs]
    exact hparam
  · refine ⟨datasetPath, datasetData, Script.result_found_eq_ok.mp hdatasetPath, hdatasetData, ?_⟩
    refine Script.result_bind_eq_ok.mpr ⟨dataset, hdataset, ?_⟩
    refine Script.result_bind_eq_ok.mpr ⟨datasetFields, hdatasetFields, ?_⟩
    refine Script.result_bind_eq_ok.mpr ⟨first, hfirst, ?_⟩
    rw [← hinputs]
    exact hexamples

/-- An example that is scored is reported. -/
theorem trace_scoreExample {position : ℕ} {entry : Json} {record : ExampleRecord}
    (h : (scoreExample env host param position entry).result = .ok record) :
    ∃ event, Scored env host param position entry record event ∧
      (scoreExample env host param position entry).trace = [.report event] := by
  obtain ⟨fields, hfields, h⟩ := Script.result_bind_eq_ok.mp h
  obtain ⟨exampleId, hid, h⟩ := Script.result_bind_eq_ok.mp h
  obtain ⟨input, hinput, h⟩ := Script.result_bind_eq_ok.mp h
  obtain ⟨expected, hexpected, h⟩ := Script.result_bind_eq_ok.mp h
  have hrecord := Except.ok.inj h
  have hscored : exampleId? entry = some exampleId := by
    unfold exampleId?
    rw [Script.result_found_eq_ok.mp hfields]
    exact Script.result_found_eq_ok.mp hid
  have hscore : score? param entry =
      some (exactMatch (some (predict input param)) expected) := by
    unfold score?
    rw [Script.result_found_eq_ok.mp hfields, Option.bind_eq_bind, Option.bind_some, hinput,
      hexpected]
    rfl
  refine ⟨_, ⟨exampleId, predict input param, fields.getD "expected_output" (.str ""), hscored, rfl,
    by rw [← hrecord, hscore], by rw [← hrecord]⟩, ?_⟩
  unfold scoreExample
  rw [Script.trace_bind_of_ok hfields, Script.trace_bind_of_ok hid, Script.trace_bind_of_ok hinput,
    Script.trace_bind_of_ok hexpected, trace_dict, trace_item, trace_text, trace_textOrEmpty,
    ← hrecord]
  simp only [List.nil_append]
  rfl

/-- Nothing is reported of an example that is not scored. -/
theorem scored_of_mem_trace {position : ℕ} {entry : Json}
    (h : x ∈ (scoreExample env host param position entry).trace) :
    ∃ record, (scoreExample env host param position entry).result = .ok record := by
  obtain ⟨before, h⟩ := exists_occurs h
  obtain ⟨fields, hfields, h⟩ := occurs_bind_of_silent (trace_dict _ _) h
  obtain ⟨exampleId, hid, h⟩ := occurs_bind_of_silent (trace_item _ _) h
  obtain ⟨input, hinput, h⟩ := occurs_bind_of_silent (trace_text _) h
  obtain ⟨expected, hexpected, _⟩ := occurs_bind_of_silent (trace_textOrEmpty _) h
  refine ⟨{ exactMatch := exactMatch (some (predict input param)) expected
            tokenAccuracy := tokenAccuracy (some (predict input param)) expected
            latencyMs := some (host.latencyMs position) }, ?_⟩
  refine Script.result_bind_eq_ok.mpr ⟨fields, hfields, ?_⟩
  refine Script.result_bind_eq_ok.mpr ⟨exampleId, hid, ?_⟩
  refine Script.result_bind_eq_ok.mpr ⟨input, hinput, ?_⟩
  exact Script.result_bind_eq_ok.mpr ⟨expected, hexpected, rfl⟩

/-- **Every event of the loop is the one of an example.** -/
theorem mem_trace_scoreExamples {position : ℕ} {examples : List Json}
    (h : x ∈ (scoreExamples env host param position examples).trace) :
    ∃ n entry record event, examples[n]? = some entry ∧
      Scored env host param (position + n) entry record event ∧ x = .report event := by
  induction examples generalizing position with
  | nil => cases h
  | cons entry examples ih =>
      obtain ⟨before, h⟩ := exists_occurs h
      obtain hfirst | ⟨record, rest, hrecord, _, h⟩ := occurs_bind h
      · obtain ⟨record, hrecord⟩ := scored_of_mem_trace hfirst.mem
        obtain ⟨event, hscored, htrace⟩ := trace_scoreExample hrecord
        rw [htrace] at hfirst
        exact ⟨0, entry, record, event, rfl, hscored, (occurs_singleton.mp hfirst).2⟩
      · obtain hrest | ⟨records, tail, _, _, hlast⟩ := occurs_bind h
        · obtain ⟨n, entry', record', event, hn, hscored, hx⟩ := ih hrest.mem
          refine ⟨n + 1, entry', record', event, hn, ?_, hx⟩
          rw [Nat.add_comm n 1, ← Nat.add_assoc]
          exact hscored
        · cases hlast.mem

/-- **A loop that ends well has scored and reported every example.** -/
theorem scoreExamples_spec {position : ℕ} {examples : List Json} {records : List ExampleRecord}
    (h : (scoreExamples env host param position examples).result = .ok records) :
    records.length = examples.length ∧ ∀ n entry, examples[n]? = some entry →
      ∃ record event, records[n]? = some record ∧
        Scored env host param (position + n) entry record event ∧
        .report event ∈ (scoreExamples env host param position examples).trace := by
  induction examples generalizing position records with
  | nil =>
      rw [← Except.ok.inj h]
      exact ⟨rfl, fun n entry hn => by cases hn⟩
  | cons first examples ih =>
      obtain ⟨record, hrecord, h⟩ := Script.result_bind_eq_ok.mp h
      obtain ⟨rest, hrest, h⟩ := Script.result_bind_eq_ok.mp h
      obtain ⟨hlength, hevery⟩ := ih hrest
      rw [← Except.ok.inj h]
      refine ⟨by rw [List.length_cons, List.length_cons, hlength], fun n entry hn => ?_⟩
      cases n with
      | zero =>
          cases hn
          obtain ⟨event, hscored, htrace⟩ := trace_scoreExample hrecord
          refine ⟨record, event, rfl, hscored, Script.mem_trace_bind_left ?_⟩
          rw [htrace]
          exact List.mem_singleton_self _
      | succ n =>
          obtain ⟨record', event, hn', hscored, hmem⟩ := hevery n entry hn
          refine ⟨record', event, hn', ?_, ?_⟩
          · rwa [Nat.add_right_comm, Nat.add_assoc] at hscored
          · exact Script.mem_trace_bind_right hrecord (Script.mem_trace_bind_left hmem)

theorem trace_reportMetrics (split : Json) (metrics : List AggregateMetric) :
    (reportMetrics split metrics).trace = metrics.map (fun m => .report (metricEvent split m)) ∧
      (reportMetrics split metrics).result = .ok () := by
  induction metrics with
  | nil => exact ⟨rfl, rfl⟩
  | cons metric metrics ih =>
      constructor
      · show [Action.report (metricEvent split metric)] ++ (reportMetrics split metrics).trace = _
        rw [ih.1]
        rfl
      · exact ih.2

/-- **Every event of the evaluator** is a result of an example, or comes when all have been scored. -/
theorem mem_trace_run (h : x ∈ (run env py host files context).trace) :
    ∃ inputs, (readInputs py host files context).result = .ok inputs ∧
      ((∃ n entry record event, inputs.examples[n]? = some entry ∧
          Scored env host inputs.param n entry record event ∧ x = .report event) ∨
        ∃ records metrics,
          (scoreExamples env host inputs.param 0 inputs.examples).result = .ok records ∧
          aggregate records = some metrics ∧
          ((∃ m ∈ metrics, x = .report (metricEvent (context.getD "split" (.str "all")) m)) ∨
            x = .report (finalEvent records.length))) := by
  obtain ⟨before, h⟩ := exists_occurs h
  obtain ⟨inputs, hinputs, h⟩ := occurs_bind_of_silent trace_readInputs h
  refine ⟨inputs, hinputs, ?_⟩
  obtain hresult | ⟨records, tail, hrecords, _, h⟩ := occurs_bind h
  · obtain ⟨n, entry, record, event, hn, hscored, hx⟩ := mem_trace_scoreExamples hresult.mem
    rw [Nat.zero_add] at hscored
    exact Or.inl ⟨n, entry, record, event, hn, hscored, hx⟩
  · obtain ⟨metrics, hmetrics, h⟩ := occurs_bind_of_silent (Script.trace_found _ _) h
    refine Or.inr ⟨records, metrics, hrecords, Script.result_found_eq_ok.mp hmetrics, ?_⟩
    obtain hmetric | ⟨_, rest, _, _, hfinal⟩ := occurs_bind h
    · have hmem := hmetric.mem
      rw [(trace_reportMetrics _ _).1] at hmem
      obtain ⟨m, hm, hx⟩ := List.mem_map.mp hmem
      exact Or.inl ⟨m, hm, hx.symm⟩
    · exact Or.inr (occurs_singleton.mp hfinal).2

/-- **The final event** comes after the results of all examples and all metrics. -/
theorem final_of_occurs {before : List Action} {e : Dict}
    (h : Occurs before (.report e) (run env py host files context).trace)
    (hkind : e.get? "event" = some (.str "final")) :
    ∃ inputs records metrics, (readInputs py host files context).result = .ok inputs ∧
      (scoreExamples env host inputs.param 0 inputs.examples).result = .ok records ∧
      aggregate records = some metrics ∧
      before = (scoreExamples env host inputs.param 0 inputs.examples).trace ++
        metrics.map fun m => .report (metricEvent (context.getD "split" (.str "all")) m) := by
  obtain ⟨inputs, hinputs, h⟩ := occurs_bind_of_silent trace_readInputs h
  obtain hresult | ⟨records, tail, hrecords, hbefore, h⟩ := occurs_bind h
  · obtain ⟨n, entry, record, event, _, hscored, hx⟩ := mem_trace_scoreExamples hresult.mem
    obtain ⟨exampleId, prediction, expected, _, hevent, _, _⟩ := hscored
    cases hx
    rw [hevent] at hkind
    exact absurd (Json.str.inj (Option.some.inj hkind)) (by decide)
  · obtain ⟨metrics, hmetrics, h⟩ := occurs_bind_of_silent (Script.trace_found _ _) h
    refine ⟨inputs, records, metrics, hinputs, hrecords, Script.result_found_eq_ok.mp hmetrics, ?_⟩
    obtain hmetric | ⟨_, rest, _, htail, hfinal⟩ := occurs_bind h
    · have hmem := hmetric.mem
      rw [(trace_reportMetrics _ _).1] at hmem
      obtain ⟨m, _, hx⟩ := List.mem_map.mp hmem
      cases hx
      exact absurd (Json.str.inj (Option.some.inj hkind)) (by decide)
    · rw [hbefore, htail, (occurs_singleton.mp hfinal).1, List.append_nil,
        (trace_reportMetrics _ _).1]

/-- **A result is reported of an example.** -/
theorem result_of_mem_trace {e : Dict} (h : .report e ∈ (run env py host files context).trace)
    (hkind : e.get? "event" = some (.str "result")) :
    ∃ inputs n entry record, (readInputs py host files context).result = .ok inputs ∧
      inputs.examples[n]? = some entry ∧ Scored env host inputs.param n entry record e := by
  obtain ⟨inputs, hinputs, ⟨n, entry, record, event, hn, hscored, hx⟩ |
    ⟨records, metrics, _, _, hx⟩⟩ := mem_trace_run h
  · cases hx
    exact ⟨inputs, n, entry, record, hinputs, hn, hscored⟩
  · obtain ⟨m, _, hx⟩ | hx := hx
    · cases hx
      exact absurd (Json.str.inj (Option.some.inj hkind)) (by decide)
    · cases hx
      exact absurd (Json.str.inj (Option.some.inj hkind)) (by decide)

/-- **A metric is reported for the split of the context**, when all examples have been scored. -/
theorem metric_of_mem_trace {e : Dict} (h : .report e ∈ (run env py host files context).trace)
    (hkind : e.get? "event" = some (.str "metric")) :
    ∃ inputs records metrics m, (readInputs py host files context).result = .ok inputs ∧
      (scoreExamples env host inputs.param 0 inputs.examples).result = .ok records ∧
      aggregate records = some metrics ∧ m ∈ metrics ∧
      e = metricEvent (context.getD "split" (.str "all")) m := by
  obtain ⟨inputs, hinputs, ⟨n, entry, record, event, _, hscored, hx⟩ |
    ⟨records, metrics, hrecords, hmetrics, hx⟩⟩ := mem_trace_run h
  · obtain ⟨exampleId, prediction, expected, _, hevent, _, _⟩ := hscored
    cases hx
    rw [hevent] at hkind
    exact absurd (Json.str.inj (Option.some.inj hkind)) (by decide)
  · obtain ⟨m, hm, hx⟩ | hx := hx
    · cases hx
      exact ⟨inputs, records, metrics, m, hinputs, hrecords, hmetrics, hm, rfl⟩
    · cases hx
      exact absurd (Json.str.inj (Option.some.inj hkind)) (by decide)

end Events

end PosttrainPlatform.ToyEvaluator
