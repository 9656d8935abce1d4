import PosttrainPlatform.Subprocess.ToyEvaluator

/-!
# The accuracies of an evaluation are ordered

`exact_match` is at most `token_accuracy`, example by example and therefore in the mean.
-/

namespace PosttrainPlatform.EvaluationMetrics

open ToyEvaluator

/-- Two accuracies, the exact one first. -/
structure Accuracies (exact token : ℚ) : Prop where
  nonneg : 0 ≤ exact
  ordered : exact ≤ token
  le_one : token ≤ 1

theorem accuracies_of_texts (p e : Option String) :
    Accuracies (exactMatch p e) (tokenAccuracy p e) where
  nonneg := exactMatch_nonneg p e
  ordered := exactMatch_le_tokenAccuracy p e
  le_one := tokenAccuracy_le_one p e

/-- **Means of accuracies are accuracies.** -/
theorem accuracies_of_records {records : List ExampleRecord}
    (h : ∀ r ∈ records, Accuracies r.exactMatch r.tokenAccuracy) :
    Accuracies (mean (records.map fun r => r.exactMatch))
      (mean (records.map fun r => r.tokenAccuracy)) where
  nonneg := by
    apply mean_nonneg
    intro x hx
    obtain ⟨r, hr, rfl⟩ := List.mem_map.mp hx
    exact (h r hr).nonneg
  ordered := mean_le_mean fun r hr => (h r hr).ordered
  le_one := by
    apply mean_le_one
    intro x hx
    obtain ⟨r, hr, rfl⟩ := List.mem_map.mp hx
    exact (h r hr).le_one

/-- The aggregates begin with the two accuracies, in order. -/
def ReportsAccuracies (perExample : List ExampleRecord) : Prop :=
  ∃ exact token latencies, Accuracies exact token ∧
    aggregate perExample = some (⟨"exact_match", exact, perExample.length⟩ ::
      ⟨"token_accuracy", token, perExample.length⟩ :: latencies)

/-- **The metric functions are ordered and bounded**, and so are the aggregates of what the toy
evaluator scores. -/
theorem metrics_ordered :
    (∀ p e : Option String, 0 ≤ exactMatch p e ∧ exactMatch p e ≤ tokenAccuracy p e ∧
      tokenAccuracy p e ≤ 1 ∧ tokenAccuracy p e = tokenAccuracy e p ∧
      (tokenAccuracy p e = 1 ↔ tokens p = tokens e)) ∧
    ∀ env host param position examples perExample,
      (scoreExamples env host param position examples).result = .ok perExample →
      perExample ≠ [] → ReportsAccuracies perExample := by
  constructor
  · intro p e
    exact ⟨exactMatch_nonneg p e, exactMatch_le_tokenAccuracy p e, tokenAccuracy_le_one p e,
      tokenAccuracy_comm p e, tokenAccuracy_eq_one_iff p e⟩
  · intro env host param position examples perExample hscored hne
    obtain ⟨rows, _, haggregate⟩ := aggregate_eq hne
    have hrecords : ∀ r ∈ perExample, Accuracies r.exactMatch r.tokenAccuracy := by
      intro r hr
      obtain ⟨p, e, hexact, htoken⟩ := scored_examples hscored r hr
      rw [hexact, htoken]
      exact accuracies_of_texts p e
    exact ⟨_, _, rows, accuracies_of_records hrecords, haggregate⟩

/-- A host without files and CUDA, on which nothing takes time. -/
def quietHost : Host where
  file _ := none
  writable _ := true
  cuda := none
  latencyMs _ := 0
  message _ := ""

/-- An example whose expected output has one word too many. -/
def shortAnswer : Json :=
  .obj [("id", .str "e1"), ("input", .str "a b"), ("expected_output", .str "a b c")]

theorem short_answer_ordered : ReportsAccuracies [⟨0, 2 / 3, some 0⟩] := by
  have hpredict : predict "a b" (.finite 1) = "a b" := by decide +kernel
  have hexact : exactMatch (some "a b") (some "a b c") = 0 := by decide +kernel
  have htoken : tokenAccuracy (some "a b") (some "a b c") = 2 / 3 := by decide +kernel
  have hscored : (scoreExamples .standard quietHost (.finite 1) 0 [shortAnswer]).result =
      .ok [⟨exactMatch (some (predict "a b" (.finite 1))) (some "a b c"),
        tokenAccuracy (some (predict "a b" (.finite 1))) (some "a b c"), some 0⟩] := rfl
  rw [hpredict, hexact, htoken] at hscored
  exact metrics_ordered.2 _ _ _ _ _ _ hscored (List.cons_ne_nil _ _)

end PosttrainPlatform.EvaluationMetrics
