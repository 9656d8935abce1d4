import PosttrainPlatform.Services.QualityGates

/-!
# What the gate engine does with a leaf

A leaf is refused with the status ERROR, or comes to one comparison of a number with its threshold.
`candidateOf` and `comparisonOf` say when it comes to one; `LeafFits` says that the engine copes with
the leaf and that what it reports can be recorded.
-/

namespace PosttrainPlatform

open Doubles

namespace QualityGateEngine

/-! ### Comparisons -/

/-- The operator is one of the five. -/
def isOperator : Json → Bool
  | .str s => s ∈ [">=", ">", "<=", "<", "=="]
  | _ => false

/-- The threshold can be compared: it is a number, and a double can hold it where `math.isclose` is to
decide. -/
def Orders (operator threshold : Json) : Prop :=
  ∃ x, threshold.number? = some x ∧
    (operator = .str "==" → ∀ q, x = .finite q → (Number.round q).isFinite = true)

theorem isOperator_iff {operator : Json} : isOperator operator = true ↔ operator = .str ">=" ∨
    operator = .str ">" ∨ operator = .str "<=" ∨ operator = .str "<" ∨ operator = .str "==" := by
  cases operator <;> simp [isOperator]

theorem ordered_eq_ok {rhs : Json} {holds : Number → Bool} {outcome : Option Bool} :
    ordered rhs holds = .ok outcome ↔
      ∃ x, rhs.number? = some x ∧ outcome = some (holds x) := by
  unfold ordered
  cases rhs.number? <;> simp [eq_comm]

theorem isClose_eq_ok {lhs : Number} {rhs : Json} :
    (∃ outcome, isClose lhs rhs = .ok outcome) ↔
      ∃ x, rhs.number? = some x ∧ ∀ q, x = .finite q → (Number.round q).isFinite = true := by
  unfold isClose
  cases rhs.number? with
  | none => simp
  | some x =>
      cases x with
      | finite q =>
          cases h : Number.round q with
          | nan => exact absurd h (Number.round_ne_nan q)
          | finite r => simp [h]
          | infinity b => simp [h]
      | nan => simp
      | infinity b => simp

theorem isClose_ne_none {lhs : Number} {rhs : Json} : isClose lhs rhs ≠ .ok none := by
  unfold isClose
  split
  · simp
  · split <;> simp
  · simp

/-- Anything but the five operators is refused without a look at the threshold. -/
theorem compare_of_not_operator {lhs : Number} {operator rhs : Json}
    (h : isOperator operator = false) : compare lhs operator rhs = .ok none := by
  unfold compare
  split <;> first | rfl | simp [isOperator] at h

/-- **A comparison under an operator answers exactly if the threshold can be compared.** -/
theorem compare_eq_ok {lhs : Number} {operator rhs : Json} (h : isOperator operator = true) :
    (∃ outcome, compare lhs operator rhs = .ok outcome) ↔ Orders operator rhs := by
  obtain rfl | rfl | rfl | rfl | rfl := isOperator_iff.mp h
  case inr.inr.inr.inr => simpa [compare, Orders] using isClose_eq_ok
  all_goals simp [compare, Orders, ordered_eq_ok]

/-- What it answers is a truth value. -/
theorem compare_ne_none {lhs : Number} {operator rhs : Json} (h : isOperator operator = true) :
    compare lhs operator rhs ≠ .ok none := by
  intro hnone
  obtain rfl | rfl | rfl | rfl | rfl := isOperator_iff.mp h
  case inr.inr.inr.inr => exact isClose_ne_none hnone
  all_goals
    obtain ⟨x, _, hx⟩ := ordered_eq_ok.mp hnone
    cases hx

/-! ### Leaves -/

/-- The metric that a rule names, and its value, where the rule gets past the checks of both. -/
def candidateOf (metrics : Metrics) (rule : Dict) : Option (String × Number) :=
  match rule.getD "metric" .null with
  | .str name =>
      if (rule.getD "operator" .null).isNull then none
      else
        match metrics.lookup name with
        | none | some .nan => none
        | some candidate => some (name, candidate)
  | _ => none

/-- The threshold of a rule: a baseline delta comes first. -/
def thresholdOf (rule : Dict) : Option Json :=
  (rule.get? "baseline_delta").or (rule.get? "value")

/-- A comparison that a rule comes to, and the numbers that its result reports. -/
structure Comparison where
  lhs : Number
  threshold : Json
  reported : List Number

/-- The comparison of a rule with its candidate value, if it comes to one. -/
def comparisonOf (baselineMetrics : Option Metrics) (rule : Dict) (name : String)
    (candidate : Number) : Option Comparison :=
  match rule.get? "baseline_delta" with
  | some threshold =>
      (baselineMetrics.bind fun baseline => baseline.lookup name).map fun value =>
        ⟨candidate.sub value, threshold, [candidate, value, candidate.sub value]⟩
  | none => (rule.get? "value").map fun threshold => ⟨candidate, threshold, [candidate]⟩

/-- A metric that can be looked up. -/
def Hashable : Json → Prop
  | .arr _ | .obj _ => False
  | _ => True

/-- **A leaf that the engine copes with**, and whose result can be recorded: it is an object, its
metric can be looked up, a threshold that it comes to compare can be compared, and it reports no NaN
and no infinity. -/
def LeafFits (metrics : Metrics) (baselineMetrics : Option Metrics) : Json → Prop
  | .obj rule =>
      let operator := Dict.getD rule "operator" .null
      (Dict.getD rule "metric" .null).storable = true ∧ operator.storable = true ∧
        (operator.isNull = false → Hashable (Dict.getD rule "metric" .null)) ∧
        ∀ name candidate, candidateOf metrics rule = some (name, candidate) →
          (∀ threshold, thresholdOf rule = some threshold → threshold.storable = true) ∧
          ∀ c, comparisonOf baselineMetrics rule name candidate = some c →
            isOperator operator = true →
              Orders operator c.threshold ∧ ∀ x ∈ c.reported, x.isFinite = true
  | _ => False

/-- A leaf whose comparison holds. -/
def Passes (metrics : Metrics) (baselineMetrics : Option Metrics) : Json → Prop
  | .obj rule => ∃ name candidate c, candidateOf metrics rule = some (name, candidate) ∧
      comparisonOf baselineMetrics rule name candidate = some c ∧
      compare c.lhs (Dict.getD rule "operator" .null) c.threshold = .ok (some true)
  | _ => False

/-- A malformed rule: it is no object, its metric is no text, its operator is none of the five, or it
has no threshold that is a number. -/
def Malformed : Json → Prop
  | .obj rule => (∀ name, Dict.getD rule "metric" .null ≠ .str name) ∨
      isOperator (Dict.getD rule "operator" .null) = false ∨
      ∀ threshold, thresholdOf rule = some threshold → threshold.number? = none
  | _ => True

/-! ### What the engine makes of a leaf -/

section Leaf

variable {metrics : Metrics} {baselineMetrics : Option Metrics} {rule : Dict} {r : RuleResult}

@[simp] theorem fieldsStorable_append (kvs lws : List (String × Json)) :
    Json.fieldsStorable (kvs ++ lws) = (Json.fieldsStorable kvs && Json.fieldsStorable lws) := by
  induction kvs with
  | nil => rfl
  | cons kv rest ih =>
      obtain ⟨key, v⟩ := kv
      show (v.storable && Json.fieldsStorable (rest ++ lws)) = _
      rw [ih]
      exact (Bool.and_assoc _ _ _).symm

theorem storable_json (r : RuleResult) : r.json.storable = Json.fieldsStorable r.fields := by
  show Json.fieldsStorable (r.fields ++ [("status", .str r.status.value)]) = _
  rw [fieldsStorable_append]
  exact Bool.and_true _

theorem storable_errorResult (base : Dict) (reason : String) :
    (errorResult base reason).json.storable = Json.fieldsStorable base := by
  rw [storable_json]
  show Json.fieldsStorable (base ++ [("reason", .str reason)]) = _
  rw [fieldsStorable_append]
  exact Bool.and_true _

/-- The comparison at the end of both kinds of rules. -/
def compared (base : Dict) (lhs : Number) (operator threshold : Json) (reported : Dict) :
    Except Exn RuleResult :=
  (compare lhs operator threshold).map (comparedResult base reported)

theorem compared_eq_ok {base reported : Dict} {lhs : Number} {operator threshold : Json} :
    compared base lhs operator threshold reported = .ok r ↔
      ∃ outcome, compare lhs operator threshold = .ok outcome ∧
        comparedResult base reported outcome = r := by
  unfold compared
  cases compare lhs operator threshold <;> simp [Except.map]

theorem compared_fits_iff {base reported : Dict} {lhs : Number} {operator threshold : Json} :
    (∃ r, compared base lhs operator threshold reported = .ok r ∧ r.json.storable = true) ↔
      Json.fieldsStorable base = true ∧ (isOperator operator = true →
        Orders operator threshold ∧ Json.fieldsStorable reported = true) := by
  simp only [compared_eq_ok]
  cases hop : isOperator operator with
  | false => simp [compare_of_not_operator hop, comparedResult, storable_errorResult]
  | true =>
      rw [forall_prop_of_true rfl, ← @compare_eq_ok lhs operator threshold hop]
      constructor
      · rintro ⟨_, ⟨outcome, hcompare, rfl⟩, hstorable⟩
        cases outcome with
        | none => exact absurd hcompare (compare_ne_none hop)
        | some outcome =>
            rw [storable_json, comparedResult, fieldsStorable_append, Bool.and_eq_true] at hstorable
            exact ⟨hstorable.1, ⟨_, hcompare⟩, hstorable.2⟩
      · rintro ⟨hbase, ⟨outcome, hcompare⟩, hreported⟩
        refine ⟨_, ⟨outcome, hcompare, rfl⟩, ?_⟩
        cases outcome with
        | none => exact absurd hcompare (compare_ne_none hop)
        | some outcome =>
            rw [storable_json, comparedResult, fieldsStorable_append, hbase, hreported]
            rfl

theorem compared_pass_iff {base reported : Dict} {lhs : Number} {operator threshold : Json}
    (h : compared base lhs operator threshold reported = .ok r) :
    r.status = .pass ↔ compare lhs operator threshold = .ok (some true) := by
  obtain ⟨outcome, hcompare, rfl⟩ := compared_eq_ok.mp h
  rw [hcompare]
  cases outcome with
  | none => simp [comparedResult, errorResult]
  | some outcome => cases outcome <;> simp [comparedResult]

theorem compared_of_malformed {base reported : Dict} {lhs : Number} {operator threshold : Json}
    (h : compared base lhs operator threshold reported = .ok r)
    (hmalformed : isOperator operator = false ∨ threshold.number? = none) : r.status = .error := by
  obtain ⟨outcome, hcompare, rfl⟩ := compared_eq_ok.mp h
  cases hop : isOperator operator with
  | false =>
      rw [compare_of_not_operator hop] at hcompare
      cases hcompare
      rfl
  | true =>
      obtain ⟨x, hx, _⟩ := (compare_eq_ok hop).mp ⟨_, hcompare⟩
      rw [hop, hx] at hmalformed
      simp at hmalformed

theorem evaluateLeaf_unhashable (hop : (Dict.getD rule "operator" .null).isNull = false)
    (hmetric : ¬ Hashable (Dict.getD rule "metric" .null)) :
    evaluateLeaf metrics baselineMetrics (.obj rule) = .error .typeError := by
  simp only [evaluateLeaf, hop, Bool.or_false]
  generalize Dict.getD rule "metric" .null = metric at *
  cases metric with
  | arr vs | obj kvs => rfl
  | null | bool b | num q | nan | infinity b | str t => exact absurd trivial hmetric

theorem evaluateLeaf_refused (hnone : candidateOf metrics rule = none)
    (hhash : (Dict.getD rule "operator" .null).isNull = false →
      Hashable (Dict.getD rule "metric" .null)) :
    ∃ reason, evaluateLeaf metrics baselineMetrics (.obj rule) =
      .ok (errorResult (leafBase rule) reason) := by
  unfold candidateOf at hnone
  simp only [evaluateLeaf]
  generalize Dict.getD rule "metric" .null = metric at *
  cases hop : (Dict.getD rule "operator" .null).isNull with
  | true => exact ⟨_, by rw [Bool.or_true, if_pos rfl]⟩
  | false =>
      cases metric with
      | null | bool b | num q | nan | infinity b => exact ⟨_, rfl⟩
      | arr vs | obj kvs => exact absurd (hhash hop) id
      | str name =>
          simp only [Json.isNull, Bool.or_self, evaluateMetric]
          cases hlookup : metrics.lookup name with
          | none => exact ⟨_, rfl⟩
          | some candidate =>
              cases candidate with
              | nan => exact ⟨_, rfl⟩
              | finite q | infinity b => simp [hop, hlookup] at hnone

/-- A candidate value is compared. -/
theorem evaluateLeaf_candidate {name : String} {candidate : Number}
    (h : candidateOf metrics rule = some (name, candidate)) :
    evaluateLeaf metrics baselineMetrics (.obj rule) = evaluateCandidate baselineMetrics rule
      (leafBase rule) (Dict.getD rule "operator" .null) name candidate := by
  unfold candidateOf at h
  simp only [evaluateLeaf]
  generalize Dict.getD rule "metric" .null = metric at *
  cases metric with
  | null | bool b | num q | nan | infinity b | arr vs | obj kvs => cases h
  | str name' =>
      cases hop : (Dict.getD rule "operator" .null).isNull with
      | true => simp [hop] at h
      | false =>
          simp only [Json.isNull, Bool.or_self, evaluateMetric]
          cases hlookup : metrics.lookup name' with
          | none => simp [hop, hlookup] at h
          | some candidate' =>
              cases candidate' with
              | nan => simp [hop, hlookup] at h
              | finite q | infinity b =>
                  simp only [hop, hlookup, Bool.false_eq_true, if_false, Option.some.injEq,
                    Prod.mk.injEq] at h
                  obtain ⟨rfl, rfl⟩ := h
                  rfl

theorem evaluateThreshold_eq (base : Dict) (operator threshold : Json) (candidate : Number) :
    evaluateThreshold base operator threshold candidate =
      compared (base ++ [("value", threshold)]) candidate operator threshold
        [("candidate", .ofNumber candidate)] := by
  unfold evaluateThreshold compared
  cases compare candidate operator threshold <;> rfl

theorem evaluateDelta_eq (base : Dict) (operator threshold : Json) (candidate value : Number) :
    evaluateDelta base operator threshold candidate (some (some value)) =
      compared (base ++ [("baseline_delta", threshold)]) (candidate.sub value) operator threshold
        [("candidate", .ofNumber candidate), ("baseline", .ofNumber value),
          ("delta", .ofNumber (candidate.sub value))] := by
  simp only [evaluateDelta, compared]
  cases compare (candidate.sub value) operator threshold <;> rfl

/-- **What becomes of a candidate value**: a comparison, or a refusal that reports the threshold. -/
theorem evaluateCandidate_cases (rule base : Dict) (operator : Json) (name : String)
    (candidate : Number) :
    (∃ c key reported, comparisonOf baselineMetrics rule name candidate = some c ∧
      thresholdOf rule = some c.threshold ∧
      evaluateCandidate baselineMetrics rule base operator name candidate =
        compared (base ++ [(key, c.threshold)]) c.lhs operator c.threshold reported ∧
      (Json.fieldsStorable reported = true ↔ ∀ x ∈ c.reported, x.isFinite = true)) ∨
    (∃ reported reason, comparisonOf baselineMetrics rule name candidate = none ∧
      evaluateCandidate baselineMetrics rule base operator name candidate =
        .ok (errorResult (base ++ reported) reason) ∧
      (Json.fieldsStorable reported = true ↔
        ∀ threshold, thresholdOf rule = some threshold → threshold.storable = true)) := by
  unfold evaluateCandidate comparisonOf thresholdOf
  cases hdelta : rule.get? "baseline_delta" with
  | none =>
      cases hvalue : rule.get? "value" with
      | none => exact Or.inr ⟨[], _, rfl, by rw [List.append_nil], by simp [Json.fieldsStorable]⟩
      | some threshold =>
          refine Or.inl ⟨_, _, _, rfl, rfl, evaluateThreshold_eq base operator threshold candidate, ?_⟩
          simp [Json.fieldsStorable, Json.storable_ofNumber]
  | some threshold =>
      cases hbaseline : baselineMetrics with
      | none =>
          exact Or.inr ⟨[("baseline_delta", threshold)], _, rfl, rfl, by simp [Json.fieldsStorable]⟩
      | some baseline =>
          cases hlookup : baseline.lookup name with
          | none =>
              refine Or.inr ⟨[("baseline_delta", threshold)], "baseline metric not present", ?_, ?_,
                by simp [Json.fieldsStorable]⟩
              · simp [hlookup]
              · simp [hlookup, evaluateDelta]
          | some value =>
              refine Or.inl ⟨⟨candidate.sub value, threshold,
                [candidate, value, candidate.sub value]⟩, "baseline_delta",
                [("candidate", .ofNumber candidate), ("baseline", .ofNumber value),
                  ("delta", .ofNumber (candidate.sub value))], ?_, rfl, ?_, ?_⟩
              · simp [hlookup]
              · simp only [Option.map_some, hlookup]
                exact evaluateDelta_eq base operator threshold candidate value
              · simp [Json.fieldsStorable, Json.storable_ofNumber]

/-- **The engine copes with exactly the leaves that fit.** -/
theorem leafFits_iff (leaf : Json) :
    (∃ r, evaluateLeaf metrics baselineMetrics leaf = .ok r ∧ r.json.storable = true) ↔
      LeafFits metrics baselineMetrics leaf := by
  cases leaf with
  | null | bool b | num q | nan | infinity b | str t | arr vs =>
      refine iff_of_false ?_ id
      rintro ⟨r, hr, _⟩
      cases hr
  | obj rule =>
      have hbase : Json.fieldsStorable (leafBase rule) = true ↔
          (Dict.getD rule "metric" .null).storable = true ∧
            (Dict.getD rule "operator" .null).storable = true := by
        simp [leafBase, Json.fieldsStorable]
      unfold LeafFits
      simp only
      by_cases hhash : (Dict.getD rule "operator" .null).isNull = false →
          Hashable (Dict.getD rule "metric" .null)
      swap
      · rw [Classical.not_imp] at hhash
        refine iff_of_false ?_ fun h => hhash.2 (h.2.2.1 hhash.1)
        rintro ⟨r, hr, _⟩
        rw [evaluateLeaf_unhashable hhash.1 hhash.2] at hr
        cases hr
      rw [← and_assoc, ← hbase, and_iff_right hhash]
      cases hcandidate : candidateOf metrics rule with
      | none =>
          obtain ⟨reason, hr⟩ := evaluateLeaf_refused hcandidate hhash
          rw [hr]
          simp [storable_errorResult]
      | some found =>
          obtain ⟨name, candidate⟩ := found
          rw [evaluateLeaf_candidate hcandidate]
          obtain ⟨c, key, reported, hc, hthreshold, heq, hreported⟩ |
            ⟨reported, reason, hc, heq, hreported⟩ := evaluateCandidate_cases rule (leafBase rule)
              (Dict.getD rule "operator" .null) name candidate
          · rw [heq, compared_fits_iff, hreported]
            simp [Json.fieldsStorable, hc, hthreshold, and_assoc]
          · rw [heq]
            simp [storable_errorResult, hreported, hc]

theorem metric_of_candidate {name : String} {candidate : Number}
    (h : candidateOf metrics rule = some (name, candidate)) :
    Dict.getD rule "metric" .null = .str name := by
  unfold candidateOf at h
  split at h
  · rename_i name' hname
    split at h
    · cases h
    · split at h <;> cases h
      exact hname
  · cases h

/-- A leaf has the status PASS exactly if its comparison holds. -/
theorem pass_iff {leaf : Json} (h : evaluateLeaf metrics baselineMetrics leaf = .ok r) :
    r.status = .pass ↔ Passes metrics baselineMetrics leaf := by
  cases leaf with
  | null | bool b | num q | nan | infinity b | str t | arr vs => cases h
  | obj rule =>
      unfold Passes
      cases hcandidate : candidateOf metrics rule with
      | none =>
          obtain ⟨reason, hr⟩ := evaluateLeaf_refused hcandidate fun hop => by
            by_contra hhash
            rw [evaluateLeaf_unhashable hop hhash] at h
            cases h
          rw [hr] at h
          cases h
          simp [errorResult, hcandidate]
      | some found =>
          obtain ⟨name, candidate⟩ := found
          rw [evaluateLeaf_candidate hcandidate] at h
          obtain ⟨c, key, reported, hc, _, heq, _⟩ | ⟨reported, reason, hc, heq, _⟩ :=
            evaluateCandidate_cases rule (leafBase rule) (Dict.getD rule "operator" .null) name
              candidate
          · rw [heq] at h
            rw [compared_pass_iff h]
            simp [hcandidate, hc]
          · rw [heq] at h
            cases h
            simp [errorResult, hcandidate, hc]

/-- A malformed leaf that the engine copes with has the status ERROR. -/
theorem status_of_malformed {leaf : Json} (h : evaluateLeaf metrics baselineMetrics leaf = .ok r)
    (hmalformed : Malformed leaf) : r.status = .error := by
  cases leaf with
  | null | bool b | num q | nan | infinity b | str t | arr vs => cases h
  | obj rule =>
      cases hcandidate : candidateOf metrics rule with
      | none =>
          obtain ⟨reason, hr⟩ := evaluateLeaf_refused hcandidate fun hop => by
            by_contra hhash
            rw [evaluateLeaf_unhashable hop hhash] at h
            cases h
          rw [hr] at h
          cases h
          rfl
      | some found =>
          obtain ⟨name, candidate⟩ := found
          rw [evaluateLeaf_candidate hcandidate] at h
          obtain ⟨c, key, reported, _, hthreshold, heq, _⟩ | ⟨reported, reason, _, heq, _⟩ :=
            evaluateCandidate_cases rule (leafBase rule) (Dict.getD rule "operator" .null) name
              candidate
          · rw [heq] at h
            refine compared_of_malformed h ?_
            obtain hmetric | hop | hnumber := hmalformed
            · exact absurd (metric_of_candidate hcandidate) (hmetric name)
            · exact Or.inl hop
            · exact Or.inr (hnumber _ hthreshold)
          · rw [heq] at h
            cases h
            rfl

end Leaf

/-! ### What the engine makes of the rules -/

section Rules

variable {metrics : Metrics} {baselineMetrics : Option Metrics} {rules : Dict} {status : GateStatus}
  {results : List Json}

theorem mapM_congr {α β ε : Type} {f g : α → Except ε β} {l : List α} (h : ∀ a ∈ l, f a = g a) :
    l.mapM f = l.mapM g := by
  induction l with
  | nil => rfl
  | cons a l ih =>
      rw [List.mapM_cons, List.mapM_cons, h a List.mem_cons_self,
        ih fun b hb => h b (List.mem_cons_of_mem a hb)]

/-- A list is mapped exactly if every element is. -/
theorem mapM_eq_ok {α β ε : Type} {f : α → Except ε β} {l : List α} {bs : List β} :
    l.mapM f = .ok bs ↔ List.Forall₂ (fun a b => f a = .ok b) l bs := by
  induction l generalizing bs with
  | nil =>
      cases bs <;> simp [pure, Except.pure]
  | cons a rest ih =>
      rw [List.mapM_cons]
      cases hf : f a with
      | error e =>
          refine iff_of_false (by simp [bind, Except.bind]) fun h => ?_
          cases h with
          | cons h _ =>
              rw [hf] at h
              cases h
      | ok b =>
          cases hrest : rest.mapM f with
          | error e =>
              refine iff_of_false (by simp [bind, Except.bind]) fun h => ?_
              cases h with
              | cons _ h =>
                  rw [ih.mpr h] at hrest
                  cases hrest
          | ok bs' =>
              constructor
              · intro h
                cases h
                exact .cons hf (ih.mp hrest)
              · intro h
                cases h with
                | cons hb h =>
                    cases hf.symm.trans hb
                    cases hrest.symm.trans (ih.mpr h)
                    rfl

theorem exists_mapM_iff {α β ε : Type} {f : α → Except ε β} {P : β → Prop} (l : List α) :
    (∃ bs, l.mapM f = .ok bs ∧ ∀ b ∈ bs, P b) ↔ ∀ a ∈ l, ∃ b, f a = .ok b ∧ P b := by
  simp only [mapM_eq_ok]
  induction l with
  | nil => exact iff_of_true ⟨[], .nil, by simp⟩ (by simp)
  | cons a rest ih =>
      rw [List.forall_mem_cons, ← ih]
      constructor
      · rintro ⟨_, h, hP⟩
        cases h with
        | cons hb h =>
            rw [List.forall_mem_cons] at hP
            exact ⟨⟨_, hb, hP.1⟩, _, h, hP.2⟩
      · rintro ⟨⟨b, hb, hPb⟩, bs, h, hP⟩
        exact ⟨b :: bs, .cons hb h, List.forall_mem_cons.mpr ⟨hPb, hP⟩⟩

/-- The elements of a mapped list. -/
theorem mem_of_mapM {α β ε : Type} {f : α → Except ε β} {l : List α} {bs : List β}
    (h : l.mapM f = .ok bs) {b : β} : b ∈ bs ↔ ∃ a ∈ l, f a = .ok b := by
  rw [mapM_eq_ok] at h
  induction h with
  | nil => simp
  | @cons a b' rest bs' hb _ ih =>
      rw [List.mem_cons, ih, List.exists_mem_cons_iff, hb]
      simp [eq_comm]

theorem allStorable_map_json (rs : List RuleResult) :
    Json.allStorable (rs.map RuleResult.json) = true ↔ ∀ r ∈ rs, r.json.storable = true := by
  induction rs with
  | nil => simp [Json.allStorable]
  | cons r rest ih => simp [Json.allStorable, ih]

/-- The value below `all`, or else below `any`. -/
def chosen (rules : Dict) : Option Json := (rules.get? "all").or (rules.get? "any")

/-- The leaves of the rules. -/
def leavesOf (rules : Dict) : List Json :=
  match chosen rules with
  | some (.arr leaves) => leaves
  | _ => []

/-- How the leaves are combined. -/
def logicalOf (rules : Dict) : String := if (rules.get? "all").isSome then "all" else "any"

/-- **The two outcomes of the engine**: it refuses rules without leaves, or combines the results of all
leaves. -/
theorem evaluate_cases (rules : Dict) :
    (leavesOf rules = [] ∧ ∃ reason, evaluate rules metrics baselineMetrics = .ok (refused reason)) ∨
    (leavesOf rules ≠ [] ∧ evaluate rules metrics baselineMetrics =
      ((leavesOf rules).mapM (evaluateLeaf metrics baselineMetrics)).map fun rs =>
        (combine (rs.map RuleResult.status) (logicalOf rules), rs.map RuleResult.json)) := by
  have hleaves : ∀ logical v, logical = logicalOf rules → chosen rules = some v →
      evaluate rules metrics baselineMetrics = evaluateLeaves logical v metrics baselineMetrics →
      (leavesOf rules = [] ∧
        ∃ reason, evaluate rules metrics baselineMetrics = .ok (refused reason)) ∨
      (leavesOf rules ≠ [] ∧ evaluate rules metrics baselineMetrics =
        ((leavesOf rules).mapM (evaluateLeaf metrics baselineMetrics)).map fun rs =>
          (combine (rs.map RuleResult.status) (logicalOf rules), rs.map RuleResult.json)) := by
    intro logical v hlogical hchosen heq
    unfold leavesOf
    rw [heq, hchosen, ← hlogical]
    cases v with
    | arr leaves =>
        cases leaves with
        | nil => exact Or.inl ⟨rfl, _, rfl⟩
        | cons leaf rest =>
            refine Or.inr ⟨by simp, ?_⟩
            simp only [evaluateLeaves]
            cases (leaf :: rest).mapM (evaluateLeaf metrics baselineMetrics) <;> rfl
    | null | bool b | num q | nan | infinity b | str t | obj kvs => exact Or.inl ⟨rfl, _, rfl⟩
  cases hall : rules.get? "all" with
  | some v =>
      exact hleaves "all" v (by simp [logicalOf, hall]) (by simp [chosen, hall])
        (by simp [evaluate, hall])
  | none =>
      cases hany : rules.get? "any" with
      | some v =>
          exact hleaves "any" v (by simp [logicalOf, hall]) (by simp [chosen, hall, hany])
            (by simp [evaluate, hall, hany])
      | none =>
          refine Or.inl ⟨by simp [leavesOf, chosen, hall, hany], _, by simp [evaluate, hall, hany]; rfl⟩

/-- **The engine answers, with results that can be recorded, exactly if every leaf fits.** -/
theorem evaluate_fits_iff :
    (∃ status results, evaluate rules metrics baselineMetrics = .ok (status, results) ∧
      Json.allStorable results = true) ↔
      ∀ leaf ∈ leavesOf rules, LeafFits metrics baselineMetrics leaf := by
  obtain ⟨hnil, reason, heq⟩ | ⟨_, heq⟩ :=
    @evaluate_cases metrics baselineMetrics rules
  · rw [heq, hnil]
    exact iff_of_true ⟨_, _, rfl, rfl⟩ (by simp)
  · rw [heq]
    have hleaves := exists_mapM_iff (f := evaluateLeaf metrics baselineMetrics)
      (P := fun r => r.json.storable = true) (leavesOf rules)
    simp only [leafFits_iff] at hleaves
    rw [← hleaves]
    cases (leavesOf rules).mapM (evaluateLeaf metrics baselineMetrics) with
    | error e => simp [Except.map]
    | ok rs => simp [Except.map, allStorable_map_json]

/-- Rules without leaves are refused. -/
theorem status_of_no_leaves (h : evaluate rules metrics baselineMetrics = .ok (status, results))
    (hnil : leavesOf rules = []) : status = .error := by
  obtain ⟨_, reason, heq⟩ | ⟨hne, _⟩ :=
    @evaluate_cases metrics baselineMetrics rules
  · rw [heq] at h
    cases h
    rfl
  · exact absurd hnil hne

/-- **Where a leaf is malformed the status is ERROR**, unless `any` leaf passes. -/
theorem status_of_malformed_leaf (h : evaluate rules metrics baselineMetrics = .ok (status, results))
    (hmalformed : ∃ leaf ∈ leavesOf rules, Malformed leaf) :
    status = .error ↔ (rules.get? "all").isSome = true ∨
      ∀ leaf ∈ leavesOf rules, ¬ Passes metrics baselineMetrics leaf := by
  obtain ⟨leaf, hleaf, hm⟩ := hmalformed
  obtain ⟨hnil, _⟩ | ⟨_, heq⟩ :=
    @evaluate_cases metrics baselineMetrics rules
  · rw [hnil] at hleaf
    cases hleaf
  rw [heq] at h
  cases hmap : (leavesOf rules).mapM (evaluateLeaf metrics baselineMetrics) with
  | error e =>
      rw [hmap] at h
      cases h
  | ok rs =>
      rw [hmap] at h
      cases h
      have hresult : ∀ leaf ∈ leavesOf rules, ∃ r ∈ rs,
          evaluateLeaf metrics baselineMetrics leaf = .ok r := by
        intro leaf hleaf
        obtain ⟨r, hr, _⟩ := (exists_mapM_iff (P := fun _ => True) _).mp
          ⟨rs, hmap, fun _ _ => trivial⟩ leaf hleaf
        exact ⟨r, (mem_of_mapM hmap).mpr ⟨leaf, hleaf, hr⟩, hr⟩
      -- the malformed leaf has the status ERROR
      have herror : GateStatus.error ∈ rs.map RuleResult.status := by
        obtain ⟨r, hmem, hr⟩ := hresult leaf hleaf
        exact List.mem_map.mpr ⟨r, hmem, status_of_malformed hr hm⟩
      have hpass : GateStatus.pass ∈ rs.map RuleResult.status ↔
          ∃ leaf ∈ leavesOf rules, Passes metrics baselineMetrics leaf := by
        rw [List.mem_map]
        constructor
        · rintro ⟨r, hmem, hs⟩
          obtain ⟨leaf, hleaf, hr⟩ := (mem_of_mapM hmap).mp hmem
          exact ⟨leaf, hleaf, (pass_iff hr).mp hs⟩
        · rintro ⟨leaf, hleaf, hs⟩
          obtain ⟨r, hmem, hr⟩ := hresult leaf hleaf
          exact ⟨r, hmem, (pass_iff hr).mpr hs⟩
      unfold combine logicalOf
      cases hall : (rules.get? "all").isSome with
      | true => simp [herror]
      | false =>
          by_cases hp : ∃ leaf ∈ leavesOf rules, Passes metrics baselineMetrics leaf
          · simp only [hpass.mpr hp, Bool.false_eq_true, if_false, false_or]
            refine iff_of_false (by simp) fun h => ?_
            obtain ⟨leaf, hleaf, hs⟩ := hp
            exact h leaf hleaf hs
          · have hnone : GateStatus.pass ∉ rs.map RuleResult.status := fun h => hp (hpass.mp h)
            refine iff_of_true ?_ (Or.inr fun leaf hleaf hs => hp ⟨leaf, hleaf, hs⟩)
            simp [hnone, herror]

end Rules

/-! ### Rules without a baseline -/

/-- A leaf of the rules asks for a difference to the baseline. -/
def ComparesBaseline (rules : Dict) : Prop :=
  ∃ leaf ∈ leavesOf rules, ∃ rule, leaf = .obj rule ∧ (Dict.get? rule "baseline_delta").isSome = true

section Baseline

variable {metrics : Metrics} {baselineMetrics baselineMetrics' : Option Metrics}

/-- A leaf without a difference does not look at the baseline. -/
theorem evaluateLeaf_of_no_delta {leaf : Json}
    (h : ∀ rule, leaf = .obj rule → Dict.get? rule "baseline_delta" = none) :
    evaluateLeaf metrics baselineMetrics leaf = evaluateLeaf metrics baselineMetrics' leaf := by
  cases leaf with
  | obj rule =>
      have hnone := h rule rfl
      simp only [evaluateLeaf]
      split
      · rfl
      · cases Dict.getD rule "metric" .null with
        | str name =>
            simp only [evaluateMetric]
            cases metrics.lookup name with
            | none => rfl
            | some candidate => cases candidate <;> simp only [evaluateCandidate, hnone]
        | _ => rfl
  | _ => rfl

theorem evaluateLeaves_congr {logical : String} {leaves : Json}
    (h : ∀ l, leaves = .arr l → ∀ leaf ∈ l,
      evaluateLeaf metrics baselineMetrics leaf = evaluateLeaf metrics baselineMetrics' leaf) :
    evaluateLeaves logical leaves metrics baselineMetrics =
      evaluateLeaves logical leaves metrics baselineMetrics' := by
  cases leaves with
  | arr l =>
      cases l with
      | nil => rfl
      | cons leaf rest =>
          simp only [evaluateLeaves]
          rw [mapM_congr (h _ rfl)]
  | _ => rfl

/-- **Rules that ask for no difference give the same answer with any baseline.** -/
theorem evaluate_of_not_compares {rules : Dict} (h : ¬ ComparesBaseline rules) :
    evaluate rules metrics baselineMetrics = evaluate rules metrics baselineMetrics' := by
  have hleaf : ∀ l, chosen rules = some (.arr l) → ∀ leaf ∈ l,
      evaluateLeaf metrics baselineMetrics leaf = evaluateLeaf metrics baselineMetrics' leaf := by
    intro l hl leaf hleaf
    refine evaluateLeaf_of_no_delta fun rule hrule => ?_
    by_contra hsome
    refine h ⟨leaf, ?_, rule, hrule, Option.isSome_iff_ne_none.mpr hsome⟩
    simpa only [leavesOf, hl] using hleaf
  unfold evaluate
  cases hall : rules.get? "all" with
  | some leaves =>
      exact evaluateLeaves_congr fun l hl => hleaf l (by simp [chosen, hall, hl])
  | none =>
      cases hany : rules.get? "any" with
      | some leaves =>
          exact evaluateLeaves_congr fun l hl => hleaf l (by simp [chosen, hall, hany, hl])
      | none => rfl

end Baseline

end QualityGateEngine

end PosttrainPlatform
