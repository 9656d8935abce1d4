import PosttrainPlatform.Properties.GateVerdicts
import PosttrainPlatform.Properties.Knows

/-!
# What the evaluation of a gate has read

The reads of `evaluate_quality_gate` are separate statements.  `Past.Resolves` says which of them have
led to the baseline metrics, and `Past.JustifiesGate` what stands behind the verdict that is recorded.
-/

namespace PosttrainPlatform

open Programs Service QualityGateEngine

/-- The completed runs of a listing; the run itself is seen as it was loaded. -/
def seenRuns (runId : RunId) (run : EvaluationRun) (listed : List (RunId × EvaluationRun)) :
    List (RunId × EvaluationRun) :=
  (listed.map fun r => if r.1 = runId then (runId, run) else r).filter
    fun r => r.2.status = .succeeded

namespace Past

/-- The evaluation has loaded the run, which was completed. -/
def Loaded (h : Past) (runId : RunId) (run : EvaluationRun) : Prop :=
  h.Answered (.getEvaluationRun runId) (some run) ∧ run.status = .succeeded

/-- The configurations that have been read are those of the database. -/
def ReadsConfigs (h : Past) (db : Db) : Prop :=
  ∀ c config?, h.Answered (.getEvaluationConfig c) config? →
    db.evaluationConfigs.lookup c = config?

/-- The metrics are those that were read for the first run that can be compared. -/
def FindsBaseline (h : Past) (run : EvaluationRun) (completed : List (RunId × EvaluationRun))
    (baselineMetrics : Option Metrics) : Prop :=
  ∀ db, h.ReadsConfigs db → Option.Rel (fun r metrics => h.Answered (.metricMap r.1) metrics)
    (completed.find? fun r => comparable db run r.2) baselineMetrics

/-- **What has led to the baseline metrics.** -/
def Resolves (h : Past) (runId : RunId) (run : EvaluationRun) (baselineMetrics : Option Metrics) :
    Prop :=
  (run.baseline.1.isNone = true ∧ baselineMetrics = none) ∨
    (run.baseline.1.isNone = false ∧ ∃ listed,
      h.Answered (.listForModelVersion run.baseline) listed ∧
        h.FindsBaseline run (seenRuns runId run listed) baselineMetrics)

/-- **What has led to a verdict.** -/
def Decides (h : Past) (runId : RunId) (gate : ℕ) (answer : GateStatus × List Json) : Prop :=
  ∃ run rules metrics baselineMetrics, h.Loaded runId run ∧
    h.Answered (.getQualityGate gate) (some rules) ∧ h.Answered (.metricMap runId) metrics ∧
      h.Resolves runId run baselineMetrics ∧ evaluate rules metrics baselineMetrics = .ok answer

/-- **What stands behind the statements of an evaluation of a gate.** -/
def JustifiesGate (h : Past) : Op → Prop
  | .getEvaluationRun _ => h = []
  | .getQualityGate _ => ∃ d, h = [d]
  | .recordGateResult runId gate status ruleResults => h.Decides runId gate (status, ruleResults)
  | _ => True

/-! ### What is read stays read -/

section Mono

variable {h h' : Past} (hsub : h ⊆ h')

include hsub

theorem Loaded.mono {runId : RunId} {run : EvaluationRun} (hh : h.Loaded runId run) :
    h'.Loaded runId run := ⟨hh.1.mono hsub, hh.2⟩

theorem ReadsConfigs.anti {db : Db} (hh : h'.ReadsConfigs db) : h.ReadsConfigs db :=
  fun c config? hc => hh c config? (hc.mono hsub)

theorem FindsBaseline.mono {run : EvaluationRun} {completed : List (RunId × EvaluationRun)}
    {baselineMetrics : Option Metrics} (hh : h.FindsBaseline run completed baselineMetrics) :
    h'.FindsBaseline run completed baselineMetrics := by
  intro db hdb
  have hrel := hh db (hdb.anti hsub)
  revert hrel
  generalize completed.find? _ = first
  intro hrel
  cases hrel with
  | some hread => exact .some (hread.mono hsub)
  | none => exact .none

theorem Resolves.mono {runId : RunId} {run : EvaluationRun} {baselineMetrics : Option Metrics}
    (hh : h.Resolves runId run baselineMetrics) : h'.Resolves runId run baselineMetrics := by
  obtain hnone | ⟨hsome, listed, hlisted, hfinds⟩ := hh
  · exact Or.inl hnone
  · exact Or.inr ⟨hsome, listed, hlisted.mono hsub, hfinds.mono hsub⟩

theorem Decides.mono {runId : RunId} {gate : ℕ} {answer : GateStatus × List Json}
    (hh : h.Decides runId gate answer) : h'.Decides runId gate answer := by
  obtain ⟨run, rules, metrics, baselineMetrics, hrun, hrules, hmetrics, hresolves, hanswer⟩ := hh
  exact ⟨run, rules, metrics, baselineMetrics, hrun.mono hsub, hrules.mono hsub,
    hmetrics.mono hsub, hresolves.mono hsub, hanswer⟩

end Mono

/-! ### The reads of one evaluation -/

section Order

variable {h : Past} (horder : History.Orderly JustifiesGate h)

include horder

/-- **An evaluation has the rules of one gate.** -/
theorem gate_unique {gate gate' : ℕ} {r r' : Except Exn (Option Dict)}
    (hd : ⟨.getQualityGate gate, r⟩ ∈ h) (hd' : ⟨.getQualityGate gate', r'⟩ ∈ h) :
    gate = gate' ∧ r = r' := by
  obtain ⟨earlier, hsuffix, e, rfl⟩ := horder.of_mem hd
  obtain ⟨earlier', hsuffix', e', rfl⟩ := horder.of_mem hd'
  have heq := (List.suffix_of_suffix_length_le hsuffix hsuffix' le_rfl).eq_of_length rfl
  obtain ⟨hfirst, _⟩ := List.cons.inj heq
  obtain ⟨hop, hr⟩ := Sigma.mk.inj hfirst
  cases hop
  exact ⟨rfl, eq_of_heq hr⟩

end Order

end Past

/-! ### The programs -/

section Programs

variable {h : Past}

theorem configCompatible_learns (c₁ c₂ : ℕ) :
    (configCompatible c₁ c₂).Learns Past.JustifiesGate h fun agree m =>
      ∀ db, Past.ReadsConfigs m db → configsAgree db c₁ c₂ = agree := by
  unfold configCompatible configsAgree
  by_cases heq : c₁ = c₂
  · rw [if_pos heq]
    refine Prog.learns_ret fun db _ => ?_
    simp [heq]
  · rw [if_neg heq]
    refine Prog.learns_perform_bind trivial fun cand m _ hcand => ?_
    refine Prog.learns_perform_bind trivial fun base m' hsub hbase => ?_
    have hread : ∀ {m'' : Past}, m' ⊆ m'' → ∀ db, m''.ReadsConfigs db →
        db.evaluationConfigs.lookup c₁ = cand ∧ db.evaluationConfigs.lookup c₂ = base := by
      intro m'' hsub' db hdb
      exact ⟨hdb c₁ cand ((hcand.mono hsub).mono hsub'), hdb c₂ base (hbase.mono hsub')⟩
    cases cand with
    | none =>
        refine Prog.learns_ret fun db hdb => ?_
        simp [heq, (hread (fun _ => id) db hdb).1]
    | some cand =>
        cases base with
        | none =>
            refine Prog.learns_ret fun db hdb => ?_
            obtain ⟨h₁, h₂⟩ := hread (fun _ => id) db hdb
            simp [heq, h₁, h₂]
        | some base =>
            refine Prog.learns_ret fun db hdb => ?_
            obtain ⟨h₁, h₂⟩ := hread (fun _ => id) db hdb
            simp [heq, h₁, h₂]

/-- The loop reads the metrics of the first run that can be compared. -/
theorem firstComparable_learns (run : EvaluationRun) (completed : List (RunId × EvaluationRun)) :
    (firstComparable run completed).Learns Past.JustifiesGate h fun baselineMetrics m =>
      Past.FindsBaseline m run completed baselineMetrics := by
  induction completed generalizing h with
  | nil => exact Prog.learns_ret fun db _ => .none
  | cons r rest ih =>
      obtain ⟨baseId, base⟩ := r
      refine Prog.Learns.bind (configCompatible_learns _ _) fun agree m _ hagree => ?_
      have hcomparable : ∀ {m' : Past}, m ⊆ m' → ∀ db, m'.ReadsConfigs db →
          comparable db run base = (decide (base.dataset = run.dataset) && agree) := by
        intro m' hsub db hdb
        rw [comparable, hagree db (hdb.anti hsub)]
      cases hok : decide (base.dataset = run.dataset) && agree with
      | true =>
          rw [if_pos rfl]
          refine Prog.learns_perform_bind trivial fun metrics m' hsub hmetrics => ?_
          refine Prog.learns_ret fun db hdb => ?_
          rw [List.find?_cons, hcomparable hsub db hdb, hok]
          exact .some hmetrics
      | false =>
          rw [if_neg Bool.false_ne_true]
          refine Prog.Learns.mono ih fun baselineMetrics m' hsub hfinds db hdb => ?_
          rw [List.find?_cons, hcomparable hsub db hdb, hok]
          exact hfinds db hdb

theorem resolveBaselineMetrics_learns (runId : RunId) (run : EvaluationRun) :
    (resolveBaselineMetrics runId run).Learns Past.JustifiesGate h fun baselineMetrics m =>
      Past.Resolves m runId run baselineMetrics := by
  unfold resolveBaselineMetrics
  cases hbase : run.baseline.1.isNone with
  | true => exact Prog.learns_ret (Or.inl ⟨hbase, rfl⟩)
  | false =>
      rw [if_neg Bool.false_ne_true]
      refine Prog.learns_perform_bind trivial fun listed m _ hlisted => ?_
      refine Prog.Learns.mono (firstComparable_learns run _) fun baselineMetrics m' hsub hfinds => ?_
      exact Or.inr ⟨hbase, listed, hlisted.mono hsub, hfinds⟩

theorem learns_ofEngine_bind {α β : Type} {D : Past → Op → Prop} {r : Except Exn α}
    {f : α → Service β} {R : β → Past → Prop} (hf : ∀ a, r = .ok a → (f a).Learns D h R) :
    (ofEngine r >>= f).Learns D h R := by
  cases r with
  | error e => exact Prog.learns_raise
  | ok a => exact hf a rfl

/-- **An evaluation records the verdict on what it has read.** -/
theorem evaluateQualityGate_justified (runId : RunId) (gate : ℕ) :
    (evaluateQualityGate runId gate).Justified Past.JustifiesGate [] fun _ _ => True := by
  unfold evaluateQualityGate
  refine Prog.justified_perform_bind rfl (fun run? => ?_) fun e => trivial
  cases run? with
  | none => trivial
  | some run =>
      refine Prog.justified_perform_bind ⟨_, rfl⟩ (fun rules? => ?_) fun e => trivial
      cases rules? with
      | none => trivial
      | some rules =>
          have hrun : History.Answered (⟨.getQualityGate gate, .ok (some rules)⟩ ::
              [⟨.getEvaluationRun runId, .ok (some run)⟩] : Past) (.getEvaluationRun runId)
              (some run) := History.Answered.cons (History.answered_cons_self _ _ _) _
          have hrules : History.Answered (⟨.getQualityGate gate, .ok (some rules)⟩ ::
              [⟨.getEvaluationRun runId, .ok (some run)⟩] : Past) (.getQualityGate gate)
              (some rules) := History.answered_cons_self _ _ _
          refine Prog.Justified.mono (Q := fun r m => _ ⊆ m ∧ ∀ a, r = .ok a → True)
            (learns_check_bind fun hstatus => ?_) fun _ _ _ => trivial
          refine Prog.learns_perform_bind trivial fun metrics m hsub hmetrics => ?_
          refine Prog.Learns.bind (resolveBaselineMetrics_learns runId run)
            fun baselineMetrics m' hsub' hresolves => ?_
          refine learns_ofEngine_bind fun answer hanswer => ?_
          obtain ⟨status, ruleResults⟩ := answer
          refine Prog.learns_perform_bind ⟨run, rules, metrics, baselineMetrics,
            ⟨(hrun.mono hsub).mono hsub', of_decide_eq_true hstatus⟩,
            (hrules.mono hsub).mono hsub', hmetrics.mono hsub', hresolves, hanswer⟩
            fun inserted m'' _ _ => ?_
          refine Prog.learns_perform_bind trivial fun existing? m''' _ _ => ?_
          exact learns_found_bind fun existing _ => Prog.learns_ret trivial

/-- **Every call keeps the discipline of the gates.** -/
theorem justifiesGate_program (env : Env) (call : Call) :
    (call.program env).Justified Past.JustifiesGate [] fun _ _ => True := by
  by_cases hcall : call.duty = .gate
  · cases call <;> simp only [Call.duty, reduceCtorEq] at hcall
    exact Prog.justified_bind (evaluateQualityGate_justified _ _) (fun _ _ _ => trivial)
      fun _ _ _ => trivial
  · refine Prog.justified_of_all (I := fun _ => True) (fun m op _ hop => ⟨?_, fun _ => trivial⟩)
      (inside_program env call) trivial
    have hduty : op.duty ≠ .gate := by
      obtain hany | hsame := hop.2
      · rw [hany]
        decide
      · rw [hsame]
        exact hcall
    cases op
    case getEvaluationRun | getQualityGate | recordGateResult => exact absurd rfl hduty
    all_goals trivial

end Programs

end PosttrainPlatform
