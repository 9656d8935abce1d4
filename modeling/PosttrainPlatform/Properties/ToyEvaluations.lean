import PosttrainPlatform.Properties.Knows
import PosttrainPlatform.Subprocess.Codec
import PosttrainPlatform.Subprocess.ToyEvaluator

/-!
# Evaluations with the toy evaluator

What is known of the output of a subprocess that runs the toy evaluator until it ends or is killed.
-/

namespace PosttrainPlatform

open Programs Process

/-- What the toy evaluator leaves behind that is stopped after some of its actions. -/
def ToyEvaluator.Leaves (env : Env) (py : Python) (context : Dict) (files : List (String × Bytes))
    (i : Input) : Prop :=
  ∃ host acts,
    acts <+: (evaluationMain env host files context (run env py host files context)).trace ∧
      PosttrainPlatform.Leaves acts i

def toyEvaluatorEntrypoint : Json := .str "app.evaluation.toy_evaluator"

/-- A subprocess whose entrypoint is the toy evaluator runs that. -/
def RunsToyEvaluator (env : Env) (py : Python) : Op → Input → World → Prop
  | .spawn .evaluation context files, i, _ =>
      context.get? "evaluator_entrypoint" = some toyEvaluatorEntrypoint →
        ToyEvaluator.Leaves env py context files i
  | _, _, _ => True

/-- The output of such a subprocess. -/
def PrintedByToyEvaluator (env : Env) (py : Python) : (op : Op) → op.Ret → Prop
  | .spawn .evaluation context files, lines =>
      context.get? "evaluator_entrypoint" = some toyEvaluatorEntrypoint →
        ∃ i, ToyEvaluator.Leaves env py context files i ∧ i.lines = lines
  | _, _ => True

section Subprocess

variable {env : Env} {py : Python} {s : World} {es : List (SysEvent env)} {c : System env}

theorem printed_of_reaches (h : Reaches s es c)
    (htoy : Runs.Always Config.step (Config.AtStep (RunsToyEvaluator env py))
      ({ shared := s } : System env) es) {p : ℕ} {op : Op} {a : op.Ret}
    (ha : History.Answered (pasts env s es p) op a) : PrintedByToyEvaluator env py op a := by
  refine answers_of_run (fun p call op i s a hop ha => ?_) htoy h.2 ha
  cases op
  case spawn executor context files =>
      cases executor with
      | training | simulated => trivial
      | evaluation =>
          intro hentry
          exact ⟨i, hop hentry, Except.ok.inj ha⟩
  all_goals trivial

/-- The bytes at a path of the context have the digest that it expects. -/
def AcceptedFile (env : Env) (host : Host) (context : Dict) (files : List (String × Bytes))
    (pathKey hashKey : String) : Prop :=
  ∃ path data, context.get? pathKey = some path ∧ (openFile host files path).result = .ok data ∧
    hashAccepted (context.getD hashKey .null) (env.sha256 data) = true

/-- **An event of the toy evaluator** comes when both files have been accepted, and after what it has
reported before. -/
theorem ToyEvaluator.Leaves.reports {context : Dict} {files : List (String × Bytes)} {i : Input}
    (h : ToyEvaluator.Leaves env py context files i) :
    ∃ host, ∀ (event : Dict) kind, .json (.obj event) ∈ i.lines →
      event.get? "event" = some (.str kind) → kind ∉ framingKinds →
        AcceptedFile env host context files "model_path" "model_expected_hash" ∧
        AcceptedFile env host context files "dataset_path" "dataset_expected_hash" ∧
        ∃ before, Traces.Occurs before (.report event) (run env py host files context).trace ∧
          ∀ e, .report e ∈ before → .json (.obj e) ∈ i.lines := by
  obtain ⟨host, acts, hacts, hleaves⟩ := h
  refine ⟨host, fun event kind hline hkind hkinds => ?_⟩
  obtain ⟨before, hoccurs⟩ := Traces.exists_occurs (hleaves.mem_lines.mp hline)
  obtain hframing | ⟨hmodel, hdataset, y, z, tail, rfl, htail⟩ :=
    occurs_evaluationMain (hoccurs.mono hacts)
  · exact absurd hframing (not_framing hkind hkinds)
  · refine ⟨hmodel, hdataset, tail, htail, fun e he => hleaves.mem_lines.mpr ?_⟩
    exact hoccurs.before_mem (List.mem_cons_of_mem _ (List.mem_cons_of_mem _ he))

/-- **A metric event of the toy evaluator has the split of its context.** -/
theorem ToyEvaluator.Leaves.split {context : Dict} {files : List (String × Bytes)} {i : Input}
    (h : ToyEvaluator.Leaves env py context files i) {event : Dict}
    (hline : .json (.obj event) ∈ i.lines) (hkind : event.get? "event" = some (.str "metric")) :
    event.getD "split" (.str "all") = context.getD "split" (.str "all") := by
  obtain ⟨host, hreports⟩ := h.reports
  obtain ⟨_, _, before, hoccurs, _⟩ := hreports event _ hline hkind (by decide)
  obtain ⟨_, _, _, m, _, _, _, _, rfl⟩ := metric_of_mem_trace hoccurs.mem hkind
  rfl

/-- **Nobody changes an evaluation configuration.** -/
theorem evaluationConfigs_of_reaches (h : Reaches s es c) :
    c.shared.db.evaluationConfigs = s.db.evaluationConfigs := by
  refine kept_of_reaches (P := fun s' => s'.db.evaluationConfigs = s.db.evaluationConfigs)
    (fun s₁ s₂ hgrow hsame => ?_) h List.nil_prefix rfl rfl
  have hkept : s₂.db.evaluationConfigs = s₁.db.evaluationConfigs := hgrow.records.evaluationConfigs
  exact hkept.trans hsame

end Subprocess

/-! ### Checking an output -/

/-- The objects have the same keys, with the same values. -/
def Dict.sameFields (same : Json → Json → Bool) : Dict → Dict → Bool
  | [], [] => true
  | (key, v) :: d, (key', v') :: d' => decide (key = key') && same v v' && sameFields same d d'
  | _, _ => false

theorem Dict.eq_of_sameFields {same : Json → Json → Bool}
    (hsame : ∀ v v', same v v' = true → v = v') {d d' : Dict}
    (h : Dict.sameFields same d d' = true) : d = d' := by
  induction d generalizing d' with
  | nil =>
      cases d' with
      | nil => rfl
      | cons => cases h
  | cons field d ih =>
      cases d' with
      | nil => cases h
      | cons field' d' =>
          simp only [Dict.sameFields, Bool.and_eq_true] at h
          obtain ⟨⟨hkey, hv⟩, hrest⟩ := h
          rw [ih hrest, Prod.ext (of_decide_eq_true hkey) (hsame _ _ hv)]

/-- The values are equal, and have at most so many levels of objects; lists are not compared. -/
def Json.same : ℕ → Json → Json → Bool
  | _, .null, .null => true
  | _, .num q, .num q' => decide (q = q')
  | _, .str s, .str s' => decide (s = s')
  | depth + 1, .obj d, .obj d' => Dict.sameFields (Json.same depth) d d'
  | _, _, _ => false

theorem Json.eq_of_same (depth : ℕ) (v v' : Json) (h : Json.same depth v v' = true) : v = v' := by
  induction depth generalizing v v' with
  | zero =>
      unfold Json.same at h
      split at h
      · rfl
      · rw [of_decide_eq_true h]
      · rw [of_decide_eq_true h]
      · contradiction
      · cases h
  | succ depth ih =>
      unfold Json.same at h
      split at h
      · rfl
      · rw [of_decide_eq_true h]
      · rw [of_decide_eq_true h]
      · rename_i hdepth
        cases hdepth
        rw [Dict.eq_of_sameFields ih h]
      · cases h

/-- The contexts are equal, and have objects of atoms. -/
def Dict.same (d d' : Dict) : Bool := Dict.sameFields (Json.same 1) d d'

theorem Dict.eq_of_same {d d' : Dict} (h : Dict.same d d' = true) : d = d' :=
  Dict.eq_of_sameFields (Json.eq_of_same 1) h

/-- What a pass of the toy evaluator is given. -/
structure ToyEvaluator.Pass where
  host : Host
  context : Dict
  files : List (String × Bytes)

namespace ToyEvaluator.Pass

variable {env : Env} {pass : Pass}

/-- The actions of a pass that is not interrupted. -/
def acts (env : Env) (pass : Pass) : List Action :=
  (evaluationMain env pass.host pass.files pass.context
    (run env .standard pass.host pass.files pass.context)).trace

/-- The input has the output of the pass, or nothing. -/
def Prints (env : Env) (pass : Pass) (i : Input) : Prop :=
  i.files = [] ∧ (i.lines = [] ∨
    i.lines = ((pass.acts env).filterMap Action.event?).map fun event => .json (.obj event))

/-- The toy evaluator writes no files. -/
theorem file?_of_mem {x : Action} (h : x ∈ pass.acts env) : x.file? = none := by
  obtain ⟨before, hoccurs⟩ := Traces.exists_occurs h
  obtain hframing | ⟨_, _, _, _, _, _, hrun⟩ := occurs_evaluationMain hoccurs
  · cases x with
    | write => exact hframing.elim
    | report => rfl
  · obtain ⟨_, _, ⟨_, _, _, _, _, _, rfl⟩ | ⟨_, _, _, _, ⟨_, _, rfl⟩ | rfl⟩⟩ :=
      mem_trace_run hrun.mem
    all_goals rfl

theorem leaves {i : Input} (h : pass.Prints env i) :
    ToyEvaluator.Leaves env .standard pass.context pass.files i := by
  obtain ⟨hfiles, hlines | hlines⟩ := h
  · refine ⟨pass.host, [], List.nil_prefix, ?_, hfiles⟩
    rw [hlines]
    rfl
  · refine ⟨pass.host, pass.acts env, List.prefix_rfl, ?_, ?_⟩
    · rw [hlines, List.filterMap_map]
      exact congrFun List.filterMap_eq_map _
    · rw [hfiles, List.filterMap_eq_nil_iff.mpr fun _ => file?_of_mem]
      rfl

/-- A subprocess of the evaluator is given what the pass is given. -/
def check (pass : Pass) : Op → Bool
  | .spawn .evaluation context files =>
      Dict.same context pass.context && decide (files = pass.files)
  | _ => true

end ToyEvaluator.Pass

/-- The input of a step meets the condition of its thread. -/
def SuppliedWith {env : Env} (P : ℕ → Input → Prop) : SysEvent env → Prop
  | .step p i => P p i
  | _ => True

theorem suppliedWith_session {env : Env} {P : ℕ → Input → Prop} {p n : ℕ} {call : Call} {i : Input}
    (h : P p i) : ∀ e ∈ (session p call n i : List (SysEvent env)), SuppliedWith P e := by
  intro e he
  obtain rfl | he := List.mem_cons.mp he
  · trivial
  · rw [List.eq_of_mem_replicate he]
    exact h

/-- The statement that a thread is about to execute meets the check of the thread. -/
def PendingMeets {env : Env} (check : ℕ → Op → Bool) (c : System env) : SysEvent env → Prop
  | .step p _ => ∀ op ∈ c.pending p, check p op = true
  | _ => True

instance {env : Env} (check : ℕ → Op → Bool) (c : System env) :
    (e : SysEvent env) → Decidable (PendingMeets check c e)
  | .step p _ => inferInstanceAs (Decidable (∀ op ∈ c.pending p, check p op = true))
  | .start .. | .fault .. | .crash _ | .ambient _ => isTrue trivial

/-- **A condition on the statements of a run** from one on the inputs, and a check of the statements. -/
theorem atStep_of_supplied {env : Env} {s : World} {es : List (SysEvent env)}
    {P : ℕ → Input → Prop} {check : ℕ → Op → Bool} {φ : Op → Input → World → Prop}
    (hφ : ∀ p op i s, P p i → check p op = true → φ op i s)
    (hinputs : ∀ e ∈ es, SuppliedWith P e)
    (h : Runs.Always Config.step (PendingMeets check) ({ shared := s } : System env) es) :
    Runs.Always Config.step (Config.AtStep φ) ({ shared := s } : System env) es := by
  refine Runs.always_mono (fun c e hboth => ?_) (Runs.always_and (Runs.always_of_mem hinputs _) h)
  obtain ⟨hinput, hchecked⟩ := hboth
  cases e with
  | step p i =>
      intro call op k hat
      exact hφ p op i _ hinput (hchecked op (Config.pending_eq_some.mpr ⟨call, k, hat⟩))
  | _ => trivial

/-- **Threads that have the output of a pass run the toy evaluator**, if they give it what the pass is
given. -/
theorem runsToyEvaluator_of_check {env : Env} (s : World) (es : List (SysEvent env))
    (pass : ℕ → ToyEvaluator.Pass)
    (hinputs : ∀ e ∈ es, SuppliedWith (fun p i => (pass p).Prints env i) e)
    (h : Runs.Always Config.step (PendingMeets fun p => (pass p).check)
      ({ shared := s } : System env) es) :
    Runs.Always Config.step (Config.AtStep (RunsToyEvaluator env .standard))
      ({ shared := s } : System env) es := by
  refine atStep_of_supplied (fun p op i s hprints hcheck => ?_) hinputs h
  cases op
  case spawn executor context files =>
      cases executor with
      | training | simulated => trivial
      | evaluation =>
          obtain ⟨hcontext, hfiles⟩ := Bool.and_eq_true_iff.mp hcheck
          obtain rfl := Dict.eq_of_same hcontext
          obtain rfl := of_decide_eq_true hfiles
          exact fun _ => ToyEvaluator.Pass.leaves hprints
  all_goals trivial

/-- A host on which every example takes the same time. -/
def Host.steady (latencyMs : ℚ) : Host where
  file _ := none
  writable _ := true
  cuda := none
  latencyMs _ := latencyMs
  message _ := ""

end PosttrainPlatform
