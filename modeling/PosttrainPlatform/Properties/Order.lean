import PosttrainPlatform.Properties.Past
import PosttrainPlatform.Properties.Roles

/-!
# The steps of an attempt come in order

A worker claims its job, inserts the attempt, starts its heartbeat, looks the run up, records its resume decision or
marks the run RUNNING, starts the subprocess, marks the run's end and finalises the job: each step at
most once, and in this order.
-/

namespace PosttrainPlatform

open Programs Service

/-- The steps so far are of rank `n` at most. -/
def Past.Below (h : Past) (n : ℕ) : Prop := ∀ d ∈ h, d.1.rank ≤ n

/-- The program takes its steps in order, and has come to rank `n` when it ends. -/
abbrev Orders {α : Type} (h : Past) (p : Service α) (n : ℕ) : Prop :=
  p.Justified Past.InOrder h fun _ (m : Past) => m.Below n

section Rules

variable {α β : Type} {h : Past} {n N : ℕ}

theorem Past.Below.le (hh : h.Below n) (hN : n ≤ N) : h.Below N := fun d hd => (hh d hd).trans hN

theorem Past.Below.cons (hh : h.Below n) {d : Done Op Op.Ret Exn} (hd : d.1.rank ≤ n) :
    Past.Below (d :: h) n := by
  intro e he
  obtain rfl | he := List.mem_cons.mp he
  · exact hd
  · exact hh e he

/-- A program without steps. -/
theorem orders_steady {p : Service α} (hp : p.All fun op => op.rank = 0) (hh : h.Below n) :
    Orders h p n :=
  Prog.justified_of_all (I := fun m : Past => m.Below n)
    (fun _ _ hm hop => ⟨Or.inl hop, fun _ => hm.cons (by rw [hop]; exact Nat.zero_le n)⟩) hp hh

theorem Orders.bind {p : Service α} {f : α → Service β} (hp : Orders h p n) (hN : n ≤ N)
    (hf : ∀ a m, m.Below n → Orders m (f a) N) : Orders h (p >>= f) N :=
  Prog.justified_bind hp hf fun _ _ hm => hm.le hN

/-- The next step, and the rest of the program. -/
theorem orders_step {op : Op} {f : op.Ret → Service β} (hh : h.Below n) (hrank : n < op.rank)
    (hN : op.rank ≤ N) (hf : ∀ a m, m.Below op.rank → Orders m (f a) N) :
    Orders h (exec op >>= f) N := by
  have hnext : ∀ r, Past.Below (⟨op, r⟩ :: h) op.rank := fun r =>
    (hh.le hrank.le).cons (le_refl _)
  refine Prog.justified_perform_bind (Or.inr fun d hd => ?_) (fun a => hf a _ (hnext _))
    fun e => (hnext _).le hN
  exact lt_of_le_of_lt (hh d hd) hrank

/-- Only the worker's own statements are steps. -/
theorem rank_of_inside {ρ : Role} {op : Op} (hop : op.Inside ρ .any)
    (hρ : ρ ∉ [Role.prepare, .execute]) : op.rank = 0 := by
  have hrole : op.role ≠ .prepare ∧ op.role ≠ .execute := by
    obtain hplain | hcovers := hop.1
    · rw [hplain]
      decide
    · revert hρ hcovers
      cases ρ <;> simp only [Role.covers] <;> cases op.role <;> decide
  have hduty : op.duty = .any := by simpa using hop.2
  cases op <;> simp [Op.role, Op.duty] at hrole hduty <;> rfl

theorem orders_of_inside {ρ : Role} {p : Service α} (hp : p.All (Op.Inside ρ .any))
    (hρ : ρ ∉ [Role.prepare, .execute]) (hh : h.Below n) : Orders h p n :=
  orders_steady (Prog.all_mono (fun _ hop => rank_of_inside hop hρ) hp) hh

end Rules

variable {env : Env} {h : Past}

theorem orders_refresh {j : JobId} {loaded : Option Job} {n : ℕ} (hh : h.Below n) :
    Orders h (refresh j loaded) n := orders_steady (all_refresh rfl) hh

/-- The subprocess is started once, and nothing that it prints leads to another step. -/
theorem orders_supervise {handle : Dict → Progress → Service Progress} {ρ : Role}
    (hρ : ρ ∉ [Role.prepare, .execute])
    (hhandle : ∀ event progress, (handle event progress).All (Op.Inside ρ .any))
    {executor : Executor} {context : Dict} {files : List (String × Bytes)} (hh : h.Below 6) :
    Orders h (supervise executor context files handle) 7 := by
  have hsteady : ∀ event progress, (handle event progress).All fun op => op.rank = 0 :=
    fun event progress =>
      Prog.all_mono (fun _ hop => rank_of_inside hop hρ) (hhandle event progress)
  refine orders_step hh (by simp [Op.rank]) (le_refl _) fun lines m hm => ?_
  refine Orders.bind (orders_steady
    (all_superviseLines (φ := fun op => op.rank = 0) rfl hsteady lines _) hm) (le_refl _)
    fun progress m hm => ?_
  cases progress with
  | none => exact hm
  | some progress =>
      refine orders_steady (Prog.all_perform_bind.mpr ⟨rfl, fun abandoned => ?_⟩) hm
      cases abandoned <;> trivial

theorem orders_runTrainingAttempt (t : Ticket) (run : TrainingRun) (hh : h.Below 4) :
    Orders h (runTrainingAttempt env t run) 7 := by
  refine Orders.bind (orders_steady (Prog.all_perform.mpr rfl) hh) (by decide) fun _ m hm => ?_
  refine Orders.bind (orders_refresh hm) (by decide) fun job m hm => ?_
  refine Orders.bind (orders_of_inside (ρ := .plain) (all_prepareResume _ run) (by decide) hm)
    (by decide) fun resumed m hm => ?_
  refine Orders.bind (orders_steady (all_found _ _) hm) (by decide) fun resources m hm => ?_
  refine orders_step hm (by simp [Op.rank]) (by simp [Op.rank]) fun b m hm => ?_
  refine Orders.bind (orders_supervise (by decide) (all_handleTrainingEvent env t run) hm)
    (le_refl _) fun progress m hm => ?_
  cases progress <;> exact hm

theorem orders_failRun (t : Ticket) (outcome : AttemptOutcome) {n : ℕ} (hn : n < 8)
    (hh : h.Below n) : Orders h (failRun t outcome) 8 :=
  orders_step hh hn (le_refl _) fun _ _ hm => hm

theorem orders_runEvaluationAttempt (t : Ticket) (run : EvaluationRun) (hh : h.Below 5) :
    Orders h (runEvaluationAttempt env t run) 8 := by
  refine Orders.bind (orders_steady (Prog.all_perform.mpr rfl) hh) (by decide) fun _ m hm => ?_
  refine Orders.bind (orders_refresh hm) (by decide) fun job m hm => ?_
  refine Orders.bind (orders_steady (Prog.all_perform.mpr rfl) hm) (by decide) fun config m hm => ?_
  refine Orders.bind (orders_of_inside (ρ := .plain) (all_prepareInputs run) (by decide) hm)
    (by decide) fun inputs m hm => ?_
  cases inputs with
  | error message => exact orders_failRun t _ (by decide) hm
  | ok inputs =>
      refine Orders.bind (orders_steady (all_found _ _) hm) (by decide) fun resources m hm => ?_
      refine orders_step hm (by simp [Op.rank]) (by simp [Op.rank]) fun marked m hm => ?_
      cases marked with
      | false => exact hm.le (by simp [Op.rank])
      | true =>
          refine Orders.bind (orders_supervise (by decide) (all_handleEvaluationEvent env t) hm)
            (by simp) fun progress m hm => ?_
          cases progress with
          | none => exact hm.le (by decide)
          | some progress =>
              simp only [concludeEvaluation]
              split
              · refine orders_step hm (by simp [Op.rank]) (le_refl _) fun marked m hm => ?_
                cases marked <;> exact hm
              · exact orders_failRun t _ (by decide) hm

theorem orders_runBody (j : JobId) (w : WorkerId) (k : ℕ) (hh : h.Below 3) :
    Orders h (runBody env j w k) 8 := by
  refine orders_step hh (by simp [Op.rank]) (by simp [Op.rank]) fun training m hm => ?_
  cases training with
  | some run =>
      exact (orders_runTrainingAttempt _ run.2 hm).mono fun _ _ hm => hm.le (by decide)
  | none =>
      refine orders_step hm (by simp [Op.rank]) (by simp [Op.rank]) fun evaluation m hm => ?_
      cases evaluation with
      | some run =>
          exact Orders.bind (orders_runEvaluationAttempt _ run.2 hm) (le_refl _) fun _ _ hm => hm
      | none =>
          refine (orders_steady ?_ hm).mono fun _ _ hm => hm.le (by simp [Op.rank])
          refine Prog.all_perform_bind.mpr ⟨rfl, fun _ => ?_⟩
          refine Prog.all_bind (all_refresh rfl) fun job => ?_
          exact Prog.all_bind (all_sleep _) fun _ => trivial

theorem orders_conclude (j : JobId) (w : WorkerId) (k : ℕ) (outcome : AttemptOutcome)
    (loaded : Option Job) (hh : h.Below 8) : Orders h (conclude env j w k outcome loaded) 9 := by
  have hfinish : ∀ {m : Past} (ending : Ending), m.Below 8 → Orders m (finish j w k ending) 9 := by
    intro m ending hm
    refine orders_step hm (by simp [Op.rank]) (by simp [Op.rank]) fun finalized m hm => ?_
    cases finalized <;> exact hm
  refine Orders.bind (orders_steady (Prog.all_perform.mpr rfl) hh) (by decide)
    fun abandoned m hm => ?_
  cases abandoned with
  | true => exact hm.le (by decide)
  | false =>
      refine Orders.bind (orders_steady (Prog.all_perform.mpr rfl) hm) (by decide) fun row m hm => ?_
      split
      · exact hfinish _ hm
      · refine Orders.bind (orders_of_inside (ρ := .plain) (all_endingOf env k outcome)
          (by decide) hm) (by decide) fun ending m hm => ?_
        exact hfinish ending hm

theorem orders_processJobMessage (j : JobId) (w : WorkerId) (hh : h.Below 0) :
    Orders h (processJobMessage env j w) 9 := by
  refine orders_step hh (by simp [Op.rank]) (by simp [Op.rank]) fun matched m hm => ?_
  refine Orders.bind (orders_steady (all_getIf rfl) hm) (by simp [Op.rank]) fun job m hm => ?_
  cases job with
  | none => exact hm.le (by simp [Op.rank])
  | some job =>
      refine orders_step hm (by simp [Op.rank]) (by simp [Op.rank]) fun _ m hm => ?_
      refine orders_step hm (by simp [Op.rank]) (by simp [Op.rank]) fun _ m hm => ?_
      refine Orders.bind (n := 8) ?_ (by decide) fun r m hm => orders_conclude j w _ r.1 r.2 hm
      refine Prog.justified_ensuring (orders_runBody j w _ hm) fun r m hm => ?_
      exact orders_steady (Prog.all_perform.mpr rfl) hm

/-- **Every call takes the steps of an attempt in order.** -/
theorem inOrder_program (env : Env) (call : Call) :
    (call.program env).Justified Past.InOrder [] fun _ _ => True := by
  have hempty : ∀ n, Past.Below [] n := fun n d hd => by cases hd
  have hother : (∀ op : Op, op.Inside call.role call.duty → op.rank = 0) →
      (call.program env).Justified Past.InOrder [] fun _ _ => True := fun hrank =>
    (orders_steady (Prog.all_mono hrank (inside_program env call)) (hempty 0)).mono
      fun _ _ _ => trivial
  cases call with
  | processJobMessage j w =>
      refine Prog.Justified.mono (Orders.bind (N := 9) (orders_processJobMessage j w (hempty 0))
        (le_refl _) fun _ _ hm => hm) fun _ _ _ => trivial
  | workerRunOnce w =>
      refine Prog.Justified.mono (Orders.bind (n := 9) (N := 9) ?_ (le_refl _) fun _ _ hm => hm)
        fun _ _ _ => trivial
      refine Orders.bind (orders_steady (Prog.all_perform.mpr rfl) (hempty 0)) (by decide)
        fun message m hm => ?_
      cases message with
      | none => exact hm.le (by decide)
      | some message =>
          refine Orders.bind (Prog.justified_attempt (orders_processJobMessage _ w hm)) (le_refl _)
            fun _ m hm => ?_
          exact orders_steady (Prog.all_perform.mpr rfl) hm
  | relayOnce | evaluateQualityGate =>
      refine hother fun op hop => ?_
      cases op <;> simp [Op.Inside, Op.Within, Op.role, Op.duty, Call.role, Call.duty, Role.covers]
        at hop <;> rfl
  | createJob | createTrainingRun | createEvaluation | updateJob | cancelJob | deleteJob
  | schedulerRunOnce | recoveryRunOnce | uploadArtifact | renewUploadLease | reconcileOnce
  | createDataset | createDatasetVersion | createModel | registerVersion =>
      exact hother fun op hop => rank_of_inside hop (by simp [Call.role])

end PosttrainPlatform
