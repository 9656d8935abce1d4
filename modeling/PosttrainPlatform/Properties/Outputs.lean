import PosttrainPlatform.Properties.Roles

/-!
# Registering the final output twice

`training_run_outputs` has one row per run, and its `INSERT` has no conflict clause.  Once an attempt
has registered the output of its run, the same statement of a later live attempt is an integrity
error, and no handler stands between that statement and the caller of `process_job_message`: the
attempt stops its heartbeat and raises.
-/

namespace PosttrainPlatform

open Programs Service

/-- The registration of a final output. -/
def Op.RegistersOutput : Op → Prop
  | .registerOutput .. => True
  | _ => False

/-- A statement that fails while the final output is registered ends the program: it stops the
heartbeat and raises. -/
abbrev RegistersOnce {α : Type} (p : Service α) : Prop :=
  p.Fatal Op.RegistersOutput fun op => op = .stopHeartbeat

section Programs

variable {α : Type}

theorem once_of_record {p : Service α} (h : p.All (Op.Inside .record .any)) : RegistersOnce p := by
  refine Prog.fatal_of_all (Prog.all_mono (fun op hop hreg => ?_) h)
  have hrole : op.role = .plain ∨ op.role = .record ∨ op.role = .upload := by
    simpa [Op.Within, Role.covers] using hop.1
  cases op <;> simp [Op.RegistersOutput, Op.role] at hreg hrole

theorem once_uploadAndRegisterFinal (env : Env) (t : Ticket) (event : Dict) :
    RegistersOnce (uploadAndRegisterFinal env t event) := by
  refine Prog.fatal_bind (once_of_record (all_field _ _)) fun path => ?_
  refine Prog.fatal_perform_bind fun data => ?_
  refine Prog.fatal_bind (once_of_record (Prog.all_mono (fun _ => .mono (by decide))
    (all_uploadArtifact env data _))) fun uploaded => ?_
  simp only
  split
  · trivial
  · exact Prog.fatal_perform_bind fun registered => trivial

theorem once_handleTrainingEvent (env : Env) (t : Ticket) (run : TrainingRun) (event : Dict)
    (progress : Progress) : RegistersOnce (handleTrainingEvent env t run event progress) := by
  unfold handleTrainingEvent
  split
  · exact Prog.fatal_bind (once_of_record (all_refresh (inside_plain rfl rfl))) fun job => trivial
  · refine Prog.fatal_bind (once_of_record (all_refresh (inside_plain rfl rfl))) fun job => ?_
    exact Prog.fatal_bind (once_of_record (all_check _ _)) fun _ => trivial
  · refine Prog.fatal_bind (once_of_record (all_field _ _)) fun step => ?_
    exact Prog.fatal_perform_bind fun recorded => trivial
  · refine Prog.fatal_bind (once_of_record ?_) fun _ => trivial
    exact all_uploadAndRegisterCheckpoint env t run event
  · exact Prog.fatal_bind (once_uploadAndRegisterFinal env t event) fun _ => trivial
  · trivial

section Supervise

variable {handle : Dict → Progress → Service Progress}
  (h : ∀ event progress, RegistersOnce (handle event progress))

include h

theorem once_superviseLines (lines : List Line) (progress : Progress) :
    RegistersOnce (superviseLines handle lines progress) := by
  induction lines generalizing progress with
  | nil => trivial
  | cons line rest ih =>
      refine Prog.fatal_perform_bind fun abandoned => ?_
      cases abandoned with
      | true => trivial
      | false =>
          refine Prog.fatal_bind ?_ fun progress => ih progress
          unfold handleLine
          split
          · trivial
          · trivial
          · exact h _ _
          · trivial
          · trivial

theorem once_supervise (executor : Executor) (context : Dict) (files : List (String × Bytes)) :
    RegistersOnce (supervise executor context files handle) := by
  refine Prog.fatal_perform_bind fun lines => ?_
  refine Prog.fatal_bind (once_superviseLines h lines _) fun progress => ?_
  cases progress with
  | none => trivial
  | some progress =>
      refine Prog.fatal_perform_bind fun abandoned => ?_
      cases abandoned <;> trivial

end Supervise

theorem once_runTrainingAttempt (env : Env) (t : Ticket) (run : TrainingRun) :
    RegistersOnce (runTrainingAttempt env t run) := by
  refine Prog.fatal_perform_bind fun _ => ?_
  refine Prog.fatal_bind (once_of_record (all_refresh (inside_plain rfl rfl))) fun job => ?_
  refine Prog.fatal_bind (once_of_record (all_prepareResume _ run)) fun resumed => ?_
  refine Prog.fatal_bind (once_of_record (all_found _ _)) fun _ => ?_
  refine Prog.fatal_perform_bind fun recorded => ?_
  refine Prog.fatal_bind (once_supervise (once_handleTrainingEvent env t run) _ _ _) fun progress => ?_
  cases progress <;> trivial

theorem once_failRun (t : Ticket) (outcome : AttemptOutcome) : RegistersOnce (failRun t outcome) :=
  Prog.fatal_perform_bind fun _ => trivial

theorem once_concludeEvaluation (t : Ticket) (progress : Progress) :
    RegistersOnce (concludeEvaluation t progress) := by
  unfold concludeEvaluation
  split
  · refine Prog.fatal_perform_bind fun marked => ?_
    cases marked <;> trivial
  · exact once_failRun t _

theorem once_runEvaluationAttempt (env : Env) (t : Ticket) (run : EvaluationRun) :
    RegistersOnce (runEvaluationAttempt env t run) := by
  refine Prog.fatal_perform_bind fun _ => ?_
  refine Prog.fatal_bind (once_of_record (all_refresh (inside_plain rfl rfl))) fun job => ?_
  refine Prog.fatal_perform_bind fun config => ?_
  refine Prog.fatal_bind (once_of_record (all_prepareInputs run)) fun inputs => ?_
  cases inputs with
  | error message => exact once_failRun t _
  | ok inputs =>
      refine Prog.fatal_bind (once_of_record (all_found _ _)) fun _ => ?_
      refine Prog.fatal_perform_bind fun marked => ?_
      cases marked with
      | false => trivial
      | true =>
          refine Prog.fatal_bind (once_supervise (fun event progress =>
            once_of_record (all_handleEvaluationEvent env t event progress)) _ _ _)
            fun progress => ?_
          cases progress with
          | none => trivial
          | some progress => exact once_concludeEvaluation t progress

theorem once_runBody (env : Env) (j : JobId) (w : WorkerId) (k : ℕ) :
    RegistersOnce (runBody env j w k) := by
  refine Prog.fatal_perform_bind fun run => ?_
  cases run with
  | some run => exact once_runTrainingAttempt env _ _
  | none =>
      refine Prog.fatal_perform_bind fun run => ?_
      cases run with
      | some run => exact Prog.fatal_bind (once_runEvaluationAttempt env _ _) fun _ => trivial
      | none =>
          refine Prog.fatal_perform_bind fun _ => ?_
          refine Prog.fatal_bind (once_of_record (all_refresh (inside_plain rfl rfl))) fun job => ?_
          exact Prog.fatal_bind (once_of_record (all_sleep _)) fun _ => trivial

theorem once_conclude (env : Env) (j : JobId) (w : WorkerId) (k : ℕ) (outcome : AttemptOutcome)
    (loaded : Option Job) : RegistersOnce (conclude env j w k outcome loaded) := by
  have hfinish : ∀ ending, RegistersOnce (finish j w k ending) := fun ending => by
    refine Prog.fatal_perform_bind fun finalized => ?_
    cases finalized <;> trivial
  refine Prog.fatal_perform_bind fun abandoned => ?_
  cases abandoned with
  | true => trivial
  | false =>
      refine Prog.fatal_perform_bind fun row => ?_
      split
      · exact hfinish _
      · exact Prog.fatal_bind (once_of_record (all_endingOf env k outcome)) fun ending =>
          hfinish ending

/-- **Nothing in `process_job_message` handles the failure of the registration.** -/
theorem once_processJobMessage (env : Env) (j : JobId) (w : WorkerId) :
    RegistersOnce (processJobMessage env j w) := by
  refine Prog.fatal_perform_bind fun matched => ?_
  refine Prog.fatal_bind (once_of_record (all_getIf (inside_plain rfl rfl))) fun job => ?_
  cases job with
  | none => trivial
  | some job =>
      refine Prog.fatal_perform_bind fun _ => ?_
      refine Prog.fatal_perform_bind fun _ => ?_
      refine Prog.fatal_bind ?_ fun result => once_conclude env j w _ _ _
      exact Prog.fatal_ensuring (once_runBody env j w _) (Prog.all_perform.mpr rfl)
        (Prog.fatal_perform _)

end Programs

/-! ### Every run -/

theorem registerOutput_fails {env : Env} {s : World} {j : JobId} {w : WorkerId} {run : RunId} {k : ℕ}
    {row : TrainingRunOutput} (a : ArtifactId) (p : ℕ) (i : Input) (hlive : s.db.Owns j w k)
    (hrow : s.db.trainingRunOutputs.lookup run = some row) :
    (Op.registerOutput j w run k a).perform env p i s = (s, .error .databaseError) := by
  simp only [Op.perform, TrainingRunOutputsRepo.register_of_taken a hlive hrow, World.tryWrite]

/-- **A live attempt that comes to register the output of a run which already has one never returns
from `process_job_message`**, and never finalises its job: the registration raises, and from then on
the attempt can only stop its heartbeat and raise. -/
theorem second_output_raises {env : Env} {s : World} {es es' : List (SysEvent env)}
    {c c' : System env} (h : Reaches s es c) {p : ℕ} {i : Input} {j₀ j : JobId} {w₀ w : WorkerId}
    {run : RunId} {k : ℕ} {a : ArtifactId} {row : TrainingRunOutput}
    {rest : Except Exn Bool → Service Reply}
    (hat : c.AtOp p (.processJobMessage j₀ w₀) (.registerOutput j w run k a) rest)
    (hlive : c.shared.db.Owns j w k)
    (hrow : c.shared.db.trainingRunOutputs.lookup run = some row)
    (hrun : Runs.runFrom Config.step c (.step p i :: es') = some c') :
    c'.Has p (.processJobMessage j₀ w₀) fun prog =>
      (∀ r, prog ≠ .ret r) ∧ ∀ op k, prog = .call op k → op = .stopHeartbeat := by
  have hfatal : c.Every fun (call : Call) prog =>
      ∀ j w, call = .processJobMessage j w → RegistersOnce prog := by
    refine Config.every_of_run (M := platform env) ?_ ?_ h.2
    · rintro call j w rfl
      exact Prog.fatal_bind (once_processJobMessage env j w) fun _ => trivial
    · exact fun call op k r hk j w hcall => (hk j w hcall).2 r
  obtain ⟨m, hm, hrun⟩ := Runs.runFrom_cons.mp hrun
  have hraises : (rest (.error .databaseError)).Raises fun op => op = .stopHeartbeat :=
    (hfatal p _ hat j₀ w₀ rfl).1 trivial _
  have hnow : m.Has p (Call.processJobMessage j₀ w₀) fun prog =>
      prog.Raises fun op => op = .stopHeartbeat := by
    simp only [Config.step] at hm
    rw [hat] at hm
    simp only [Option.some.injEq] at hm
    subst hm
    refine ⟨_, Function.update_self _ _ _, rfl, ?_⟩
    simp only [platform, registerOutput_fails a p i hlive hrow]
    exact hraises
  obtain ⟨t, ht, hcall, hprog⟩ := hnow.run (fun op k r hk => hk.2 r) hrun
  refine ⟨t, ht, hcall, fun r hr => ?_, fun op k hk => ?_⟩
  · rw [hr] at hprog
    exact hprog
  · rw [hk] at hprog
    exact hprog.1

/-! ### An attempt after a crash -/

/-- The subprocess reports its final artifact. -/
def finalReported (now : Time) : Input where
  now
  uuid := 9
  lines := [.json (.obj [("event", .str "final"), ("local_path", .str "model")])]
  file := some [1]

/-- An attempt registers the output of its run and dies, recovery takes the job back, and the next
attempt comes to register the output. -/
def outputThenCrash : List (SysEvent Env.standard) :=
  session 0 (.createTrainingRun trainingPayload) 3 { uuid := 1 } ++ session 1 .schedulerRunOnce 8 {} ++
    session 2 (.processJobMessage 1 7) 19 (finalReported 0) ++ [.crash 2] ++
    session 3 .recoveryRunOnce 4 { now := 100 } ++ session 4 .schedulerRunOnce 8 { now := 200 } ++
    session 5 (.processJobMessage 1 8) 13 (finalReported 200)

/-- **The crash is not recoverable**: the next attempt, which holds the lease and has seen the final
event, raises, and its job is not SUCCEEDED. -/
theorem output_before_crash_raises : ∃ c : System Env.standard,
    Reaches World.registry (outputThenCrash ++ proceed 5 2 (finalReported 200)) c ∧
      c.result 5 = some (.error .databaseError) ∧ c.shared.db.Owns 1 8 2 ∧
      c.shared.db.trainingRunOutputs.rows.length = 1 :=
  exists_reaches World.registry_initial _ (by decide +kernel)

/-- The thread is a live attempt that comes to register the output of a run which has one. -/
def registersAgain {env : Env} (db : Db) : Thread (platform env) → Bool
  | { call := .processJobMessage _ _, prog := .call (.registerOutput j w run k _) _, alive := true } =>
      decide (db.Owns j w k) && (db.trainingRunOutputs.lookup run).isSome
  | _ => false

/-- The second attempt of a run whose output is registered never finalises its job. -/
theorem second_attempt_raises : ∃ (c c' : System Env.standard) (j : JobId) (w : WorkerId),
    Reaches World.registry outputThenCrash c ∧
      Runs.runFrom Config.step c [.step 5 {}] = some c' ∧
      c'.Has 5 (.processJobMessage j w) fun prog =>
        (∀ r, prog ≠ .ret r) ∧ ∀ op k, prog = .call op k → op = .stopHeartbeat := by
  obtain ⟨c, hc, ⟨t, ht, hagain⟩, hnext⟩ := exists_reaches World.registry_initial
    outputThenCrash (P := fun c => (∃ t ∈ c.threads 5, registersAgain c.shared.db t = true) ∧
      (Runs.runFrom Config.step c [.step 5 {}]).isSome) (by decide +kernel)
  obtain ⟨c', hrun⟩ := Option.isSome_iff_exists.mp hnext
  unfold registersAgain at hagain
  split at hagain
  · rename_i j₀ w₀ j w run k a rest
    obtain ⟨hlive, hrow⟩ := Bool.and_eq_true_iff.mp hagain
    obtain ⟨row, hrow⟩ := Option.isSome_iff_exists.mp hrow
    exact ⟨c, c', j₀, w₀, hc, hrun,
      second_output_raises hc ht (of_decide_eq_true hlive) hrow hrun⟩
  · cases hagain

end PosttrainPlatform
