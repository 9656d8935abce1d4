import PosttrainPlatform.Properties.Storage

/-!
# What stands behind the success of a training job

`_handle_event` takes a final event for registered whatever `register` returned.  A refused
registration shows that the attempt is lost, though, and then the finalisation is refused as well: a
job that succeeds has its own output.
-/

namespace PosttrainPlatform

open Programs

section Finalize

variable {env : Env} {s : World} {j : JobId} {w : WorkerId} {k : ℕ}

/-- A finalisation that goes through finalises a live attempt. -/
theorem owns_of_finalizeTx {db db' : Db} {ending : Ending} {now : Time}
    (h : finalizeTx env db j w k ending now = some (db', true)) : db.Owns j w k := by
  unfold finalizeTx at h
  simp only at h
  split at h
  · cases h
  split at h
  swap
  · cases h
  rename_i hmatched
  obtain heq | ⟨job, hj, howned, _⟩ := JobsRepo.updateWhere_cases (r := JobsRepo.finalizeAttempt db j
    w k ending.jobStatus ending.nextRetryAt?) rfl
  · rw [heq] at hmatched
    exact absurd hmatched.1 Bool.false_ne_true
  · exact ⟨job, hj, howned⟩

theorem owns_of_finalize {p : ℕ} {i : Input} {ending : Ending}
    (h : ((Op.finalize j w k ending).perform env p i s).2 = .ok true) : s.db.Owns j w k := by
  obtain ⟨db, hdb, _⟩ := tryWrite_ok h
  exact owns_of_finalizeTx hdb

/-- **A stale attempt neither designates the output nor completes the job.** -/
theorem stale_attempt_refused (hstale : ¬ s.db.Owns j w k) (p : ℕ) (i : Input) (run : RunId)
    (a : ArtifactId) :
    (Op.registerOutput j w run k a).perform env p i s = (s, .ok false) ∧
      (Op.finalize j w k .succeeded).perform env p i s = (s, .ok false) := by
  have hfinalized : ∀ status t, JobsRepo.finalizeAttempt s.db j w k status t = (s.db, false) := by
    intro status t
    obtain heq | ⟨job, hj, howned, _⟩ := JobsRepo.updateWhere_cases
      (r := JobsRepo.finalizeAttempt s.db j w k status t) rfl
    · exact heq
    · exact absurd ⟨job, hj, howned⟩ hstale
  constructor
  · simp only [Op.perform, TrainingRunOutputsRepo.register, Db.fenced_of_not_owns hstale,
      World.tryWrite, World.write]
  · simp only [Op.perform, finalizeTx, hfinalized, AttemptsRepo.finalize]
    cases s.db.attempts.lookup (j, k) <;> rfl

end Finalize

/-- A job that succeeded as a training job has the output of the attempt that completed it. -/
def Backed (s : World) (h : Pasts) : Prop :=
  ∀ p j w k run row, (h p).Answered (.finalize j w k .succeeded) true →
    (h p).Answered (.findTrainingRun j) (some (run, row)) → ∃ a,
      s.db.trainingRunOutputs.lookup run = some { finalArtifactId := a, attemptNumber := k } ∧
        s.db.Uploaded a

section Invariant

variable {env : Env} {p : ℕ} {s s' : World} {h : Pasts}

theorem Backed.grow (hb : Backed s h) (hgrow : s.Grows s') : Backed s' h := by
  intro p j w k run row hfinal hfound
  obtain ⟨a, hrow, ha⟩ := hb p j w k run row hfinal hfound
  exact ⟨a, hgrow.records.trainingRunOutputs run _ hrow, hgrow.uploaded ha⟩

/-- **The success of a live training attempt finds its own output.** -/
theorem backed_of_finalize (hk : Knows env s h) {j : JobId} {w : WorkerId} {k : ℕ}
    (hop : Past.Justifies env (h p) (.finalize j w k .succeeded)) (howns : s.db.Owns j w k)
    {run : RunId} {row : TrainingRun}
    (hfound : (h p).Answered (.findTrainingRun j) (some (run, row))) : ∃ a,
      s.db.trainingRunOutputs.lookup run = some { finalArtifactId := a, attemptNumber := k } ∧
        s.db.Uploaded a := by
  -- a job is looked up once
  have hsame : ∀ r, (h p).Answered (.findTrainingRun j) r → r = some (run, row) := by
    intro r hr
    have heq := Past.InOrder.unique (hk.inOrder p) hr hfound rfl (by simp [Op.rank])
    simpa using heq
  obtain ⟨_, outcome, hconcludes, hsucceeded, _⟩ := hop
  cases hconcludes with
  | training found final =>
      cases hsame _ found
      obtain hodd | ⟨a, b, hregister⟩ := final (hsucceeded rfl)
      · exact absurd hodd hk.not_odd
      · have htold := hk.told p _ _ hregister
        cases b with
        | false => exact absurd (htold.1 rfl) (not_lost_of_owns howns)
        | true =>
            have hjustified := hk.justified (.of_answered hregister)
            exact ⟨a, htold.2 rfl, hk.uploaded (hjustified.sawUploaded rfl)⟩
  | evaluation notTraining => cases hsame _ notTraining
  | simulated notTraining => cases hsame _ notTraining

theorem Backed.perform (hb : Backed s h) (hk : Knows env s h) {op : Op}
    (hop : Past.Disciplined env (h p) op) (i : Input) :
    Backed (op.perform env p i s).1 (h.add p ⟨op, (op.perform env p i s).2⟩) := by
  intro q j w k run row hfinal hfound
  obtain ⟨rfl, hnow⟩ | hearlier := Histories.mem_add.mp hfinal
  · obtain ⟨rfl, heq⟩ := Sigma.mk.inj_iff.mp hnow
    have hold : (h q).Answered (.findTrainingRun j) (some (run, row)) := by
      obtain ⟨_, hnew⟩ | hold := Histories.mem_add.mp hfound
      · obtain ⟨hop', _⟩ := Sigma.mk.inj_iff.mp hnew
        cases hop'
      · exact hold
    obtain ⟨a, hrow, ha⟩ :=
      backed_of_finalize hk hop.2 (owns_of_finalize (eq_of_heq heq).symm) hold
    have hgrow := perform_grows env q i s (.finalize j w k .succeeded)
    exact ⟨a, hgrow.records.trainingRunOutputs run _ hrow, hgrow.uploaded ha⟩
  · obtain ⟨rfl, hnow⟩ | hfound' := Histories.mem_add.mp hfound
    · -- nobody looks a job up after finalising it
      obtain ⟨rfl, _⟩ := Sigma.mk.inj_iff.mp hnow
      obtain hzero | hless := hop.1
      · simp [Op.rank] at hzero
      · exact absurd (hless _ hearlier) (by simp [Op.rank])
    · exact hb.grow (perform_grows env p i s op) q j w k run row hearlier hfound'

theorem backed_invariant (env : Env) :
    HistoryInvariant (M := platform env) (Past.Disciplined env) Backed (Knows env)
      fun _ _ _ => True where
  perform _ i _ _ _ _ hk hb hop _ := hb.perform hk hop i
  fault _ _ _ _ _ _ hb _ := fun q j w k run row hfinal hfound =>
    hb q j w k run row (Histories.answered_of_fault hfinal) (Histories.answered_of_fault hfound)
  halt p s _ _ hb := hb.grow (s.stopHeartbeat_grows p)
  ambient a s _ _ hb := hb.grow (beat_grows env s a.1 a.2)

end Invariant

/-- **A training success is backed by its own output**: once `process_job_message` has committed
SUCCEEDED for attempt `k` of a job that it found to belong to a training run, the run has exactly one
output row, of attempt `k` and with an UPLOADED artifact.  A stale attempt can neither designate the
output nor complete the job. -/
theorem training_success_backed {env : Env} {s : World} {es : List (SysEvent env)} {c : System env}
    (h : Reaches s es c) :
    (∀ p j w k run row, (pasts env s es p).Answered (.finalize j w k .succeeded) true →
      (pasts env s es p).Answered (.findTrainingRun j) (some (run, row)) → ∃ a,
        c.shared.db.trainingRunOutputs.rows.filter (fun r => r.1 = run) =
          [(run, { finalArtifactId := a, attemptNumber := k })] ∧ c.shared.db.Uploaded a) ∧
    ∀ j w k, ¬ c.shared.db.Owns j w k → ∀ p i run a,
      (Op.registerOutput j w run k a).perform env p i c.shared = (c.shared, .ok false) ∧
        (Op.finalize j w k .succeeded).perform env p i c.shared = (c.shared, .ok false) := by
  refine ⟨fun p j w k run row hfinal hfound => ?_, fun j w k hstale p i run a =>
    stale_attempt_refused hstale p i run a⟩
  have hbacked : Backed c.shared (pasts env s es) :=
    (backed_invariant env).run (disciplined_program env) (fun _ _ _ _ _ _ ha => by cases ha)
      (fun fs m hfs hm => knows_of_reaches ⟨h.1, hm⟩)
      (Runs.always_of_forall (Config.atStep_of_forall fun _ _ _ => trivial) _ es) h.2
  obtain ⟨a, hrow, ha⟩ := hbacked p j w k run row hfinal hfound
  exact ⟨a, Table.rows_of_lookup hrow, ha⟩

/-- The entry is a finalisation as SUCCEEDED that went through. -/
def finalizedEntry (j : JobId) (w : WorkerId) (k : ℕ) : Done Op Op.Ret Exn → Bool
  | ⟨.finalize j' w' k' .succeeded, .ok true⟩ => decide (j' = j ∧ w' = w ∧ k' = k)
  | _ => false

/-- The entry has found the training run of the job. -/
def foundEntry (j : JobId) (run : RunId) : Done Op Op.Ret Exn → Bool
  | ⟨.findTrainingRun j', .ok (some (run', _))⟩ => decide (j' = j ∧ run' = run)
  | _ => false

theorem answered_of_finalizedEntry {m : Past} {j : JobId} {w : WorkerId} {k : ℕ}
    (h : m.any (finalizedEntry j w k) = true) : m.Answered (.finalize j w k .succeeded) true := by
  obtain ⟨d, hd, hentry⟩ := List.any_eq_true.mp h
  unfold finalizedEntry at hentry
  split at hentry
  · obtain ⟨rfl, rfl, rfl⟩ := of_decide_eq_true hentry
    exact hd
  · cases hentry

theorem answered_of_foundEntry {m : Past} {j : JobId} {run : RunId}
    (h : m.any (foundEntry j run) = true) :
    ∃ row, m.Answered (.findTrainingRun j) (some (run, row)) := by
  obtain ⟨d, hd, hentry⟩ := List.any_eq_true.mp h
  unfold foundEntry at hentry
  split at hentry
  · rename_i row
    obtain ⟨rfl, rfl⟩ := of_decide_eq_true hentry
    exact ⟨row, hd⟩
  · cases hentry

/-- A subprocess that writes one file and reports it as the final one. -/
def finalOnly : Input where
  uuid := 5
  lines := [.json (.obj [("event", .str "final"), ("local_path", .str "model")])]
  files := [("model", [1, 2])]

/-- A training run is created and trained. -/
def trainedJob : List (SysEvent Env.standard) :=
  session 0 (.createTrainingRun trainingPayload) 3 { uuid := 1 } ++ session 1 .schedulerRunOnce 8 {} ++
    session 2 (.processJobMessage 1 7) 24 finalOnly

/-- The job of `trainedJob` succeeds, and has its output. -/
theorem trained_job_backed : ∃ c : System Env.standard, Reaches World.registry trainedJob c ∧
    ∃ a, c.shared.db.trainingRunOutputs.rows.filter (fun r => r.1 = 1) =
      [(1, { finalArtifactId := a, attemptNumber := 1 })] ∧ c.shared.db.Uploaded a := by
  obtain ⟨c, hc, _⟩ := exists_reaches World.registry_initial trainedJob
    (P := fun c : System .standard => ∃ job ∈ c.shared.db.jobs.lookup 1, job.status = .succeeded)
    (by decide +kernel)
  have hfinal : (pasts .standard World.registry trainedJob 2).Answered
      (.finalize 1 7 1 .succeeded) true := answered_of_finalizedEntry (by decide +kernel)
  obtain ⟨row, hfound⟩ : ∃ row, (pasts .standard World.registry trainedJob 2).Answered
      (.findTrainingRun 1) (some (1, row)) := answered_of_foundEntry (by decide +kernel)
  exact ⟨c, hc, (training_success_backed hc).1 2 1 7 1 1 row hfinal hfound⟩

end PosttrainPlatform
