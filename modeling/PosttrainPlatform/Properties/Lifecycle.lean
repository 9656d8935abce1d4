import PosttrainPlatform.Properties.Views

/-!
# The life of a job

Every committed change of a status is an edge of the documented state machine, and the attempt number
counts the successful claims.  Neither the worker nor recovery requeues a job that has no attempt
left, so the settings bound the number of claims.
-/

namespace PosttrainPlatform

open Programs Service

/-! ### The state machine -/

/-- The edges of the documented state machine. -/
inductive JobStatus.Edge : JobStatus → JobStatus → Prop
  | enqueue : Edge .pending .queued
  | claim : Edge .queued .running
  | cancelQueued : Edge .queued .cancelled
  | succeed : Edge .running .succeeded
  | fail : Edge .running .failed
  | cancelRunning : Edge .running .cancelled
  | retry : Edge .running .queued

def JobStatus.Terminal : JobStatus → Prop
  | .succeeded | .failed | .cancelled => True
  | .pending | .queued | .running => False

/-- **Terminal statuses are absorbing.** -/
theorem JobStatus.Edge.not_terminal {a b : JobStatus} (h : a.Edge b) : ¬ a.Terminal := by
  cases h <;> exact id

theorem JobStatus.edge_of_valid {a b : JobStatus} (h : b ∈ validTransitions a) : a.Edge b := by
  cases a <;> simp [validTransitions] at h
  case pending =>
      subst h
      exact .enqueue
  case queued =>
      rcases h with rfl | rfl
      · exact .claim
      · exact .cancelQueued
  case running =>
      rcases h with rfl | rfl | rfl
      · exact .succeed
      · exact .fail
      · exact .cancelRunning

theorem JobStatus.edge_of_ending (ending : Ending) : JobStatus.Edge .running ending.jobStatus := by
  cases ending with
  | cancelled => exact .cancelRunning
  | succeeded => exact .succeed
  | retry => exact .retry
  | failed => exact .fail

theorem JobStatus.edge_of_reclaimed (job : Job) (maxAttempts : ℕ) :
    JobStatus.Edge .running (JobsRepo.reclaimedStatus job maxAttempts) := by
  unfold JobsRepo.reclaimedStatus
  split
  · exact .cancelRunning
  · split
    · exact .fail
    · exact .retry

/-- **Whatever happens to a row, its status stays or moves along an edge.** -/
theorem RowStep.edge {maxAttempts : ℕ} {job job' : Job} (h : RowStep maxAttempts job job') :
    job'.status = job.status ∨ job.status.Edge job'.status := by
  cases h with
  | transition hto hfrom => exact Or.inr (JobStatus.edge_of_valid (mem_sourcesFor hto hfrom))
  | setCancelRequested | updateConfig | softDelete | clearRetryDispatched | heartbeat =>
      exact Or.inl rfl
  | claim w hs =>
      rw [hs]
      exact Or.inr .claim
  | finalize hown =>
      rw [hown.1]
      exact Or.inr (JobStatus.edge_of_ending _)
  | reclaim hs =>
      rw [hs]
      exact Or.inr (JobStatus.edge_of_reclaimed job maxAttempts)

/-! ### Successful claims -/

/-- The statement is a claim of job `j` that takes effect. -/
def Op.claims (env : Env) (i : Input) (db : Db) (j : JobId) : Op → Bool
  | .claim j' w => j' == j && (JobsRepo.claim db j' w i.now env.settings.leaseDurationSeconds).2
  | _ => false

/-- The event executes a claim of job `j` that takes effect. -/
def ClaimsJob {env : Env} (j : JobId) (c : System env) : SysEvent env → Bool
  | .step p i => (c.pending p).any fun op => op.claims env i c.shared.db j
  | _ => false

theorem ClaimsJob.of_atOp {env : Env} {j : JobId} {c : System env} {p : ℕ} {i : Input} {call : Call}
    {op : Op} {k : Except Exn op.Ret → Service Reply} (hat : c.AtOp p call op k) :
    ClaimsJob j c (.step p i) = op.claims env i c.shared.db j := by
  have hpending : c.pending p = some op := Config.pending_eq_some.mpr ⟨call, k, hat⟩
  simp only [ClaimsJob, hpending, Option.any_some]

theorem ClaimsJob.atOp {env : Env} {j : JobId} {c : System env} {p : ℕ} {i : Input}
    (h : ClaimsJob j c (.step p i) = true) :
    ∃ call op k, c.AtOp p call op k ∧ op.claims env i c.shared.db j = true := by
  obtain ⟨op, hop, hclaims⟩ := (Option.any_eq_true _ _).mp h
  obtain ⟨call, k, hat⟩ := Config.pending_eq_some.mp hop
  exact ⟨call, op, k, hat, hclaims⟩

theorem Op.claims_eq_true {env : Env} {i : Input} {db : Db} {j : JobId} {op : Op} :
    op.claims env i db j = true ↔ ∃ w, op = .claim j w ∧
      ∃ job, db.jobs.lookup j = some job ∧ JobsRepo.Claimable db j i.now job := by
  constructor
  · intro h
    unfold Op.claims at h
    split at h
    · rename_i j' w
      obtain ⟨hj, hmatched⟩ := Bool.and_eq_true_iff.mp h
      obtain rfl : j' = j := eq_of_beq hj
      generalize hr : JobsRepo.claim db j' w i.now env.settings.leaseDurationSeconds = r at hmatched
      obtain rfl | ⟨job, hjob, hready, rfl⟩ := JobsRepo.updateWhere_cases hr
      · cases hmatched
      · exact ⟨w, rfl, job, hjob, hready⟩
    · cases h
  · intro h
    obtain ⟨w, rfl, job, hjob, hready⟩ := h
    simp only [Op.claims, beq_self_eq_true, Bool.true_and, JobsRepo.claim, JobsRepo.updateWhere, hjob,
      if_pos hready]

/-- A job that does not exist is not claimed. -/
theorem ClaimsJob.of_none {env : Env} {j : JobId} {c : System env} {e : SysEvent env}
    (hj : c.shared.db.jobs.lookup j = none) : ClaimsJob j c e = false := by
  cases e with
  | step p i =>
      by_contra hne
      obtain ⟨call, op, k, _, hclaims⟩ := ClaimsJob.atOp (eq_true_of_ne_false hne)
      obtain ⟨w, _, job, hjob, _⟩ := Op.claims_eq_true.mp hclaims
      rw [hj] at hjob
      cases hjob
  | start p call => rfl
  | fault p x => rfl
  | crash p => rfl
  | ambient a => rfl

/-- Only a claim moves an attempt number. -/
theorem JobStep.attempt_eq {env : Env} {c : Core} {i : Input} {j : JobId} {op : Op} {v v' : JobView}
    (h : JobStep env c i j op v v') (hop : ∀ w, op ≠ .claim j w) :
    v'.job.attemptNumber = v.job.attemptNumber := by
  cases h with
  | claim => exact absurd rfl (hop _)
  | _ => rfl

/-- **A statement moves the attempt number of a job by one exactly if it claims it.** -/
theorem perform_attempt (env : Env) (p : ℕ) (i : Input) {s : World} (op : Op) {j : JobId}
    {job : Job} (hj : s.db.jobs.lookup j = some job) :
    ∃ job', (op.perform env p i s).1.db.jobs.lookup j = some job' ∧
      job'.attemptNumber = job.attemptNumber + (op.claims env i s.db j).toNat := by
  have hcore := perform_core env p i s op
  obtain ⟨job', hj', _⟩ := hcore.rows.persists j job hj
  refine ⟨job', hj', ?_⟩
  by_cases hop : ∃ w, op = .claim j w
  · obtain ⟨w, rfl⟩ := hop
    have hj' : (JobsRepo.claim s.db j w i.now env.settings.leaseDurationSeconds).1.jobs.lookup j =
        some job' := hj'
    simp only [Op.claims, beq_self_eq_true, Bool.true_and]
    generalize hr : JobsRepo.claim s.db j w i.now env.settings.leaseDurationSeconds = r at hj' ⊢
    obtain rfl | ⟨row, hrow, _, rfl⟩ := JobsRepo.updateWhere_cases hr
    · rw [hj] at hj'
      cases hj'
      rfl
    · rw [hj] at hrow
      cases hrow
      simp only [Table.lookup_insert_eq, if_true, Option.some.injEq] at hj'
      subst hj'
      rfl
  · have hno : ∀ w, op ≠ .claim j w := fun w hw => hop ⟨w, hw⟩
    have hsame := (hcore.views.moves j _ _ (Core.view_of_lookup hj)
      (Core.view_of_lookup hj')).attempt_eq hno
    have hclaims : op.claims env i s.db j = false := by
      unfold Op.claims
      split
      · rename_i j' w
        have hne : j' ≠ j := fun he => hno w (he ▸ rfl)
        simp [hne]
      · rfl
    rw [hclaims]
    exact hsame

/-- A heartbeat claims nothing. -/
theorem beat_attempt (env : Env) {s : World} (p : ℕ) (now : Time) {j : JobId} {job : Job}
    (hj : s.db.jobs.lookup j = some job) :
    ∃ job', (s.beat env p now).db.jobs.lookup j = some job' ∧
      job'.attemptNumber = job.attemptNumber := by
  obtain hsame | ⟨row, w, k, t, hrow, _, hmoved⟩ := beat_lookup env s p now j
  · exact ⟨job, hsame.trans hj, rfl⟩
  · cases hrow.symm.trans hj
    exact ⟨_, hmoved, rfl⟩

/-- What one event does to the rows of jobs. -/
theorem step_rows {env : Env} {c c' : System env} {e : SysEvent env} (h : c.step e = some c') :
    RowsStep env.settings.maxAttempts c.shared.db.jobs c'.shared.db.jobs :=
  Config.shared_of_step (M := platform env)
    (I := fun s => RowsStep env.settings.maxAttempts c.shared.db.jobs s.db.jobs) (.refl _)
    (fun p i _ op _ _ _ => (perform_core env p i c.shared op).rows) (fun _ => .refl _)
    (fun a => beat_rows env c.shared a.1 a.2) h

/-- **An event moves the attempt number of a job by one exactly if it claims it.** -/
theorem step_attempt {env : Env} {c c' : System env} {e : SysEvent env} (h : c.step e = some c')
    {j : JobId} {job : Job} (hj : c.shared.db.jobs.lookup j = some job) :
    ∃ job', c'.shared.db.jobs.lookup j = some job' ∧
      job'.attemptNumber = job.attemptNumber + (ClaimsJob j c e).toNat := by
  obtain ⟨p, call, rfl, hp, rfl⟩ | ⟨p, i, call, op, k, rfl, hat, rfl⟩ |
    ⟨p, x, call, op, k, rfl, hat, rfl⟩ | ⟨p, call, op, k, rfl, hat, rfl⟩ | ⟨a, rfl, rfl⟩ :=
    Config.step_cases h
  · exact ⟨job, hj, rfl⟩
  · rw [ClaimsJob.of_atOp hat]
    exact perform_attempt _ p _ _ hj
  · exact ⟨job, hj, rfl⟩
  · exact ⟨job, hj, rfl⟩
  · exact beat_attempt _ a.1 a.2 hj

/-- The number of attempts that a job has had. -/
def Db.attemptsOf (db : Db) (j : JobId) : ℕ := (db.jobs.lookup j).elim 0 fun job => job.attemptNumber

/-- What an event may do to the jobs: statuses move along edges, attempt numbers move with claims,
and new jobs are queued. -/
structure LifeStep {env : Env} (c : System env) (e : SysEvent env) (c' : System env) : Prop where
  moves : ∀ j job, c.shared.db.jobs.lookup j = some job →
    ∃ job', c'.shared.db.jobs.lookup j = some job' ∧
      (job'.status = job.status ∨ job.status.Edge job'.status) ∧
      job'.attemptNumber = job.attemptNumber + (ClaimsJob j c e).toNat
  new : ∀ j job', c.shared.db.jobs.lookup j = none → c'.shared.db.jobs.lookup j = some job' →
    job'.status = .queued ∧ job'.attemptNumber = 0

theorem lifeStep_of_step {env : Env} {c c' : System env} {e : SysEvent env}
    (h : c.step e = some c') : LifeStep c e c' := by
  have hrows := step_rows h
  constructor
  · intro j job hj
    obtain ⟨job', hj', hstep⟩ := hrows.persists j job hj
    obtain ⟨row, hrow, hattempt⟩ := step_attempt h hj
    have hsame : row = job' := Option.some.inj (hrow.symm.trans hj')
    subst hsame
    refine ⟨row, hj', ?_, hattempt⟩
    rcases hstep with rfl | hstep
    · exact Or.inl rfl
    · exact hstep.edge
  · intro j job' hnone hj'
    have hnew := hrows.new j job' hnone hj'
    exact ⟨hnew.1, hnew.2.2.1⟩

theorem LifeStep.attemptsOf {env : Env} {c c' : System env} {e : SysEvent env}
    (h : LifeStep c e c') (j : JobId) :
    c'.shared.db.attemptsOf j = c.shared.db.attemptsOf j + (ClaimsJob j c e).toNat := by
  unfold Db.attemptsOf
  cases hj : c.shared.db.jobs.lookup j with
  | some job =>
      obtain ⟨job', hj', _, hattempt⟩ := h.moves j job hj
      rw [hj']
      exact hattempt
  | none =>
      have hclaims : ClaimsJob j c e = false := ClaimsJob.of_none hj
      rw [hclaims]
      cases hj' : c'.shared.db.jobs.lookup j with
      | none => rfl
      | some job' => exact (h.new j job' hj hj').2

/-- What a whole run may do to a job: a terminal status stays, and the attempt number does not
decrease. -/
def Job.Later (job job' : Job) : Prop :=
  (job.status.Terminal → job'.status = job.status) ∧ job.attemptNumber ≤ job'.attemptNumber

theorem Job.Later.refl (job : Job) : job.Later job := ⟨fun _ => rfl, le_refl _⟩

theorem Job.Later.trans {job₁ job₂ job₃ : Job} (h : job₁.Later job₂) (h' : job₂.Later job₃) :
    job₁.Later job₃ := by
  constructor
  · intro ht
    have hsame := h.1 ht
    rw [← hsame]
    apply h'.1
    rw [hsame]
    exact ht
  · exact le_trans h.2 h'.2

theorem LifeStep.later {env : Env} {c c' : System env} {e : SysEvent env} (h : LifeStep c e c')
    {j : JobId} {job : Job} (hj : c.shared.db.jobs.lookup j = some job) :
    ∃ job', c'.shared.db.jobs.lookup j = some job' ∧ job.Later job' := by
  obtain ⟨job', hj', hstatus, hattempt⟩ := h.moves j job hj
  refine ⟨job', hj', fun ht => ?_, by omega⟩
  rcases hstatus with hsame | hedge
  · exact hsame
  · exact absurd ht hedge.not_terminal

/-- **The state machine of a job, over every run**: each event moves statuses along the documented
edges and attempt numbers by one in successful claims, so that terminal statuses are absorbing and
attempt numbers never decrease. -/
theorem job_lifecycle {env : Env} {c c' : System env} {es : List (SysEvent env)}
    (hrun : Runs.runFrom Config.step c es = some c') :
    Runs.Always Config.step (fun m e => ∀ m', m.step e = some m' → LifeStep m e m') c es ∧
      ∀ j job, c.shared.db.jobs.lookup j = some job →
        ∃ job', c'.shared.db.jobs.lookup j = some job' ∧ job.Later job' := by
  constructor
  · exact Runs.always_of_forall (fun _ _ _ h => lifeStep_of_step h) c es
  · intro j job hj
    apply Runs.run_invariant (I := fun m : System env =>
      ∃ job', m.shared.db.jobs.lookup j = some job' ∧ job.Later job') ?_ ⟨job, hj, .refl job⟩ hrun
    intro m e m' hm hstep
    obtain ⟨row, hrow, hlater⟩ := hm
    obtain ⟨row', hrow', hlater'⟩ := (lifeStep_of_step hstep).later hrow
    exact ⟨row', hrow', hlater.trans hlater'⟩

/-- The first claim of job 1, seen as an event of a run. -/
theorem first_claim_lifecycle : ∃ c c' : System Env.standard,
    Runs.runFrom Config.step c [.step 2 {}] = some c' ∧ ClaimsJob 1 c (.step 2 {}) = true ∧
      LifeStep c (.step 2 {}) c' := by
  have hstart : ∃ c ∈ Runs.runFrom Config.step ({ shared := World.fresh } : System Env.standard)
      (admitJob noop ++ [.start 2 (.processJobMessage 1 7)]),
      ClaimsJob 1 c (.step 2 {}) = true ∧ (Runs.runFrom Config.step c [.step 2 {}]).isSome := by
    decide +kernel
  obtain ⟨c, _, hclaims, hsome⟩ := hstart
  obtain ⟨c', hc'⟩ := Option.isSome_iff_exists.mp hsome
  obtain ⟨m, hm, hm'⟩ := Runs.runFrom_cons.mp hc'
  cases hm'
  exact ⟨c, c', hc', hclaims, (job_lifecycle hc').1.1 c' hm⟩

/-! ### Retries are bounded -/

/-- A retry is scheduled only while an attempt remains. -/
def RetriesRemain (env : Env) (op : Op) : Prop :=
  ∀ j w k t message classification domain,
    op = .finalize j w k (.retry t message classification domain) → k < env.settings.maxAttempts

theorem RetriesRemain.of_role {env : Env} {op : Op} (h : op.role ≠ .execute) :
    RetriesRemain env op := by
  intro j w k t message classification domain hop
  rw [hop] at h
  exact absurd rfl h

theorem RetriesRemain.of_within {env : Env} {ρ : Role} {op : Op} (hρ : ρ ≠ .execute)
    (h : op.Within ρ) : RetriesRemain env op := by
  apply RetriesRemain.of_role
  exact h.role_ne hρ (by decide) (by decide)

/-- The worker asks `is_retryable` before it schedules a retry. -/
theorem retriesRemain_conclude (env : Env) (j : JobId) (w : WorkerId) (k : ℕ)
    (outcome : AttemptOutcome) (loaded : Option Job) :
    (conclude env j w k outcome loaded).All (RetriesRemain env) := by
  have hplain : ∀ {op : Op}, op.role = .plain → RetriesRemain env op := by
    intro op hop
    apply RetriesRemain.of_role
    rw [hop]
    decide
  have hfinish : ∀ ending, RetriesRemain env (.finalize j w k ending) →
      (finish j w k ending).All (RetriesRemain env) := by
    intro ending hending
    apply Prog.all_perform_bind.mpr
    refine ⟨hending, fun finalized => ?_⟩
    cases finalized <;> trivial
  have hother : ∀ ending, (∀ t m c d, ending ≠ .retry t m c d) →
      RetriesRemain env (.finalize j w k ending) := by
    intro ending hending j' w' k' t m c d hop
    cases hop
    exact absurd rfl (hending t m c d)
  refine Prog.all_perform_bind.mpr ⟨hplain rfl, fun abandoned => ?_⟩
  cases abandoned with
  | true => trivial
  | false =>
      refine Prog.all_perform_bind.mpr ⟨hplain rfl, fun row => ?_⟩
      split
      · exact hfinish _ (hother _ fun _ _ _ _ h => by cases h)
      · cases outcome with
        | succeeded => exact hfinish _ (hother _ fun _ _ _ _ h => by cases h)
        | failed message classification domain =>
            simp only [endingOf]
            split
            · rename_i hretry
              rw [Prog.bind_assoc]
              refine Prog.all_perform_bind.mpr ⟨hplain rfl, fun t => hfinish _ ?_⟩
              intro j' w' k' t' m c d hop
              cases hop
              have hboth := Bool.and_eq_true_iff.mp hretry
              exact of_decide_eq_true hboth.2
            · exact hfinish _ (hother _ fun _ _ _ _ h => by cases h)

theorem retriesRemain_processJobMessage (env : Env) (j : JobId) (w : WorkerId) :
    (processJobMessage env j w).All (RetriesRemain env) := by
  have hplain : ∀ {op : Op}, op.role = .plain → RetriesRemain env op := by
    intro op hop
    apply RetriesRemain.of_role
    rw [hop]
    decide
  refine Prog.all_perform_bind.mpr ⟨hplain rfl, fun matched => ?_⟩
  refine Prog.all_bind (all_getIf (hplain rfl)) fun job => ?_
  cases job with
  | none => trivial
  | some job =>
      refine Prog.all_perform_bind.mpr ⟨hplain rfl, fun _ => ?_⟩
      refine Prog.all_perform_bind.mpr ⟨.of_role (by simp [Op.role]), fun _ => ?_⟩
      refine Prog.all_bind ?_ fun result => retriesRemain_conclude env j w _ _ _
      refine Prog.all_ensuring (Prog.all_mono (fun op hop => ?_) (all_runBody (δ := .any) env j w _))
        (Prog.all_perform.mpr (hplain rfl))
      rcases hop with hregister | ⟨executor, rfl⟩
      · exact .of_within (by decide) hregister.1
      · intro j' w' k' t m c d hop
        cases hop

theorem retriesRemain_program (env : Env) (call : Call) :
    (call.program env).All (RetriesRemain env) := by
  by_cases hrole : call.role = .execute
  · cases call with
    | processJobMessage j w =>
        exact Prog.all_bind (retriesRemain_processJobMessage env j w) fun _ => trivial
    | workerRunOnce w =>
        refine Prog.all_bind ?_ fun _ => trivial
        refine Prog.all_perform_bind.mpr ⟨.of_role (by decide), fun message => ?_⟩
        cases message with
        | none => trivial
        | some message =>
            refine Prog.all_bind
              (Prog.all_attempt (retriesRemain_processJobMessage env _ w)) fun _ => ?_
            exact Prog.all_perform.mpr (.of_role (by simp [Op.role]))
    | _ => simp [Call.role] at hrole
  · exact Prog.all_mono (fun op hop => .of_within hrole hop) (all_program env call)

/-- **In every run a retry is scheduled only while an attempt remains.** -/
theorem retriesRemain_of_run {env : Env} (s : World) (es : List (SysEvent env)) :
    Runs.Always Config.step (Meets fun op _ _ => RetriesRemain env op)
      ({ shared := s } : System env) es := by
  apply Config.atStep_of_begins (ψ := fun _ => True) (fun call _ => retriesRemain_program env call)
  · intro p t ht
    cases ht
  · exact Runs.always_of_forall (fun c e => by cases e <;> trivial) _ es

/-- **The attempt number of a job is the number of its successful claims.** -/
theorem attempts_counted {env : Env} {c c' : System env} {es : List (SysEvent env)}
    (hrun : Runs.runFrom Config.step c es = some c') (j : JobId) :
    c'.shared.db.attemptsOf j =
      c.shared.db.attemptsOf j + Runs.tally Config.step (ClaimsJob j) c es := by
  apply Runs.measure_eq_add_tally (m := fun m : System env => m.shared.db.attemptsOf j) ?_ hrun
  intro m e m' hstep
  exact (lifeStep_of_step hstep).attemptsOf j

theorem World.Initial.attemptsOf {s : World} (h : s.Initial) (j : JobId) :
    s.db.attemptsOf j = 0 := by
  rw [h.db]
  rfl

/-- A job has had at most the allowed attempts, and fewer while it waits for one. -/
def JobView.Budgeted (maxAttempts : ℕ) (v : JobView) : Prop :=
  v.job.attemptNumber ≤ maxAttempts ∧
    (v.job.status = .queued ∨ v.job.status = .pending → v.job.attemptNumber < maxAttempts)

theorem JobView.Budgeted.step {env : Env} {c : Core} {i : Input} {op : Op} {j : JobId}
    {v v' : JobView} (h : v.Budgeted env.settings.maxAttempts) (hop : RetriesRemain env op)
    (hstep : JobStep env c i j op v v') : v'.Budgeted env.settings.maxAttempts := by
  cases hstep with
  | skip | setCancelRequested | updateConfig | softDelete | clearRetryDispatched | reserve => exact h
  | @transition v toStatus status hto hfrom =>
      refine ⟨h.1, fun hwait => h.2 ?_⟩
      have hedge := mem_sourcesFor hto hfrom
      revert hedge hwait
      cases v.job.status <;> cases status <;> simp [validTransitions]
  | cancel => exact ⟨h.1, fun hwait => by rcases hwait with hw | hw <;> cases hw⟩
  | claim hs =>
      refine ⟨h.2 (Or.inl hs), fun hwait => ?_⟩
      rcases hwait with hw | hw <;> cases hw
  | @finalize v w k ending rows' letter' hown =>
      refine ⟨h.1, fun hwait => ?_⟩
      show v.job.attemptNumber < env.settings.maxAttempts
      cases ending with
      | retry t message classification domain =>
          rw [hown.2.2]
          exact hop j w k t message classification domain rfl
      | cancelled | succeeded | failed => rcases hwait with hw | hw <;> cases hw
  | @reclaim v t rows' hs =>
      refine ⟨h.1, fun hwait => ?_⟩
      show v.job.attemptNumber < env.settings.maxAttempts
      by_contra hle
      simp only [Job.reclaimed, JobsRepo.reclaimedStatus] at hwait
      rw [if_pos (not_lt.mp hle)] at hwait
      split at hwait <;> simp at hwait

/-- **Retries are bounded**: over every run no job is claimed more often than the settings allow, and
a queued job has an attempt left. -/
theorem bounded_retries {env : Env} (hmax : 1 ≤ env.settings.maxAttempts) {s : World}
    {es : List (SysEvent env)} {c : System env} (h : Reaches s es c) :
    (∀ j, Runs.tally Config.step (ClaimsJob j) ({ shared := s } : System env) es ≤
        env.settings.maxAttempts) ∧
      ∀ j job, c.shared.db.jobs.lookup j = some job → job.status = .queued →
        job.attemptNumber < env.settings.maxAttempts := by
  have hbudget : ∀ j job, c.shared.db.jobs.lookup j = some job →
      job.attemptNumber ≤ env.settings.maxAttempts ∧
        (job.status = .queued ∨ job.status = .pending →
          job.attemptNumber < env.settings.maxAttempts) := by
    intro j job hj
    apply each_job_of_reaches (P := JobView.Budgeted env.settings.maxAttempts)
      (φ := fun op _ _ => RetriesRemain env op) ?_ ?_ ?_ h (retriesRemain_of_run s es)
      (Core.view_of_lookup hj)
    · intro job rows hnew _
      show job.attemptNumber ≤ _ ∧ _
      rw [hnew.2.2.1]
      exact ⟨Nat.zero_le _, fun _ => hmax⟩
    · exact fun c i op j v v' _ _ hP hop hstep => hP.step hop hstep
    · exact fun v w k t hP _ => hP
  constructor
  · intro j
    have hcount := attempts_counted h.2 j
    rw [h.1.attemptsOf] at hcount
    unfold Db.attemptsOf at hcount
    cases hj : c.shared.db.jobs.lookup j with
    | none =>
        rw [hj] at hcount
        simp only [Option.elim_none] at hcount
        omega
    | some job =>
        rw [hj] at hcount
        simp only [Option.elim_some] at hcount
        have hle := (hbudget j job hj).1
        omega
  · exact fun j job hj hs => (hbudget j job hj).2 (Or.inl hs)

/-- Job 1 fails its first attempt and is queued again. -/
def failedOnce : List (SysEvent Env.standard) :=
  admitJob flaky ++ session 2 (.processJobMessage 1 7) 13 {}

/-- The retried job has been claimed once, and has an attempt left. -/
theorem retried_job_has_attempts : ∃ c : System Env.standard, (∃ job ∈ c.shared.db.jobs.lookup 1,
    job.status = .queued ∧ job.attemptNumber = 1 ∧ job.attemptNumber < 3) ∧
      Runs.tally Config.step (ClaimsJob 1) ({ shared := World.fresh } : System Env.standard)
        failedOnce ≤ 3 := by
  obtain ⟨c, hc, job, hj, hs, hattempt⟩ := exists_reaches World.fresh_initial failedOnce
    (P := fun c => ∃ job ∈ c.shared.db.jobs.lookup 1,
      job.status = .queued ∧ job.attemptNumber = 1) (by decide +kernel)
  obtain ⟨hclaims, hleft⟩ := bounded_retries (by decide) hc
  exact ⟨c, ⟨job, hj, hs, hattempt, hleft 1 job hj hs⟩, hclaims 1⟩

end PosttrainPlatform
