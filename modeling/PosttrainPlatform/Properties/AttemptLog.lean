import PosttrainPlatform.Properties.Patch

/-!
# The attempts table

The attempts of a job are logged by its workers and by recovery: `attempts.insert` after a claim,
`attempts.finalize` with the finalisation of the job, `mark_lost` with its reclaim.  The numbers of
the log and its ended rows are right in every run.  That a row is RUNNING only while its attempt runs
depends on `cancel_job` and `attempts.insert`, which do not look at each other.
-/

namespace PosttrainPlatform

open Programs Service

/-! ### The log -/

/-- Job `j` has come to attempt `k`. -/
def Db.Attempted (db : Db) (j : JobId) (k : ℕ) : Prop :=
  ∃ job, db.jobs.lookup j = some job ∧ k ≤ job.attemptNumber

/-- Job `j` is RUNNING with attempt `k`. -/
def Db.RunsAttempt (db : Db) (j : JobId) (k : ℕ) : Prop :=
  ∃ job ∈ db.jobs.lookup j, job.status = .running ∧ job.attemptNumber = k

instance (db : Db) (j : JobId) (k : ℕ) : Decidable (db.RunsAttempt j k) :=
  inferInstanceAs (Decidable (∃ job ∈ db.jobs.lookup j, _))

/-- The row of attempt `k` of job `j` is RUNNING. -/
def Db.LogsRunning (db : Db) (j : JobId) (k : ℕ) : Prop :=
  ∃ row ∈ db.attempts.lookup (j, k), row.status = .running

instance (db : Db) (j : JobId) (k : ℕ) : Decidable (db.LogsRunning j k) :=
  inferInstanceAs (Decidable (∃ row ∈ db.attempts.lookup (j, k), _))

/-- **The attempts table is a log of the jobs.** -/
structure Db.Logged (db : Db) : Prop where
  unique : (db.attempts.rows.map Prod.fst).Nodup
  numbered : ∀ j k, (db.attempts.lookup (j, k)).isSome → db.Attempted j k
  live : ∀ j k, db.LogsRunning j k → db.RunsAttempt j k

/-- The rows that have ended stay as they are. -/
def Db.EndedKept (db db' : Db) : Prop :=
  ∀ j k row, db.attempts.lookup (j, k) = some row → row.status ≠ .running →
    db'.attempts.lookup (j, k) = some row

/-- The event keeps the rows that have ended. -/
def KeepsEnded {env : Env} (c : System env) (e : SysEvent env) : Prop :=
  ∀ c', c.step e = some c' → c.shared.db.EndedKept c'.shared.db

/-- A change of the status takes no attempt away from its log, and an attempt is logged while it
runs. -/
def FollowsAttempts (op : Op) (db : Db) : Prop :=
  match op with
  | .insertAttempt j k => db.attempts.lookup (j, k) = none → db.RunsAttempt j k
  | .cancel j k => ∀ job ∈ db.jobs.lookup j, job.status = .running → job.Present →
      (ReservationsRepo.release db j (k + 1)).isSome → ¬ db.LogsRunning j job.attemptNumber
  | .transition j toStatus => ∀ job ∈ db.jobs.lookup j, job.status = .running → job.Present →
      job.status ∈ sourcesFor toStatus → ¬ db.LogsRunning j job.attemptNumber
  | _ => True

/-! ### What a statement does to the log -/

/-- The row of attempt `k`, if there is one, has ended, and the other rows are as before. -/
def Db.Closed (db : Db) (j : JobId) (k : ℕ) (db' : Db) : Prop :=
  ¬ db'.LogsRunning j k ∧ (∀ key, key ≠ (j, k) → db'.attempts.lookup key = db.attempts.lookup key)

/-- The statements that write attempts. -/
def Op.logs : Op → Bool
  | .insertAttempt .. | .finalize .. | .reclaim .. => true
  | _ => false

/-- **What a statement can do to jobs and attempts.** -/
inductive LogStep (db : Db) (i : Input) : Op → Db → Prop
  | skip {op : Op} {db' : Db} (hjobs : db'.jobs = db.jobs) (hattempts : db'.attempts = db.attempts) :
      LogStep db i op db'
  | other {op : Op} {db' : Db} (hop : op.logs = false) (hattempts : db'.attempts = db.attempts) :
      LogStep db i op db'
  | insert {j : JobId} {k : ℕ} {db' : Db} (hfree : db.attempts.lookup (j, k) = none)
      (hjobs : db'.jobs = db.jobs) (hattempts : db'.attempts =
        db.attempts.insert (j, k) { status := .running, startedAt := i.now }) :
      LogStep db i (.insertAttempt j k) db'
  | close {op : Op} {j : JobId} {job job' : Job} {db' : Db} (hj : db.jobs.lookup j = some job)
      (hs : job.status = .running) (hlease : job.leaseOwner.isSome ∨ job.leaseExpiresAt.isSome)
      (hs' : job'.status ≠ .running) (hattempt : job'.attemptNumber = job.attemptNumber)
      (hjobs : db'.jobs = db.jobs.insert j job') (hclosed : db.Closed j job.attemptNumber db') :
      LogStep db i op db'

theorem updateWhere_attempts (db : Db) (j : JobId) (cond : Job → Prop) [DecidablePred cond]
    (set : Job → Job) : (JobsRepo.updateWhere db j cond set).1.attempts = db.attempts := by
  rw [JobsRepo.updateWhere_frame]

theorem Ending.attemptStatus_ne (ending : Ending) : ending.attemptStatus ≠ .running := by
  cases ending <;> simp [Ending.attemptStatus]

/-- A row that is written with another status than RUNNING closes its attempt. -/
theorem Db.Closed.of_insert {db db' : Db} {j : JobId} {k : ℕ} {row : Attempt}
    (hs : row.status ≠ .running) (h : db'.attempts = db.attempts.insert (j, k) row) :
    db.Closed j k db' := by
  constructor
  · intro hlogs
    obtain ⟨row', hrow, hrun⟩ := hlogs
    rw [h, Option.mem_def, AList.lookup_insert, Option.some.injEq] at hrow
    rw [← hrow] at hrun
    exact hs hrun
  · intro key hkey
    rw [h]
    exact AList.lookup_insert_ne hkey

theorem finalize_closed {env : Env} {db db' : Db} {j : JobId} {k : ℕ} {ending : Ending} {now : Time}
    (h : AttemptsRepo.finalize env db j k ending.attemptStatus ending.errorMessage
      ending.classification ending.failureDomain now = some db') : db.Closed j k db' := by
  unfold AttemptsRepo.finalize at h
  cases hrow : db.attempts.lookup (j, k) with
  | none =>
      rw [hrow] at h
      cases h
      refine ⟨fun hlogs => ?_, fun _ _ => rfl⟩
      obtain ⟨row, hrow', _⟩ := hlogs
      rw [hrow] at hrow'
      cases hrow'
  | some row =>
      rw [hrow] at h
      obtain ⟨message, _, rfl⟩ := Option.map_eq_some_iff.mp h
      exact .of_insert ending.attemptStatus_ne rfl

theorem finalizeTx_log {env : Env} {i : Input} {db db' : Db} {j : JobId} {w : WorkerId} {k : ℕ}
    {ending : Ending} {b : Bool} (h : finalizeTx env db j w k ending i.now = some (db', b)) :
    LogStep db i (.finalize j w k ending) db' := by
  unfold finalizeTx at h
  generalize hr : JobsRepo.finalizeAttempt db j w k ending.jobStatus ending.nextRetryAt? = r at h
  simp only at h
  split at h
  · cases h
  rename_i db₁ hfin
  split at h
  swap
  · cases h
    exact .skip rfl rfl
  rename_i hmatched
  split at h
  · cases h
  rename_i db₂ hdead
  obtain ⟨db₃, hrel, heq⟩ := Option.map_eq_some_iff.mp h
  cases heq
  obtain rfl | ⟨job, hj, hown, rfl⟩ := JobsRepo.updateWhere_cases hr
  · cases hmatched.1
  have hreleased := ReservationsRepo.release_frame hrel
  have hburied := deadLetter_frame hdead
  have hclosed := finalize_closed hfin
  have hjobs₁ := congrArg Db.jobs (AttemptsRepo.finalize_frame hfin)
  have howner : job.leaseOwner = some w := hown.2.1
  refine .close hj hown.1 (Or.inl (by rw [howner]; rfl))
    (job.finalized_not_running ending) rfl ?_ ?_
  · rw [hreleased, hburied, hjobs₁]
    rfl
  · rw [hown.2.2]
    unfold Db.Closed Db.LogsRunning
    rw [hreleased, hburied]
    exact hclosed

theorem reclaimTx_log {env : Env} {i : Input} {db db' : Db} {j : JobId} {t : Time} {b : Bool}
    (h : reclaimTx env db j t i.now = some (db', b)) : LogStep db i (.reclaim j t) db' := by
  unfold reclaimTx at h
  generalize hr : JobsRepo.reclaimStale db j env.settings.maxAttempts t i.now = r at h
  obtain rfl | ⟨job, hj, hc, rfl⟩ := JobsRepo.updateWhere_cases hr
  · cases h
    exact .skip rfl rfl
  · simp only [Table.lookup_insert_eq, if_true] at h
    obtain ⟨db₁, hrel, heq⟩ := Option.map_eq_some_iff.mp h
    cases heq
    have hreleased := ReservationsRepo.release_frame hrel
    obtain ⟨u, hu, _⟩ := hc.2
    have hexpires : job.leaseExpiresAt = some u := hu
    refine .close hj hc.1 (Or.inr (by rw [hexpires]; rfl))
      (job.reclaimed_not_running env.settings.maxAttempts t) rfl (congrArg Db.jobs hreleased) ?_
    exact .of_insert (by simp) (congrArg Db.attempts hreleased)

theorem cancelTx_attempts {db db' : Db} {j : JobId} {k : ℕ} {b : Bool}
    (h : cancelTx db j k = some (db', b)) : db'.attempts = db.attempts := by
  unfold cancelTx at h
  simp only at h
  split at h
  · obtain ⟨db₁, hrel, heq⟩ := Option.map_eq_some_iff.mp h
    cases heq
    rw [ReservationsRepo.release_frame hrel]
    exact updateWhere_attempts _ _ _ _
  · cases h
    rfl

theorem admitTx_attempts {env : Env} {db db' : Db} {j : JobId} {k : ℕ} {request : Resources Json}
    {now : Time} {b : Bool} (h : admitTx env db j k request now = some (db', b)) :
    db'.attempts = db.attempts := by
  unfold admitTx at h
  split at h
  · cases h
  · cases h
    rfl
  · obtain ⟨db₁, hins, heq⟩ := Option.map_eq_some_iff.mp h
    cases heq
    unfold ReservationsRepo.insert at hins
    split at hins
    · cases hins
    · obtain ⟨reservations, _, rfl⟩ := Option.map_eq_some_iff.mp hins
      rfl

/-- Only the statements of the log write it. -/
theorem perform_attempts_eq (env : Env) (p : ℕ) (i : Input) (s : World) {op : Op}
    (hop : op.logs = false) : (op.perform env p i s).1.db.attempts = s.db.attempts := by
  by_cases helse : op.Elsewhere = true
  · exact congrArg Frame.attempts (perform_frame env p i s helse)
  cases op
  case createJob origin jobType config priority =>
      obtain h | ⟨_, h⟩ := perform_createJob env p i s origin jobType config priority
      · rw [h]
      · rw [h]
        rfl
  case transition j toStatus =>
      simp only [Op.perform, World.write, transitionTx]
      split
      · exact updateWhere_attempts _ _ _ _
      · rfl
  case cancel j k =>
      exact tryWrite_db (R := fun db => db.attempts = s.db.attempts) rfl
        fun db b h => cancelTx_attempts h
  case setCancelRequested | softDelete | clearRetryDispatched | claim =>
      exact updateWhere_attempts _ _ _ _
  case updateConfig =>
      exact storing_fst (R := fun m => m.db.attempts = s.db.attempts) rfl
        (updateWhere_attempts _ _ _ _)
  case reserve j k request =>
      exact tryWrite_db (R := fun db => db.attempts = s.db.attempts) rfl
        fun db b h => admitTx_attempts h
  case insertDecision =>
      refine tryWrite_db (R := fun db => db.attempts = s.db.attempts) rfl fun db b h => ?_
      obtain ⟨db₁, hdb, heq⟩ := Option.map_eq_some_iff.mp h
      cases heq
      unfold DecisionsRepo.insert at hdb
      split at hdb
      · cases hdb
      · cases hdb
        rfl
  case insertEvent | markPublished => rfl
  case insertAttempt | finalize | reclaim => cases hop
  all_goals exact absurd rfl helse

theorem perform_log (env : Env) (p : ℕ) (i : Input) (s : World) (op : Op) :
    LogStep s.db i op (op.perform env p i s).1.db := by
  by_cases hop : op.logs = true
  swap
  · rw [Bool.not_eq_true] at hop
    exact .other hop (perform_attempts_eq env p i s hop)
  cases op
  case insertAttempt j k =>
      refine tryWrite_db (.skip rfl rfl) fun db b h => ?_
      obtain ⟨db₁, hdb, heq⟩ := Option.map_eq_some_iff.mp h
      obtain ⟨attempts, hattempts, rfl⟩ := Option.map_eq_some_iff.mp hdb
      obtain ⟨hfree, rfl⟩ := Table.insertNew_eq_some.mp hattempts
      cases heq
      exact .insert hfree rfl rfl
  case finalize j w k ending => exact tryWrite_db (.skip rfl rfl) fun db b h => finalizeTx_log h
  case reclaim j t => exact tryWrite_db (.skip rfl rfl) fun db b h => reclaimTx_log h
  all_goals cases hop

/-! ### The numbers of the log -/

/-- The log names only attempts that the jobs have come to. -/
def Db.Numbered (db : Db) : Prop :=
  ∀ j k, (db.attempts.lookup (j, k)).isSome → db.Attempted j k

/-- Every statement lets attempt numbers grow only. -/
theorem perform_attempted (env : Env) (p : ℕ) (i : Input) (s : World) (op : Op) {j : JobId} {k : ℕ}
    (h : s.db.Attempted j k) : (op.perform env p i s).1.db.Attempted j k := by
  obtain ⟨job, hj, hk⟩ := h
  obtain ⟨job', hj', hattempt⟩ := perform_attempt env p i op hj
  exact ⟨job', hj', by omega⟩

theorem LogStep.numbered {db db' : Db} {i : Input} {op : Op} (h : LogStep db i op db')
    (hnum : db.Numbered) (hgrow : ∀ j k, db.Attempted j k → db'.Attempted j k)
    (hop : ∀ j k, op = .insertAttempt j k → db.Attempted j k) : db'.Numbered := by
  intro j k hrow
  apply hgrow
  cases h with
  | skip hjobs hattempts | other _ hattempts =>
      rw [hattempts] at hrow
      exact hnum j k hrow
  | @insert j' k' db' hfree hjobs hattempts =>
      rw [hattempts, Table.lookup_insert_eq] at hrow
      split at hrow
      · rename_i hkey
        cases hkey
        exact hop j k rfl
      · exact hnum j k hrow
  | @close op j' job job' db' hj hs hlease hs' hattempt hjobs hclosed =>
      by_cases hkey : (j, k) = (j', job.attemptNumber)
      · cases hkey
        exact ⟨job, hj, le_refl _⟩
      · rw [hclosed.2 (j, k) hkey] at hrow
        exact hnum j k hrow

/-- The log is numbered, and everybody relies on the others to let attempt numbers grow only. -/
def numbering (env : Env) : Contract (platform env) where
  inv s := s.db.Numbered
  rely _ s s' := ∀ j k, s.db.Attempted j k → s'.db.Attempted j k

section Rules

variable {env : Env} {p : ℕ} {call : Call} {s : World} {α : Type}

theorem numbering_guarantee (op : Op) (i : Input) (h : s.db.Numbered)
    (hop : ∀ j k, op = .insertAttempt j k → s.db.Attempted j k) :
    (numbering env).Guarantee p s (op.perform env p i s).1 := by
  have hgrow : ∀ j k, s.db.Attempted j k → (op.perform env p i s).1.db.Attempted j k :=
    fun j k => perform_attempted env p i s op
  exact ⟨(perform_log env p i s op).numbered h hgrow hop, fun _ _ => hgrow⟩

theorem numbering_keeps {op : Op} (h : op.duty ≠ .worker) : (numbering env).Keeps p call op := by
  intro s i hI _
  apply numbering_guarantee op i hI
  intro j k hop
  rw [hop] at h
  exact absurd rfl h

theorem numbered_of_inside {ρ : Role} {δ : Duty} (hδ : δ ≠ .worker) {prog : Service α}
    (h : prog.All (Op.Inside ρ δ)) : (numbering env).Safe p call (fun _ _ => True) prog s := by
  apply Contract.safe_of_all (Prog.all_mono ?_ h) (fun _ _ => trivial) (fun _ _ => trivial)
  intro op hop
  apply numbering_keeps
  rcases hop.2 with hany | hduty
  · rw [hany]
    decide
  · rw [hduty]
    exact hδ

/-- Once the row of its attempt is inserted, a worker inserts no other. -/
theorem numbered_runAttempt {j : JobId} {w : WorkerId} {k : ℕ} (hk : s.db.Attempted j k) :
    (numbering env).Safe p call (fun _ _ => True) (runAttempt env j w k) s := by
  apply Contract.Safe.perform_bind ?_ (fun _ _ => trivial) (fun _ _ _ => trivial)
  · intro s₁ i u _ _ _ _ _
    have hrest : ∀ op : Op, op.duty ≠ .worker → (numbering env).Keeps p call op := fun _ =>
      numbering_keeps
    apply Contract.safe_of_all ?_ (fun _ _ => trivial) (fun _ _ => trivial)
    apply Prog.all_perform_bind.mpr
    refine ⟨hrest _ (by simp [Op.duty]), fun _ => Prog.all_bind (Prog.all_ensuring ?_ ?_) fun result => ?_⟩
    · apply Prog.all_mono ?_ (all_runBody (δ := .any) env j w k)
      intro op hop
      rcases hop with hinside | ⟨executor, rfl⟩
      · exact hrest op (by simp [show op.duty = .any from hinside.2.elim id id])
      · exact hrest _ (by simp [Op.duty])
    · exact Prog.all_perform.mpr (hrest _ (by decide))
    · apply Prog.all_mono ?_ (all_conclude (δ := .any) env j w k _ _)
      intro op hop
      rcases hop with hinside | ⟨ending, rfl⟩
      · exact hrest op (by simp [show op.duty = .any from hinside.2.elim id id])
      · exact hrest _ (by simp [Op.duty])
  · intro s₁ i hR hI _
    apply numbering_guarantee _ i hI
    intro j' k' hop
    cases hop
    exact hR j k hk

/-- **A worker inserts the row of the attempt that it has read after its claim.** -/
theorem numbered_processJobMessage (j : JobId) (w : WorkerId) :
    (numbering env).Safe p call (fun _ _ => True) (processJobMessage env j w) s := by
  apply Contract.Safe.perform_bind ?_ (fun _ _ => trivial) (fun _ _ _ => trivial)
  · intro s₁ i matched _ _ _ _ _
    cases matched with
    | false => exact trivial
    | true =>
        apply Contract.Safe.perform_bind ?_ (fun _ _ => trivial) (fun _ _ _ => trivial)
        · intro s₂ i₂ row _ _ _ _ hr
          cases row with
          | none => exact trivial
          | some job =>
              have hget : JobsRepo.get s₂.db j = some job := Except.ok.inj hr
              exact numbered_runAttempt ⟨job, (Option.filter_eq_some_iff.mp hget).1, le_refl _⟩
        · exact fun s₂ i₂ _ hI hm => numbering_keeps (by simp [Op.duty]) s₂ i₂ hI hm
  · intro s₁ i _ hI _
    exact numbering_guarantee _ i hI fun j k hop => by cases hop

theorem numbered_workerRunOnce (w : WorkerId) :
    (numbering env).Safe p call (fun _ _ => True) (workerRunOnce env w) s := by
  apply Contract.Safe.perform_bind ?_ (fun _ _ => trivial) (fun _ _ _ => trivial)
  · intro s₁ i message _ _ _ _ _
    cases message with
    | none => exact trivial
    | some message =>
        apply (numbered_processJobMessage message.2 w).caught.bind ?_ (fun _ _ _ => trivial)
        intro result s₂ _
        apply Contract.safe_of_all (Prog.all_perform.mpr ?_) (fun _ _ => trivial) (fun _ _ => trivial)
        exact fun s i hI _ => numbering_guarantee _ i hI fun j k hop => by cases hop
  · intro s₁ i _ hI _
    exact numbering_guarantee _ i hI fun j k hop => by cases hop

end Rules

theorem numbering_beat (env : Env) (s : World) (p : ℕ) (now : Time) :
    (s.beat env p now).db.attempts = s.db.attempts ∧
      ∀ j k, s.db.Attempted j k → (s.beat env p now).db.Attempted j k := by
  constructor
  · rw [beat_frame]
  · intro j k h
    obtain ⟨job, hj, hk⟩ := h
    obtain ⟨job', hj', hattempt⟩ := beat_attempt env p now hj
    exact ⟨job', hj', by omega⟩

theorem numbering_sound (env : Env) : (numbering env).Sound where
  rely_refl _ _ _ _ h := h
  rely_trans _ _ _ _ h h' j k hk := h' j k (h j k hk)
  ambient a s hI := by
    obtain ⟨hattempts, hgrow⟩ := numbering_beat env s a.1 a.2
    refine ⟨fun j k hrow => hgrow j k (hI j k ?_), fun _ => hgrow⟩
    have hrow' : ((s.beat env a.1 a.2).db.attempts.lookup (j, k)).isSome := hrow
    rw [hattempts] at hrow'
    exact hrow'
  halt _ s hI := ⟨hI, fun _ _ _ _ h => h⟩
  idle_stable _ _ _ _ _ := trivial
  post_stable _ _ _ _ _ _ _ _ := trivial
  safe p call s _ _ _ := by
    by_cases hδ : call.duty = .worker
    · cases call with
      | processJobMessage j w =>
          exact (numbered_processJobMessage j w).bind (fun _ _ _ => trivial) fun _ _ _ => trivial
      | workerRunOnce w =>
          exact (numbered_workerRunOnce w).bind (fun _ _ _ => trivial) fun _ _ _ => trivial
      | _ => simp [Call.duty] at hδ
    · exact numbered_of_inside hδ (inside_program env call)

theorem World.Initial.attempts {s : World} (h : s.Initial) : s.db.attempts = ∅ := by
  rw [h.db]

/-- **In every reachable configuration the log is numbered.** -/
theorem numbered_of_reaches {env : Env} {s : World} {es : List (SysEvent env)} {c : System env}
    (h : Reaches s es c) : c.shared.db.Numbered := by
  have hstart : (numbering env).Valid ({ shared := s } : System env) := by
    apply Contract.valid_of_unstarted ?_ fun _ => trivial
    intro j k hrow
    rw [h.1.attempts] at hrow
    cases hrow
  have hallow : Runs.Always Config.step (numbering env).Allows ({ shared := s } : System env) es :=
    Runs.always_of_forall (Contract.allows_of_forall (fun _ => trivial) (fun _ _ _ => trivial)
      fun _ _ => trivial) _ es
  exact (Contract.valid_run (numbering_sound env) hstart hallow h.2).1

/-! ### The rows that have ended -/

/-- The row of an attempt that holds its lease has not ended. -/
def Db.Open (db : Db) : Prop :=
  ∀ j job, db.jobs.lookup j = some job → job.status = .running → job.leaseOwner.isSome →
    ∀ row, db.attempts.lookup (j, job.attemptNumber) = some row → row.status = .running

/-- The rows of a job that runs afterwards are RUNNING, or old. -/
theorem LogStep.row {db db' : Db} {i : Input} {op : Op} (h : LogStep db i op db') {j : JobId}
    {job' : Job} (hj' : db'.jobs.lookup j = some job') (hs : job'.status = .running) {k : ℕ}
    {row : Attempt} (hrow : db'.attempts.lookup (j, k) = some row) :
    row.status = .running ∨ db.attempts.lookup (j, k) = some row := by
  cases h with
  | skip _ hattempts | other _ hattempts =>
      rw [hattempts] at hrow
      exact Or.inr hrow
  | insert hfree hjobs hattempts =>
      rw [hattempts, Table.lookup_insert_eq] at hrow
      split at hrow
      · cases hrow
        exact Or.inl rfl
      · exact Or.inr hrow
  | @close op j₀ job job₀ db' hj hs₀ hlease hs' hattempt hjobs hclosed =>
      by_cases hjj : j = j₀
      · subst hjj
        rw [hjobs, AList.lookup_insert, Option.some.injEq] at hj'
        rw [← hj'] at hs
        exact absurd hs hs'
      · rw [hclosed.2 (j, k) fun he => hjj (congrArg Prod.fst he)] at hrow
        exact Or.inr hrow

/-- A job that holds a lease after the statement has just been claimed, or has held it before. -/
theorem JobStep.held {env : Env} {c : Core} {i : Input} {j : JobId} {op : Op} {v v' : JobView}
    (h : JobStep env c i j op v v') (hlease : v.job.LeaseOk) (hs : v'.job.status = .running)
    (howner : v'.job.leaseOwner.isSome) :
    v'.job.attemptNumber = v.job.attemptNumber + 1 ∨
      (v.job.status = .running ∧ v.job.leaseOwner.isSome ∧
        v'.job.attemptNumber = v.job.attemptNumber) := by
  cases h with
  | skip | setCancelRequested | updateConfig | softDelete | clearRetryDispatched | reserve =>
      exact Or.inr ⟨hs, howner, rfl⟩
  | @transition v toStatus status hto hfrom =>
      have hedge := mem_sourcesFor hto hfrom
      have hrun : status = .running := hs
      have hwait : v.job.status = .queued := by
        rw [hrun] at hedge
        revert hedge
        cases v.job.status <;> simp [validTransitions]
      have hnone := hlease (Or.inl hwait)
      rw [show ({ v.job with status } : Job).leaseOwner = none from hnone] at howner
      cases howner
  | cancel => cases hs
  | claim => exact Or.inl rfl
  | finalize => exact absurd hs (Job.finalized_not_running _ _)
  | reclaim => exact absurd hs (Job.reclaimed_not_running _ _ _)

theorem perform_open (env : Env) (p : ℕ) (i : Input) (s : World) (op : Op)
    (hb : s.db.core.Backed) (hnum : s.db.Numbered) (h : s.db.Open) :
    (op.perform env p i s).1.db.Open := by
  intro j job' hj' hs howner row hrow
  have hcore := perform_core env p i s op
  rcases (perform_log env p i s op).row hj' hs hrow with hrun | hold
  · exact hrun
  cases hj : s.db.jobs.lookup j with
  | none =>
      have hnew := hcore.rows.new j job' hj hj'
      rw [hnew.1] at hs
      cases hs
  | some job =>
      have hmove := hcore.views.moves j _ _ (Core.view_of_lookup hj) (Core.view_of_lookup hj')
      rcases hmove.held (hb.job j job hj).leaseOk hs howner with hclaimed | ⟨hs₀, howner₀, hsame⟩
      · obtain ⟨job₁, hj₁, hle⟩ := hnum j job'.attemptNumber (by rw [hold]; rfl)
        have hsame : job₁ = job := Option.some.inj (hj₁.symm.trans hj)
        subst hsame
        have hnext : job'.attemptNumber = job₁.attemptNumber + 1 := hclaimed
        omega
      · have hattempt : job'.attemptNumber = job.attemptNumber := hsame
        rw [hattempt] at hold
        exact h j job hj hs₀ howner₀ row hold

/-- **A statement leaves the rows alone that have ended.** -/
theorem LogStep.endedKept {db db' : Db} {i : Input} {op : Op} (h : LogStep db i op db')
    (hb : db.core.Backed) (hopen : db.Open) : db.EndedKept db' := by
  intro j k row hrow hended
  cases h with
  | skip _ hattempts | other _ hattempts =>
      rw [hattempts]
      exact hrow
  | @insert j' k' db' hfree hjobs hattempts =>
      rw [hattempts, Table.lookup_insert_eq, if_neg ?_]
      · exact hrow
      · intro hkey
        rw [hkey, hfree] at hrow
        cases hrow
  | @close op j₀ job job' db' hj hs hlease hs' hattempt hjobs hclosed =>
      rw [hclosed.2 (j, k)]
      · exact hrow
      · intro hkey
        cases hkey
        have howner : job.leaseOwner.isSome := hlease.elim id (hb.job j job hj).leased
        exact hended (hopen j job hj hs howner row hrow)

/-! ### The rows that are RUNNING -/

/-- A row is RUNNING only while its attempt runs. -/
def Db.Live (db : Db) : Prop := ∀ j k, db.LogsRunning j k → db.RunsAttempt j k

/-- The release of a reservation does not look at jobs. -/
theorem release_isSome_jobs (db : Db) (jobs : Table JobId Job) (j : JobId) (k : ℕ) :
    (ReservationsRepo.release { db with jobs } j k).isSome =
      (ReservationsRepo.release db j k).isSome := by
  unfold ReservationsRepo.release
  simp only
  split
  · split
    · simp only [Option.isSome_map]
    · rfl
  · rfl

/-- A cancellation that matches, and whose release goes through. -/
theorem cancelTx_of_mem {db : Db} {j : JobId} {k : ℕ} {job : Job}
    (hj : db.jobs.lookup j = some job) (hfrom : job.status ∈ sourcesFor JobStatus.cancelled.value)
    (hp : job.Present) (hrel : (ReservationsRepo.release db j (k + 1)).isSome) :
    ∃ db', cancelTx db j k = some (db', true) ∧
      db'.jobs = db.jobs.insert j { job with status := .cancelled } := by
  have hboth : job.status ∈ sourcesFor JobStatus.cancelled.value ∧ job.Present := ⟨hfrom, hp⟩
  rw [← release_isSome_jobs db (db.jobs.insert j { job with status := .cancelled })] at hrel
  obtain ⟨db', hdb'⟩ := Option.isSome_iff_exists.mp hrel
  refine ⟨db', ?_, congrArg Db.jobs (ReservationsRepo.release_frame hdb')⟩
  simp only [cancelTx, JobsRepo.conditionalTransition, JobsRepo.updateWhere, hj, if_pos hboth,
    if_true, hdb', Option.map_some]

/-- A cancellation that changes something has matched, and its release has gone through. -/
theorem cancelTx_cases {db db' : Db} {j : JobId} {k : ℕ} {b : Bool}
    (h : cancelTx db j k = some (db', b)) : db' = db ∨
      ∃ job, db.jobs.lookup j = some job ∧ job.Present ∧
        (ReservationsRepo.release db j (k + 1)).isSome := by
  unfold cancelTx at h
  generalize hr : JobsRepo.conditionalTransition db j (sourcesFor JobStatus.cancelled.value)
    .cancelled = result at h
  obtain rfl | ⟨job, hj, ⟨_, hp⟩, rfl⟩ := JobsRepo.updateWhere_cases hr
  · cases h
    exact Or.inl rfl
  · obtain ⟨db₁, hrel, _⟩ := Option.map_eq_some_iff.mp h
    have hsome := Option.isSome_iff_exists.mpr ⟨db₁, hrel⟩
    exact Or.inr ⟨job, hj, hp, (release_isSome_jobs db _ j (k + 1)).symm.trans hsome⟩

/-- The statements beside `cancel` and `transition` that write no attempts leave a running job
running. -/
theorem JobStep.runs {env : Env} {c : Core} {i : Input} {j : JobId} {op : Op} {v v' : JobView}
    (h : JobStep env c i j op v v') (hs : v.job.status = .running) (hop : op.logs = false)
    (hcancel : ∀ k, op ≠ .cancel j k) (htransition : ∀ toStatus, op ≠ .transition j toStatus) :
    v'.job.status = .running ∧ v'.job.attemptNumber = v.job.attemptNumber := by
  cases h with
  | skip | setCancelRequested | updateConfig | softDelete | clearRetryDispatched | reserve =>
      exact ⟨hs, rfl⟩
  | transition => exact absurd rfl (htransition _)
  | cancel => exact absurd rfl (hcancel _)
  | claim hq =>
      rw [hs] at hq
      cases hq
  | finalize | reclaim => cases hop

section Live

variable {env : Env} {p : ℕ} {i : Input} {s : World} {j : JobId} {k : ℕ}

/-- A job whose running attempt is logged keeps running, through a statement that follows its
attempts and writes no rows. -/
theorem runsAttempt_perform {op : Op} (h : s.db.RunsAttempt j k) (hlog : s.db.LogsRunning j k)
    (hop : op.logs = false) (hok : FollowsAttempts op s.db) :
    (op.perform env p i s).1.db.RunsAttempt j k := by
  obtain ⟨job, hj, hs, rfl⟩ := h
  have hstays : (op.perform env p i s).1.db.jobs.lookup j = some job →
      (op.perform env p i s).1.db.RunsAttempt j job.attemptNumber :=
    fun hj' => ⟨job, hj', hs, rfl⟩
  have hcore := perform_core env p i s op
  obtain ⟨job', hj', _⟩ := hcore.rows.persists j job hj
  have hmove := hcore.views.moves j _ _ (Core.view_of_lookup hj) (Core.view_of_lookup hj')
  by_cases hcancel : ∃ m, op = .cancel j m
  · obtain ⟨m, rfl⟩ := hcancel
    apply hstays
    apply tryWrite_db (R := fun db => db.jobs.lookup j = some job) hj
    intro db b htx
    rcases cancelTx_cases htx with hsame | ⟨row, hrow, hp, hrel⟩
    · rw [hsame]
      exact hj
    · have hsame : row = job := Option.some.inj (hrow.symm.trans hj)
      subst hsame
      exact absurd hlog (hok row hrow hs hp hrel)
  by_cases htransition : ∃ toStatus, op = .transition j toStatus
  · obtain ⟨toStatus, rfl⟩ := htransition
    apply hstays
    show (transitionTx s.db j toStatus).1.jobs.lookup j = some job
    rcases transitionTx_cases s.db j toStatus with hsame | ⟨status, row, _, hrow, hp, hfrom, _⟩
    · rw [hsame]
      exact hj
    · have hsame : row = job := Option.some.inj (hrow.symm.trans hj)
      subst hsame
      exact absurd hlog (hok row hrow hs hp hfrom)
  have hruns := hmove.runs hs hop (fun m h => hcancel ⟨m, h⟩) fun m h => htransition ⟨m, h⟩
  exact ⟨job', hj', hruns.1, hruns.2⟩

/-- **A statement that follows the attempts keeps the log live.** -/
theorem live_perform {op : Op} (h : s.db.Live) (hok : FollowsAttempts op s.db) :
    (op.perform env p i s).1.db.Live := by
  intro j k hlog
  have hcase := perform_log env p i s op
  generalize hdb : (op.perform env p i s).1.db = db' at hcase hlog ⊢
  have hold : (∀ key, db'.attempts.lookup key = s.db.attempts.lookup key) → s.db.LogsRunning j k := by
    intro hsame
    obtain ⟨row, hrow, hrun⟩ := hlog
    exact ⟨row, (hsame (j, k)).symm.trans hrow, hrun⟩
  cases hcase with
  | skip hjobs hattempts =>
      have hruns := h j k (hold fun key => by rw [hattempts])
      unfold Db.RunsAttempt
      rw [hjobs]
      exact hruns
  | other hop hattempts =>
      have hlog₀ := hold fun key => by rw [hattempts]
      rw [← hdb]
      exact runsAttempt_perform (h j k hlog₀) hlog₀ hop hok
  | @insert j' k' db' hfree hjobs hattempts =>
      unfold Db.RunsAttempt
      rw [hjobs]
      by_cases hkey : (j, k) = (j', k')
      · cases hkey
        exact hok hfree
      · obtain ⟨row, hrow, hrun⟩ := hlog
        rw [hattempts, Option.mem_def, AList.lookup_insert_ne hkey] at hrow
        exact h j k ⟨row, hrow, hrun⟩
  | @close op j₀ job job' db' hj hs hlease hs' hattempt hjobs hclosed =>
      by_cases hkey : (j, k) = (j₀, job.attemptNumber)
      · cases hkey
        exact absurd hlog hclosed.1
      · obtain ⟨row, hrow, hrun⟩ := hlog
        rw [hclosed.2 (j, k) hkey] at hrow
        obtain ⟨row', hj', hs₀, rfl⟩ := h j k ⟨row, hrow, hrun⟩
        have hjj : j ≠ j₀ := by
          intro hjj
          subst hjj
          have hsame : row' = job := Option.some.inj (hj'.symm.trans hj)
          rw [hsame] at hkey
          exact hkey rfl
        refine ⟨row', ?_, hs₀, rfl⟩
        rw [hjobs, Option.mem_def, AList.lookup_insert_ne hjj]
        exact hj'

/-- A job that has ended does not run. -/
theorem not_runsAttempt_of_insert {db : Db} {job' : Job} (hs : job'.status ≠ .running)
    (hjobs : db.jobs.lookup j = some job') : ¬ db.RunsAttempt j k := by
  intro hruns
  obtain ⟨row, hrow, hrun, _⟩ := hruns
  have hsame : row = job' := Option.some.inj (hrow.symm.trans hjobs)
  rw [hsame] at hrun
  exact hs hrun

/-- **A statement that keeps the log live follows the attempts.** -/
theorem followsAttempts_of_live {op : Op} (h : (op.perform env p i s).1.db.Live) :
    FollowsAttempts op s.db := by
  cases op
  case insertAttempt j k =>
      intro hfree
      have hinsert : s.db.attempts.insertNew (j, k) { status := .running, startedAt := i.now } =
          some (s.db.attempts.insert (j, k) { status := .running, startedAt := i.now }) :=
        Table.insertNew_eq_some.mpr ⟨hfree, rfl⟩
      have hdb : ((Op.insertAttempt j k).perform env p i s).1.db = { s.db with
          attempts := s.db.attempts.insert (j, k) { status := .running, startedAt := i.now } } := by
        simp only [Op.perform, AttemptsRepo.insert, hinsert, Option.map_some, World.tryWrite,
          World.write]
      rw [hdb] at h
      exact h j k ⟨_, AList.lookup_insert _, rfl⟩
  case cancel j k =>
      intro job hj hs hp hrel hlog
      have hfrom : job.status ∈ sourcesFor JobStatus.cancelled.value := by
        rw [hs]
        decide
      obtain ⟨db', htx, hjobs⟩ := cancelTx_of_mem hj hfrom hp hrel
      have hdb : ((Op.cancel j k).perform env p i s).1.db = db' := by
        simp only [Op.perform, htx, World.tryWrite, World.write]
      rw [hdb] at h
      have hlog' : db'.LogsRunning j job.attemptNumber := by
        unfold Db.LogsRunning
        rw [cancelTx_attempts htx]
        exact hlog
      have hended : db'.jobs.lookup j = some { job with status := .cancelled } := by
        rw [hjobs]
        exact AList.lookup_insert _
      exact not_runsAttempt_of_insert (by simp) hended (h j _ hlog')
  case transition j toStatus =>
      intro job hj hs hp hfrom hlog
      obtain ⟨status, hto⟩ := exists_parse_of_mem hfrom
      have hdb : ((Op.transition j toStatus).perform env p i s).1.db =
          { s.db with jobs := s.db.jobs.insert j { job with status } } :=
        transitionTx_of_mem hto hj hp hfrom
      rw [hdb] at h
      have hedge := mem_sourcesFor hto hfrom
      apply not_runsAttempt_of_insert (k := job.attemptNumber) ?_ (AList.lookup_insert _)
        (h j job.attemptNumber hlog)
      show status ≠ .running
      rw [hs] at hedge
      revert hedge
      cases status <;> simp [validTransitions]
  all_goals trivial

end Live

/-! ### Every run -/

/-- A heartbeat moves nothing but the end of a lease. -/
theorem beat_job (env : Env) (s : World) (p : ℕ) (now : Time) :
    (s.beat env p now).db.attempts = s.db.attempts ∧ ∀ j,
      ((s.beat env p now).db.jobs.lookup j).map (fun job => (job.status, job.leaseOwner, job.attemptNumber)) =
        (s.db.jobs.lookup j).map fun job => (job.status, job.leaseOwner, job.attemptNumber) := by
  refine ⟨(numbering_beat env s p now).1, fun j => ?_⟩
  obtain hsame | ⟨job, w, k, t, hj, _, hmoved⟩ := beat_lookup env s p now j
  · rw [hsame]
  · rw [hmoved, hj]
    rfl

theorem open_beat (env : Env) {s : World} (p : ℕ) (now : Time) (h : s.db.Open) :
    (s.beat env p now).db.Open := by
  obtain ⟨hattempts, hjobs⟩ := beat_job env s p now
  intro j job' hj' hs howner row hrow
  have hsame := hjobs j
  rw [hj', Option.map_some, eq_comm, Option.map_eq_some_iff] at hsame
  obtain ⟨job, hj, heq⟩ := hsame
  simp only [Prod.mk.injEq] at heq
  rw [hattempts, ← heq.2.2] at hrow
  rw [← heq.1] at hs
  rw [← heq.2.1] at howner
  exact h j job hj hs howner row hrow

theorem live_beat (env : Env) {s : World} (p : ℕ) (now : Time) (h : s.db.Live) :
    (s.beat env p now).db.Live := by
  obtain ⟨hattempts, hjobs⟩ := beat_job env s p now
  intro j k hlog
  unfold Db.LogsRunning at hlog
  rw [hattempts] at hlog
  obtain ⟨job, hj, hs, hk⟩ := h j k hlog
  have hsame := hjobs j
  rw [show s.db.jobs.lookup j = some job from hj, Option.map_some, Option.map_eq_some_iff] at hsame
  obtain ⟨job', hj', heq⟩ := hsame
  simp only [Prod.mk.injEq] at heq
  exact ⟨job', hj', heq.1.trans hs, heq.2.2.trans hk⟩

section Runs

variable {env : Env} {s : World} {es : List (SysEvent env)} {c : System env}

/-- **In every reachable configuration the row of a leased attempt has not ended.** -/
theorem open_of_reaches (h : Reaches s es c) : c.shared.db.Open := by
  have hreached : ∀ fs m, Runs.runFrom Config.step ({ shared := s } : System env) fs = some m →
      m.shared.db.core.Backed ∧ m.shared.db.Numbered := by
    intro fs m hm
    exact ⟨backed_of_reaches ⟨h.1, hm⟩, numbered_of_reaches ⟨h.1, hm⟩⟩
  apply Runs.run_invariant_of_reached (I := fun m : System env => m.shared.db.Open) hreached ?_ ?_ h.2
  · intro m e m' hJ hopen hstep
    exact Config.shared_of_step (M := platform env) (I := fun s => s.db.Open) hopen
      (fun p i _ op _ _ _ => perform_open env p i m.shared op hJ.1 hJ.2 hopen) (fun _ => hopen)
      (fun a => open_beat env a.1 a.2 hopen) hstep
  · intro j job _ _ _ row hrow
    rw [h.1.attempts] at hrow
    cases hrow

/-- **In every run the rows that have ended stay as they are.** -/
theorem endedKept_of_reaches (h : Reaches s es c) :
    Runs.Always Config.step KeepsEnded ({ shared := s } : System env) es := by
  have hreached : ∀ fs m, Runs.runFrom Config.step ({ shared := s } : System env) fs = some m →
      m.shared.db.core.Backed ∧ m.shared.db.Open := by
    intro fs m hm
    exact ⟨backed_of_reaches ⟨h.1, hm⟩, open_of_reaches ⟨h.1, hm⟩⟩
  apply Runs.always_of_reached hreached
  intro m e hJ m' hstep
  have hsame : m.shared.db.EndedKept m.shared.db := fun _ _ _ hrow _ => hrow
  apply Config.shared_of_step (M := platform env) (I := fun s => m.shared.db.EndedKept s.db) hsame
    ?_ (fun _ => hsame) ?_ hstep
  · exact fun p i _ op _ _ _ => (perform_log env p i m.shared op).endedKept hJ.1 hJ.2
  · intro a j k row hrow _
    show (m.shared.beat env a.1 a.2).db.attempts.lookup (j, k) = some row
    rw [(beat_job env m.shared a.1 a.2).1]
    exact hrow

/-- **The log stays live exactly while the statements follow the attempts.** -/
theorem live_iff (h : Reaches s es c) :
    (∀ fs m, fs <+: es → Runs.runFrom Config.step ({ shared := s } : System env) fs = some m →
      m.shared.db.Live) ↔
    Runs.Always Config.step (Meets fun op _ db => FollowsAttempts op db)
      ({ shared := s } : System env) es := by
  apply Runs.invariant_iff_always (I := fun m : System env => m.shared.db.Live) ?_ ?_ h.2
  · intro m e m' hlive hstep
    exact Config.atStep_iff (M := platform env) (I := fun s => s.db.Live) hlive
      (fun _ _ _ _ => ⟨followsAttempts_of_live, live_perform hlive⟩) (fun _ => hlive)
      (fun a => live_beat env a.1 a.2 hlive) hstep
  · intro j k hlog
    obtain ⟨row, hrow, _⟩ := hlog
    rw [h.1.attempts] at hrow
    cases hrow

/-- **The attempts table is a log of the jobs in every state of a run, and its ended rows are kept,
exactly if every statement follows the attempts**: a cancellation (or a PATCH) of a running job finds
its attempt not logged as RUNNING, and an attempt that is inserted is running. -/
theorem attempts_logged_iff (h : Reaches s es c) :
    ((∀ fs m, fs <+: es → Reaches s fs m → m.shared.db.Logged) ∧
      Runs.Always Config.step KeepsEnded ({ shared := s } : System env) es) ↔
    Runs.Always Config.step (Meets fun op _ db => FollowsAttempts op db)
      ({ shared := s } : System env) es := by
  rw [← live_iff h]
  constructor
  · exact fun hlog fs m hfs hm => (hlog.1 fs m hfs ⟨h.1, hm⟩).live
  · intro hlive
    refine ⟨fun fs m hfs hm => ?_, endedKept_of_reaches h⟩
    exact ⟨Table.nodup_rows _, numbered_of_reaches hm, hlive fs m hfs hm.2⟩

end Runs

/-- Job 1 is read as QUEUED by a cancellation, claimed and logged by a worker, and then cancelled. -/
def cancelledWhileLogged : List (SysEvent Env.standard) :=
  admitJob noop ++ session 2 (.cancelJob 1) 1 {} ++ session 3 (.processJobMessage 1 7) 3 {} ++
    proceed 2 1 {}

/-- **The log of a cancelled job says that its attempt is running.** -/
theorem cancelled_attempt_logged_running : ∃ c : System Env.standard,
    Reaches World.fresh cancelledWhileLogged c ∧ (∃ job ∈ c.shared.db.jobs.lookup 1,
      job.status = .cancelled) ∧ c.shared.db.LogsRunning 1 1 ∧ ¬ c.shared.db.Logged := by
  obtain ⟨c, hc, hcancelled, hlog, hruns⟩ := exists_reaches World.fresh_initial cancelledWhileLogged
    (P := fun c => (∃ job ∈ c.shared.db.jobs.lookup 1, job.status = .cancelled) ∧
      c.shared.db.LogsRunning 1 1 ∧ ¬ c.shared.db.RunsAttempt 1 1) (by decide +kernel)
  exact ⟨c, hc, hcancelled, hlog, fun h => hruns (h.live 1 1 hlog)⟩

def FollowsAttempts.check (db : Db) : Op → Bool
  | .insertAttempt j k => decide ((db.attempts.lookup (j, k)).isNone → db.RunsAttempt j k)
  | .cancel j k => decide (∀ job ∈ db.jobs.lookup j, job.status = .running → job.Present →
      (ReservationsRepo.release db j (k + 1)).isSome → ¬ db.LogsRunning j job.attemptNumber)
  | .transition j toStatus => decide (∀ job ∈ db.jobs.lookup j, job.status = .running →
      job.Present → job.status ∈ sourcesFor toStatus → ¬ db.LogsRunning j job.attemptNumber)
  | _ => true

theorem FollowsAttempts.check_iff {op : Op} {db : Db} :
    check db op = true ↔ FollowsAttempts op db := by
  cases op
  case insertAttempt j k =>
      refine decide_eq_true_iff.trans ?_
      rw [Option.isNone_iff_eq_none]
      exact Iff.rfl
  case cancel | transition => exact decide_eq_true_iff
  all_goals exact iff_of_true rfl trivial

instance (op : Op) (db : Db) : Decidable (FollowsAttempts op db) :=
  decidable_of_iff _ FollowsAttempts.check_iff

/-- Job 1 is executed by a worker, from its claim to its finalisation. -/
def executedOnce : List (SysEvent Env.standard) :=
  admitJob noop ++ session 2 (.processJobMessage 1 7) 12 {}

/-- The attempt of a job that has been executed is logged as SUCCEEDED. -/
theorem executed_attempt_logged : ∃ c : System Env.standard,
    (∃ row ∈ c.shared.db.attempts.lookup (1, 1), row.status = .succeeded) ∧ c.shared.db.Logged := by
  obtain ⟨c, hc, hrow⟩ := exists_reaches World.fresh_initial executedOnce
    (P := fun c => ∃ row ∈ c.shared.db.attempts.lookup (1, 1), row.status = .succeeded)
    (by decide +kernel)
  exact ⟨c, hrow, ((attempts_logged_iff hc).mpr (by decide +kernel)).1 _ c (List.prefix_rfl) hc⟩

end PosttrainPlatform
