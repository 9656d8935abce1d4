import PosttrainPlatform.Services.Statements

/-!
# What a statement can do to jobs, reservations, capacity and dead letters

`Core` is the part of the database that admission and execution are about.  `CoreStep` lists, for
each statement, the change that it can make there, with the condition under which it makes it;
`perform_core` shows that the statements do nothing else.  `RowStep` is the view of one job row:
everything that can happen to it in one statement or one heartbeat.  The invariants of the platform
are proved from these lists, without the definitions of the statements.
-/

namespace PosttrainPlatform

/-- The tables that admission and execution are about. -/
structure Core where
  jobs : Table JobId Job
  reservations : Table (JobId × ℕ) Reservation
  capacity : Capacity
  dlq : Table JobId DLQEntry

def Db.core (db : Db) : Core :=
  { jobs := db.jobs, reservations := db.reservations, capacity := db.capacity, dlq := db.dlq }

namespace Core

def putJob (c : Core) (j : JobId) (job : Job) : Core := { c with jobs := c.jobs.insert j job }

theorem lookup_putJob (c : Core) (j i : JobId) (job : Job) :
    (c.putJob j job).jobs.lookup i = if i = j then some job else c.jobs.lookup i :=
  Table.lookup_insert_eq _ _ _ _

/-- Reservation `(j, k)` is ACTIVE. -/
def Active (c : Core) (j : JobId) (k : ℕ) : Prop := JobsRepo.HasReservation c.reservations j k

instance (c : Core) (j : JobId) (k : ℕ) : Decidable (c.Active j k) :=
  inferInstanceAs (Decidable (JobsRepo.HasReservation _ _ _))

/-- `c'` is `c` after the release of `(j, k)`. -/
def Released (c : Core) (j : JobId) (k : ℕ) (c' : Core) : Prop :=
  (c' = c ∧ ¬ c.Active j k) ∨
    ∃ r, c.reservations.lookup (j, k) = some r ∧ r.status = .active ∧
      c' = { c with
        reservations := c.reservations.insert (j, k) { r with status := .released }
        capacity := { c.capacity with allocated := c.capacity.allocated - r.amount } }

/-- `c'` is `c` with the dead-letter row that an ending of attempt `k` asks for. -/
def Buried (c : Core) (j : JobId) (k : ℕ) : Ending → Core → Prop
  | .failed .., c' => c.dlq.lookup j = none ∧ ∃ row : DLQEntry, row.lastAttemptNumber = k ∧
      row.totalAttempts = k ∧ c' = { c with dlq := c.dlq.insert j row }
  | _, c' => c' = c

end Core

/-- The assignments of `claim`. -/
def Job.claimed (job : Job) (w : WorkerId) (now leaseDurationSeconds : Time) : Job :=
  { job with
    status := .running
    leaseOwner := some w
    leaseExpiresAt := some (now + leaseDurationSeconds)
    attemptNumber := job.attemptNumber + 1
    claimedAt := some now
    nextRetryAt := none }

/-- The assignments of `finalize_attempt`. -/
def Job.finalized (job : Job) (ending : Ending) : Job :=
  { job with
    status := ending.jobStatus
    leaseOwner := none
    leaseExpiresAt := none
    nextRetryAt := ending.nextRetryAt? <|> job.nextRetryAt }

/-- The assignments of `reclaim_stale`. -/
def Job.reclaimed (job : Job) (maxAttempts : ℕ) (nextRetryAt : Time) : Job :=
  { job with
    leaseOwner := none
    leaseExpiresAt := none
    status := JobsRepo.reclaimedStatus job maxAttempts
    nextRetryAt :=
      if JobsRepo.reclaimedStatus job maxAttempts = .queued then some nextRetryAt else none }

/-- **What a statement can do to the core.** -/
inductive CoreStep (env : Env) (c : Core) (i : Input) : Op → Core → Prop
  | skip (op : Op) : CoreStep env c i op c
  | createJob {origin : Origin} {jobType : String} {config : Option Dict} {priority : ℤ} {j : JobId}
      (hj : c.jobs.lookup j = none) :
      CoreStep env c i (.createJob origin jobType config priority)
        (c.putJob j { jobType, status := .queued, config, priority, createdAt := i.now })
  | transition {j : JobId} {toStatus : String} {job : Job} {status : JobStatus}
      (hj : c.jobs.lookup j = some job) (hto : JobStatus.parse toStatus = some status)
      (hfrom : job.status ∈ sourcesFor toStatus) (hp : job.Present) :
      CoreStep env c i (.transition j toStatus) (c.putJob j { job with status })
  | cancel {j : JobId} {k : ℕ} {job : Job} {c' : Core} (hj : c.jobs.lookup j = some job)
      (hfrom : job.status ∈ sourcesFor JobStatus.cancelled.value) (hp : job.Present)
      (hrel : (c.putJob j { job with status := .cancelled }).Released j (k + 1) c') :
      CoreStep env c i (.cancel j k) c'
  | setCancelRequested {j : JobId} {job : Job} (hj : c.jobs.lookup j = some job)
      (hs : job.status = .running) (hp : job.Present) :
      CoreStep env c i (.setCancelRequested j) (c.putJob j { job with cancelRequested := true })
  | updateConfig {j : JobId} {job : Job} {config : Dict} (hj : c.jobs.lookup j = some job) :
      CoreStep env c i (.updateConfig j config) (c.putJob j { job with config := some config })
  | softDelete {j : JobId} {job : Job} (hj : c.jobs.lookup j = some job) :
      CoreStep env c i (.softDelete j) (c.putJob j { job with deletedAt := some i.now })
  | clearRetryDispatched {j : JobId} {job : Job} (hj : c.jobs.lookup j = some job) :
      CoreStep env c i (.clearRetryDispatched j) (c.putJob j { job with nextRetryAt := none })
  | claim {j : JobId} {w : WorkerId} {job : Job} {lease : Time}
      (hj : c.jobs.lookup j = some job) (hs : job.status = .queued)
      (hc : job.cancelRequested = false) (hdue : job.Due i.now) (hp : job.Present)
      (hact : c.Active j (job.attemptNumber + 1)) :
      CoreStep env c i (.claim j w) (c.putJob j (job.claimed w i.now lease))
  | finalize {j : JobId} {w : WorkerId} {k : ℕ} {ending : Ending} {job : Job} {c₁ c' : Core}
      (hj : c.jobs.lookup j = some job) (hown : job.OwnedBy w k) (hp : job.Present)
      (hdlq : (c.putJob j (job.finalized ending)).Buried j k ending c₁)
      (hrel : c₁.Released j k c') : CoreStep env c i (.finalize j w k ending) c'
  | reclaim {j : JobId} {t : Time} {job : Job} {c' : Core} (hj : c.jobs.lookup j = some job)
      (hs : job.status = .running) (hexp : job.LeaseExpired i.now)
      (hrel : (c.putJob j (job.reclaimed env.settings.maxAttempts t)).Released j
        job.attemptNumber c') :
      CoreStep env c i (.reclaim j t) c'
  | reserve {j : JobId} {k : ℕ} {request : Resources Json} {capacity : Capacity}
      {amount : Resources ℤ} (hres : CapacityRepo.tryReserve env c.capacity request =
        some (some capacity)) (hamount : ReservationsRepo.storedAmount env request = some amount)
      (hfree : c.reservations.lookup (j, k) = none) :
      CoreStep env c i (.reserve j k request)
        { c with
          capacity
          reservations := c.reservations.insert (j, k) { amount, status := .active } }

/-! ### The transactions -/

theorem release_core {db db' : Db} {j : JobId} {k : ℕ}
    (h : ReservationsRepo.release db j k = some db') : db.core.Released j k db'.core := by
  obtain ⟨rfl, hn⟩ | ⟨r, hr, hact, rfl⟩ := ReservationsRepo.release_cases h
  · exact Or.inl ⟨rfl, hn⟩
  · exact Or.inr ⟨r, hr, hact, rfl⟩

theorem deadLetter_core {env : Env} {db db' : Db} {j : JobId} {k : ℕ} {now : Time}
    {ending : Ending} (h : deadLetter env db j k now ending = some db') :
    db.core.Buried j k ending db'.core := by
  cases ending with
  | failed message classification domain =>
      obtain ⟨row, hnone, hlast, htotal, rfl⟩ := DLQRepo.insert_eq_some h
      exact ⟨hnone, row, hlast, htotal, rfl⟩
  | cancelled | succeeded | retry t message classification domain =>
      cases h
      exact rfl

theorem deadLetter_frame {env : Env} {db db' : Db} {j : JobId} {k : ℕ} {now : Time}
    {ending : Ending} (h : deadLetter env db j k now ending = some db') :
    db' = { db with dlq := db'.dlq } := by
  cases ending with
  | failed message classification domain =>
      obtain ⟨row, _, _, _, rfl⟩ := DLQRepo.insert_eq_some h
      rfl
  | cancelled | succeeded | retry t message classification domain =>
      cases h
      rfl

theorem cancelTx_core {env : Env} {i : Input} {db db' : Db} {j : JobId} {k : ℕ} {b : Bool}
    (h : cancelTx db j k = some (db', b)) : CoreStep env db.core i (.cancel j k) db'.core := by
  unfold cancelTx at h
  generalize hr : JobsRepo.conditionalTransition db j (sourcesFor JobStatus.cancelled.value)
    .cancelled = r at h
  obtain rfl | ⟨job, hj, hc, rfl⟩ := JobsRepo.updateWhere_cases hr
  · cases h
    exact .skip _
  · obtain ⟨db₁, hrel, heq⟩ := Option.map_eq_some_iff.mp h
    cases heq
    exact .cancel hj hc.1 hc.2 (release_core hrel)

theorem transitionTx_core {env : Env} {i : Input} {db : Db} {j : JobId} {toStatus : String} :
    CoreStep env db.core i (.transition j toStatus) (transitionTx db j toStatus).1.core := by
  unfold transitionTx
  cases hto : JobStatus.parse toStatus with
  | none => exact .skip _
  | some status =>
      simp only
      generalize hr : JobsRepo.conditionalTransition db j (sourcesFor toStatus) status = r
      obtain rfl | ⟨job, hj, hc, rfl⟩ := JobsRepo.updateWhere_cases hr
      · exact .skip _
      · exact CoreStep.transition (c := db.core) hj hto hc.1 hc.2

theorem finalizeTx_core {env : Env} {i : Input} {db db' : Db} {j : JobId} {w : WorkerId} {k : ℕ}
    {ending : Ending} {now : Time} {b : Bool}
    (h : finalizeTx env db j w k ending now = some (db', b)) :
    CoreStep env db.core i (.finalize j w k ending) db'.core := by
  unfold finalizeTx at h
  generalize hr : JobsRepo.finalizeAttempt db j w k ending.jobStatus ending.nextRetryAt? = r at h
  simp only at h
  split at h
  · cases h
  rename_i db₁ hfin
  obtain rfl | ⟨job, hj, hown, rfl⟩ := JobsRepo.updateWhere_cases hr
  · cases h
    exact .skip _
  split at h
  swap
  · cases h
    exact .skip _
  rename_i hpresent
  split at h
  · cases h
  rename_i db₂ hdead
  obtain ⟨db₃, hrel, heq⟩ := Option.map_eq_some_iff.mp h
  cases heq
  have hframe := AttemptsRepo.finalize_frame hfin
  have hp : job.Present := by
    have hsome := hpresent.2
    rw [hframe] at hsome
    unfold JobsRepo.get at hsome
    simp only [Table.lookup_insert_eq, if_true] at hsome
    obtain ⟨row, hrow⟩ := Option.isSome_iff_exists.mp hsome
    obtain ⟨heq, hrow⟩ := Option.filter_eq_some_iff.mp hrow
    cases heq
    exact of_decide_eq_true hrow
  have hdlq := deadLetter_core hdead
  rw [hframe] at hdlq
  exact .finalize hj hown hp hdlq (release_core hrel)

theorem reclaimTx_core {env : Env} {i : Input} {db db' : Db} {j : JobId} {t : Time} {b : Bool}
    (h : reclaimTx env db j t i.now = some (db', b)) :
    CoreStep env db.core i (.reclaim j t) db'.core := by
  unfold reclaimTx at h
  generalize hr : JobsRepo.reclaimStale db j env.settings.maxAttempts t i.now = r at h
  obtain rfl | ⟨job, hj, hc, rfl⟩ := JobsRepo.updateWhere_cases hr
  · cases h
    exact .skip _
  · simp only [Table.lookup_insert_eq, if_true] at h
    obtain ⟨db₁, hrel, heq⟩ := Option.map_eq_some_iff.mp h
    cases heq
    exact .reclaim hj hc.1 hc.2 (release_core hrel)

theorem admitTx_core {env : Env} {i : Input} {db db' : Db} {j : JobId} {k : ℕ} {request : Resources Json}
    {now : Time} {b : Bool} (h : admitTx env db j k request now = some (db', b)) :
    CoreStep env db.core i (.reserve j k request) db'.core := by
  unfold admitTx at h
  split at h
  · cases h
  · cases h
    exact .skip _
  · rename_i capacity hcap
    obtain ⟨db₁, hins, heq⟩ := Option.map_eq_some_iff.mp h
    cases heq
    unfold ReservationsRepo.insert at hins
    split at hins
    · cases hins
    · rename_i amount hamount
      obtain ⟨reservations, hres, rfl⟩ := Option.map_eq_some_iff.mp hins
      obtain ⟨hfree, rfl⟩ := Table.insertNew_eq_some.mp hres
      exact .reserve hcap hamount hfree

/-! ### The statements about artifacts, models and runs -/

/-- The tables that jobs are scheduled, executed and published with. -/
structure Frame where
  core : Core
  attempts : Table (JobId × ℕ) Attempt
  outbox : List Outbox
  schedulingDecisions : List SchedulingDecision

def Db.frame (db : Db) : Frame :=
  { core := db.core, attempts := db.attempts, outbox := db.outbox,
    schedulingDecisions := db.schedulingDecisions }

/-- The statement reads, or writes something else than the tables of `Frame`. -/
def Op.Elsewhere : Op → Bool
  | .createJob .. | .transition .. | .cancel .. | .setCancelRequested _ | .updateConfig ..
  | .softDelete _ | .reserve .. | .insertDecision .. | .reclaim .. | .insertEvent _
  | .clearRetryDispatched _ | .markPublished _ | .claim .. | .insertAttempt .. | .finalize .. => false
  | _ => true

theorem fenced_some {db : Db} {j : JobId} {w : WorkerId} {k : ℕ} {write : Option (Db × Bool)}
    {r : Db × Bool} (h : db.fenced j w k write = some r) : r = (db, false) ∨ write = some r := by
  unfold Db.fenced at h
  split at h
  · exact Or.inr h
  · exact Or.inl (Option.some.inj h).symm

theorem registerCheckpoint_frame {env : Env} {db : Db} {j : JobId} {w : WorkerId} {run : RunId}
    {k : ℕ} {step : Json} {a : ArtifactId} {base : NullableVersionRef} {version : ℕ} {now : Time}
    {r : Db × Bool}
    (h : CheckpointsRepo.register env db j w run k step a base version now = some r) :
    r.1.frame = db.frame := by
  unfold CheckpointsRepo.register at h
  split at h
  · cases h
  obtain rfl | h := fenced_some h
  · rfl
  split at h
  · cases h
  split at h
  · cases h
  obtain ⟨checkpoints, _, rfl⟩ := Option.map_eq_some_iff.mp h
  rfl

theorem registerOutput_frame {db : Db} {j : JobId} {w : WorkerId} {run : RunId} {k : ℕ}
    {a : ArtifactId} {r : Db × Bool}
    (h : TrainingRunOutputsRepo.register db j w run k a = some r) : r.1.frame = db.frame := by
  obtain rfl | h := fenced_some h
  · rfl
  split at h
  · cases h
  obtain ⟨outputs, _, rfl⟩ := Option.map_eq_some_iff.mp h
  rfl

theorem recordMetric_frame {env : Env} {db : Db} {j : JobId} {w : WorkerId} {run : RunId} {k : ℕ}
    {step : Json} {reading : TrainingMetricsRepo.Reading} {r : Db × Bool}
    (h : TrainingMetricsRepo.record env db j w run k step reading = some r) :
    r.1.frame = db.frame := by
  unfold TrainingMetricsRepo.record at h
  split at h
  swap
  · cases h
  split at h
  swap
  · cases h
  obtain rfl | h := fenced_some h
  · rfl
  split at h
  · cases h
  split at h
  · cases h
    rfl
  · cases h

theorem recordResumeDecision_frame {db : Db} {j : JobId} {w : WorkerId} {run : RunId} {k : ℕ}
    {step : Option ℤ} {r : Db × Bool}
    (h : AttemptResumeDecisionsRepo.record db j w run k step = some r) : r.1.frame = db.frame := by
  obtain rfl | h := fenced_some h
  · rfl
  obtain ⟨decisions, _, rfl⟩ := Option.map_eq_some_iff.mp h
  rfl

theorem markStatus_frame {db : Db} {run : RunId} {j : JobId} {w : WorkerId} {k : ℕ}
    {status : RunStatus} {completedAt : Option Time} {r : Db × Bool}
    (h : EvaluationRunsRepo.markStatus db run j w k status completedAt = some r) :
    r.1.frame = db.frame := by
  obtain rfl | h := fenced_some h
  · rfl
  split at h
  · cases h
    rfl
  · cases h
    rfl

theorem recordResult_frame {env : Env} {db : Db} {j : JobId} {w : WorkerId} {run : RunId} {k : ℕ}
    {exampleId : String} {prediction expectedOutput score latencyMs : Json} {r : Db × Bool}
    (h : EvaluationResultsRepo.record env db j w run k exampleId prediction expectedOutput score
      latencyMs = some r) :
    r.1.frame = db.frame := by
  unfold EvaluationResultsRepo.record at h
  split at h
  swap
  · cases h
  obtain rfl | h := fenced_some h
  · rfl
  split at h
  · cases h
    rfl
  · cases h
    rfl

theorem recordEvaluationMetric_frame {env : Env} {db : Db} {j : JobId} {w : WorkerId} {run : RunId}
    {k : ℕ} {name value split count : Json} {r : Db × Bool}
    (h : EvaluationMetricsRepo.record env db j w run k name value split count = some r) :
    r.1.frame = db.frame := by
  unfold EvaluationMetricsRepo.record at h
  split at h
  swap
  · cases h
  split at h
  · cases h
  obtain rfl | h := fenced_some h
  · rfl
  split at h
  swap
  · cases h
  split at h
  · cases h
  split at h
  · cases h
    rfl
  · cases h
    rfl

theorem createPending_frame {db db' : Db} {a : ArtifactId} {hash : Hash} {now : Time}
    (h : ArtifactsRepo.createPending db a hash now = some db') : db'.frame = db.frame := by
  unfold ArtifactsRepo.createPending at h
  split at h
  · cases h
  · obtain ⟨artifacts, _, rfl⟩ := Option.map_eq_some_iff.mp h
    rfl

theorem updateArtifact_frame (db : Db) (a : ArtifactId) (cond : Artifact → Prop)
    [DecidablePred cond] (set : Artifact → Artifact) :
    (ArtifactsRepo.updateWhere db a cond set).1.frame = db.frame := by
  rw [ArtifactsRepo.updateWhere_frame]
  rfl

theorem createModelVersion_frame {db db' : Db} {v : VersionRef} {row : ModelVersion}
    (h : ModelsRepo.createVersion db v row = some db') : db'.frame = db.frame := by
  unfold ModelsRepo.createVersion at h
  split at h
  · cases h
  · split at h
    · cases h
    · obtain ⟨table, _, rfl⟩ := Option.map_eq_some_iff.mp h
      rfl

theorem recordGateResult_frame (db : Db) (run : RunId) (gate : ℕ) (status : GateStatus)
    (ruleResults : List Json) (now : Time) :
    (QualityGateResultsRepo.record db run gate status ruleResults now).1.frame = db.frame := by
  unfold QualityGateResultsRepo.record
  split
  · split <;> rfl
  · rfl

/-- A write that the database can reject. -/
theorem tryWrite_db {β : Type} {s : World} {r : Option (Db × β)} {R : Db → Prop} (hnone : R s.db)
    (hsome : ∀ db b, r = some (db, b) → R db) : R (s.tryWrite r).1.db := by
  cases r with
  | none => exact hnone
  | some r => exact hsome r.1 r.2 rfl

/-- A statement that binds JSON does what it would do otherwise, or nothing. -/
theorem storing_cases {β : Type} (s : World) (storable : Bool) (r : World × Except Exn β) :
    s.storing storable r = r ∨ s.storing storable r = (s, .error .databaseError) := by
  cases storable with
  | true => exact Or.inl rfl
  | false => exact Or.inr rfl

theorem storing_fst {β : Type} {s : World} {storable : Bool} {r : World × Except Exn β}
    {R : World → Prop} (hs : R s) (hr : R r.1) : R (s.storing storable r).1 := by
  obtain h | h := storing_cases s storable r <;> rw [h]
  · exact hr
  · exact hs

/-- The world with one more job. -/
def World.enqueue (s : World) (j : JobId) (job : Job) : World :=
  { s with db := { s.db with jobs := s.db.jobs.insert j job } }

/-- **What the creation of a job does**: nothing, or a new row and an entry of the journal. -/
theorem perform_createJob (env : Env) (p : ℕ) (i : Input) (s : World) (origin : Origin)
    (jobType : String) (config : Option Dict) (priority : ℤ) :
    (Op.createJob origin jobType config priority).perform env p i s = (s, .error .databaseError) ∨
    (s.db.jobs.lookup i.uuid = none ∧
      (Op.createJob origin jobType config priority).perform env p i s =
        ((s.enqueue i.uuid { jobType, status := .queued, config, priority, createdAt := i.now }).log
          (.created p origin i.uuid), .ok i.uuid)) := by
  unfold Op.perform
  simp only [World.storing]
  split
  · cases hdb : JobsRepo.createAndEnqueue s.db i.uuid
      { jobType, status := .pending, config, priority, createdAt := i.now } .queued with
    | none => exact Or.inl rfl
    | some db =>
        obtain ⟨jobs, hjobs, rfl⟩ := Option.map_eq_some_iff.mp hdb
        obtain ⟨hj, rfl⟩ := Table.insertNew_eq_some.mp hjobs
        exact Or.inr ⟨hj, rfl⟩
  · exact Or.inl rfl

theorem tryWrite_frame {β : Type} {s : World} {r : Option (Db × β)}
    (h : ∀ db b, r = some (db, b) → db.frame = s.db.frame) :
    (s.tryWrite r).1.db.frame = s.db.frame :=
  tryWrite_db (R := fun db => db.frame = s.db.frame) rfl h

/-- **The other statements leave the tables of the frame alone.** -/
theorem perform_frame (env : Env) (p : ℕ) (i : Input) (s : World) {op : Op}
    (hop : op.Elsewhere = true) : (op.perform env p i s).1.db.frame = s.db.frame := by
  cases op
  case createJob | transition | cancel | setCancelRequested | updateConfig | softDelete | reserve |
    insertDecision | reclaim | insertEvent | clearRetryDispatched | markPublished | claim |
    insertAttempt | finalize => cases hop
  case registerCheckpoint => exact tryWrite_frame fun db b h => registerCheckpoint_frame h
  case registerOutput => exact tryWrite_frame fun db b h => registerOutput_frame h
  case recordMetric => exact tryWrite_frame fun db b h => recordMetric_frame h
  case recordResumeDecision => exact tryWrite_frame fun db b h => recordResumeDecision_frame h
  case markRunStatus => exact tryWrite_frame fun db b h => markStatus_frame h
  case recordResult => exact tryWrite_frame fun db b h => recordResult_frame h
  case recordEvaluationMetric =>
      exact tryWrite_frame fun db b h => recordEvaluationMetric_frame h
  case createPending =>
      refine tryWrite_frame fun db b h => ?_
      obtain ⟨db₁, hdb, heq⟩ := Option.map_eq_some_iff.mp h
      cases heq
      exact createPending_frame hdb
  case createTrainingRun =>
      refine storing_fst (R := fun m => m.db.frame = s.db.frame) rfl (tryWrite_frame fun db b h => ?_)
      obtain ⟨db₁, hdb, heq⟩ := Option.map_eq_some_iff.mp h
      obtain ⟨table, _, rfl⟩ := Option.map_eq_some_iff.mp hdb
      cases heq
      rfl
  case createEvaluationRun =>
      refine tryWrite_frame fun db b h => ?_
      obtain ⟨db₁, hdb, heq⟩ := Option.map_eq_some_iff.mp h
      obtain ⟨table, _, rfl⟩ := Option.map_eq_some_iff.mp hdb
      cases heq
      rfl
  case createDataset =>
      refine tryWrite_frame fun db b h => ?_
      obtain ⟨db₁, hdb, heq⟩ := Option.map_eq_some_iff.mp h
      cases heq
      rw [DatasetsRepo.create_frame hdb]
      rfl
  case createModel =>
      refine tryWrite_frame fun db b h => ?_
      obtain ⟨db₁, hdb, heq⟩ := Option.map_eq_some_iff.mp h
      cases heq
      rw [ModelsRepo.create_frame hdb]
      rfl
  case createDatasetVersion =>
      refine tryWrite_frame fun db b h => ?_
      obtain ⟨db₁, hdb, heq⟩ := Option.map_eq_some_iff.mp h
      obtain ⟨table, _, rfl⟩ := Option.map_eq_some_iff.mp hdb
      cases heq
      rfl
  case createModelVersion =>
      refine tryWrite_frame fun db b h => ?_
      obtain ⟨db₁, hdb, heq⟩ := Option.map_eq_some_iff.mp h
      cases heq
      exact createModelVersion_frame hdb
  case recordGateResult =>
      exact storing_fst (R := fun m => m.db.frame = s.db.frame) rfl (recordGateResult_frame _ _ _ _ _ _)
  case claimUploadLease | markUploaded | renewUploadLease | reconcileToUploaded | reconcileToFailed =>
      exact updateArtifact_frame _ _ _ _
  case findTrainingRun | findEvaluationRun =>
      unfold Op.perform
      simp only [World.readOne]
      split <;> rfl
  case download | readFile | objectSize =>
      unfold Op.perform
      dsimp only
      split <;> rfl
  all_goals rfl

/-! ### All statements -/

theorem tryWrite_core {β : Type} {s : World} {r : Option (Db × β)} {R : Core → Prop}
    (hnone : R s.db.core) (hsome : ∀ db b, r = some (db, b) → R db.core) :
    R (s.tryWrite r).1.db.core :=
  tryWrite_db (R := fun db => R db.core) hnone hsome

theorem CoreStep.of_eq {env : Env} {c c' : Core} {i : Input} {op : Op} (h : c' = c) :
    CoreStep env c i op c' := h ▸ .skip op

/-- **Every statement does to the core what `CoreStep` lists for it.** -/
theorem perform_core (env : Env) (p : ℕ) (i : Input) (s : World) (op : Op) :
    CoreStep env s.db.core i op (op.perform env p i s).1.db.core := by
  by_cases hop : op.Elsewhere = true
  · exact .of_eq (congrArg Frame.core (perform_frame env p i s hop))
  cases op
  case createJob origin jobType config priority =>
      obtain h | ⟨hj, h⟩ := perform_createJob env p i s origin jobType config priority <;> rw [h]
      · exact .skip _
      · exact .createJob (c := s.db.core) hj
  case transition j toStatus => exact transitionTx_core
  case cancel j k => exact tryWrite_core (.skip _) fun db b h => cancelTx_core h
  case setCancelRequested j =>
      unfold Op.perform
      dsimp only
      generalize hr : JobsRepo.setCancelRequested s.db j = r
      obtain rfl | ⟨job, hj, hc, rfl⟩ := JobsRepo.updateWhere_cases hr
      · exact .skip _
      · exact CoreStep.setCancelRequested (c := s.db.core) hj hc.1 hc.2
  case updateConfig j config =>
      unfold Op.perform
      dsimp only
      refine storing_fst (R := fun m => CoreStep env s.db.core i _ m.db.core) (.skip _) ?_
      generalize hr : JobsRepo.updateConfig s.db j (some config) = r
      obtain rfl | ⟨job, hj, _, rfl⟩ := JobsRepo.updateWhere_cases hr
      · exact .skip _
      · exact CoreStep.updateConfig (c := s.db.core) hj
  case softDelete j =>
      unfold Op.perform
      dsimp only
      generalize hr : JobsRepo.softDelete s.db j i.now = r
      obtain rfl | ⟨job, hj, _, rfl⟩ := JobsRepo.updateWhere_cases hr
      · exact .skip _
      · exact CoreStep.softDelete (c := s.db.core) hj
  case clearRetryDispatched j =>
      unfold Op.perform
      simp only [clearRetryTx]
      generalize hr : JobsRepo.clearRetryDispatched s.db j = r
      obtain rfl | ⟨job, hj, _, rfl⟩ := JobsRepo.updateWhere_cases hr
      · exact .skip _
      · exact CoreStep.clearRetryDispatched (c := s.db.core) hj
  case claim j w =>
      unfold Op.perform
      dsimp only
      generalize hr : JobsRepo.claim s.db j w i.now env.settings.leaseDurationSeconds = r
      obtain rfl | ⟨job, hj, ⟨hs, hc, hdue, hp, hact⟩, rfl⟩ := JobsRepo.updateWhere_cases hr
      · exact .skip _
      · exact CoreStep.claim (c := s.db.core) hj hs hc hdue hp hact
  case finalize j w k ending => exact tryWrite_core (.skip _) fun db b h => finalizeTx_core h
  case reclaim j t => exact tryWrite_core (.skip _) fun db b h => reclaimTx_core h
  case reserve j k request => exact tryWrite_core (.skip _) fun db b h => admitTx_core h
  case insertDecision =>
      refine tryWrite_core (.skip _) fun db b h => ?_
      obtain ⟨db₁, hdb, heq⟩ := Option.map_eq_some_iff.mp h
      cases heq
      unfold DecisionsRepo.insert at hdb
      split at hdb
      · cases hdb
      · cases hdb
        exact .skip _
  case insertAttempt =>
      refine tryWrite_core (.skip _) fun db b h => ?_
      obtain ⟨db₁, hdb, heq⟩ := Option.map_eq_some_iff.mp h
      obtain ⟨attempts, _, rfl⟩ := Option.map_eq_some_iff.mp hdb
      cases heq
      exact .skip _
  case insertEvent | markPublished => exact .skip _
  all_goals exact absurd rfl hop

/-! ### Beside the database -/

/-- The statements that write beside the database. -/
def Op.writesBeside : Op → Bool
  | .createJob .. | .send _ | .commitOffset _ | .startHeartbeat .. | .stopHeartbeat
  | .beginAttempt .. | .upload .. | .spawn .. => true
  | _ => false

/-- The other statements write the database only. -/
theorem perform_beside (env : Env) (p : ℕ) (i : Input) (s : World) {op : Op}
    (hop : op.writesBeside = false) :
    (op.perform env p i s).1 = { s with db := (op.perform env p i s).1.db } := by
  cases op <;> cases hop
  case findTrainingRun | findEvaluationRun | download | readFile | objectSize =>
      unfold Op.perform
      simp only [World.readOne]
      split <;> rfl
  case cancel | reserve | insertDecision | reclaim | insertAttempt | finalize | createEvaluationRun |
    createPending | recordResumeDecision | recordMetric | registerCheckpoint | registerOutput |
    markRunStatus | recordResult | recordEvaluationMetric | createDataset | createDatasetVersion |
    createModel | createModelVersion =>
      unfold Op.perform
      simp only [World.tryWrite]
      split <;> rfl
  case createTrainingRun =>
      refine storing_fst (R := fun m => m = { s with db := m.db }) rfl ?_
      simp only [World.tryWrite]
      split <;> rfl
  case updateConfig | recordGateResult =>
      exact storing_fst (R := fun m => m = { s with db := m.db }) rfl rfl
  all_goals rfl

/-- The creation of a job writes the database and the journal. -/
theorem createJob_beside (env : Env) (p : ℕ) (i : Input) (s : World) (origin : Origin)
    (jobType : String) (config : Option Dict) (priority : ℤ) : ∃ db journal,
      ((Op.createJob origin jobType config priority).perform env p i s).1 =
        { s with db, journal } := by
  obtain h | ⟨_, h⟩ := perform_createJob env p i s origin jobType config priority
  · exact ⟨s.db, s.journal, congrArg Prod.fst h⟩
  · exact ⟨_, _, congrArg Prod.fst h⟩

/-- Only an upload writes the object store. -/
theorem perform_store (env : Env) (p : ℕ) (i : Input) (s : World) {op : Op}
    (hop : ∀ key data, op ≠ .upload key data) : (op.perform env p i s).1.store = s.store := by
  by_cases hbeside : op.writesBeside = false
  · rw [perform_beside env p i s hbeside]
  · cases op <;> try exact absurd rfl hbeside
    case upload => exact absurd rfl (hop _ _)
    case createJob origin jobType config priority =>
        obtain ⟨db, journal, h⟩ := createJob_beside env p i s origin jobType config priority
        rw [h]
    all_goals rfl

/-- Only the start of a subprocess writes files, those of its own thread. -/
theorem perform_disk (env : Env) (p : ℕ) (i : Input) (s : World) {op : Op}
    (hop : ∀ executor context files, op ≠ .spawn executor context files) :
    (op.perform env p i s).1.disk = s.disk := by
  by_cases hbeside : op.writesBeside = false
  · rw [perform_beside env p i s hbeside]
  · cases op <;> try exact absurd rfl hbeside
    case spawn => exact absurd rfl (hop _ _ _)
    case createJob origin jobType config priority =>
        obtain ⟨db, journal, h⟩ := createJob_beside env p i s origin jobType config priority
        rw [h]
    all_goals rfl

/-- Only its own worker starts and stops a heartbeat thread. -/
theorem perform_heartbeats (env : Env) (p : ℕ) (i : Input) (s : World) {op : Op}
    (hstart : ∀ j w k, op ≠ .startHeartbeat j w k) (hstop : op ≠ .stopHeartbeat) :
    (op.perform env p i s).1.heartbeats = s.heartbeats := by
  by_cases hbeside : op.writesBeside = false
  · rw [perform_beside env p i s hbeside]
  · cases op <;> try exact absurd rfl hbeside
    case startHeartbeat => exact absurd rfl (hstart _ _ _)
    case stopHeartbeat => exact absurd rfl hstop
    case createJob origin jobType config priority =>
        obtain ⟨db, journal, h⟩ := createJob_beside env p i s origin jobType config priority
        rw [h]
    all_goals rfl

end PosttrainPlatform
