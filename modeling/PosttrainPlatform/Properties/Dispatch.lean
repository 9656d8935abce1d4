import PosttrainPlatform.Lib.Outbox
import PosttrainPlatform.Lib.Typestate
import PosttrainPlatform.Properties.Acknowledgement
import PosttrainPlatform.Properties.Atomicity

/-!
# The dispatch of an admitted job

An admitted job is not scheduled again, so a dispatch of it has to be on its way until a worker claims
it: an unpublished row of the outbox, or a message behind the committed offset.  Relay and workers
follow `mailProtocol`, and the outbox with the topic is the mail of `Lib/Outbox`.  The dispatch is lost
when the claim of a message does not take the waiting job, because the worker's loop commits the offset
all the same.
-/

namespace PosttrainPlatform

open Programs Service Outbox

/-! ### Waiting jobs and outstanding dispatches -/

/-- The job is admitted, and can be claimed when it is due. -/
def Core.Waiting (c : Core) (j : JobId) : Prop :=
  ∃ job ∈ c.jobs.lookup j, job.status = .queued ∧ job.cancelRequested = false ∧ job.Present ∧
    c.Active j (job.attemptNumber + 1)

instance (c : Core) (j : JobId) : Decidable (c.Waiting j) :=
  inferInstanceAs (Decidable (∃ job ∈ c.jobs.lookup j, _))

/-- A dispatch of the job is on its way. -/
def World.Outstanding (s : World) (j : JobId) : Prop :=
  (∃ row ∈ s.db.outbox, row.jobId = j ∧ row.publishedAt = none) ∨ j ∈ s.topic.drop s.committed

instance (s : World) (j : JobId) : Decidable (s.Outstanding j) :=
  inferInstanceAs (Decidable (_ ∨ _))

/-- Consumers read in order: a poll passes over no uncommitted message of a waiting job. -/
def ReadsInOrder : Op → Input → World → Prop
  | .poll, i, s => ∀ j ∈ (s.topic.take i.offset).drop s.committed, ¬ s.db.core.Waiting j
  | _, _, _ => True

/-- The claim of a waiting job finds it due. -/
def ClaimsDue : Op → Input → World → Prop
  | .claim j _, i, s => s.db.core.Waiting j → ∀ job ∈ s.db.jobs.lookup j, job.Due i.now
  | _, _, _ => True

/-- The claim that fails is not the claim of a waiting job. -/
def ClaimsReach : Op → World → Prop
  | .claim j _, s => ¬ s.db.core.Waiting j
  | _, _ => True

instance (op : Op) (i : Input) (s : World) : Decidable (ReadsInOrder op i s) := by
  unfold ReadsInOrder
  split <;> infer_instance

instance (op : Op) (i : Input) (s : World) : Decidable (ClaimsDue op i s) := by
  unfold ClaimsDue
  split <;> infer_instance

instance (op : Op) (s : World) : Decidable (ClaimsReach op s) := by
  unfold ClaimsReach
  split <;> infer_instance

/-! ### Jobs that begin to wait -/

/-- `Core.Waiting` in the view of the job. -/
def JobView.Waiting (v : JobView) : Prop :=
  v.job.status = .queued ∧ v.job.cancelRequested = false ∧ v.job.Present ∧
    v.rows.ActiveAt (v.job.attemptNumber + 1)

theorem Core.waiting_iff {c : Core} {j : JobId} :
    c.Waiting j ↔ ∃ v, c.view j = some v ∧ v.Waiting := by
  constructor
  · intro h
    obtain ⟨job, hj, hw⟩ := h
    exact ⟨_, Core.view_of_lookup hj, hw⟩
  · intro h
    obtain ⟨v, hv, hs, hc, hp, hact⟩ := h
    obtain ⟨hj, hrows, _⟩ := Core.view_eq_some.mp hv
    refine ⟨v.job, hj, hs, hc, hp, ?_⟩
    rw [← hrows] at hact
    exact hact

/-- No statement but the admission lets a job begin to wait. -/
theorem JobStep.waiting {env : Env} {c : Core} {i : Input} {j : JobId} {op : Op} {v v' : JobView}
    (h : JobStep env c i j op v v') (hb : v.job.Backed v.rows) (hq : v.job.Enqueued)
    (hop : ∀ k request, op ≠ .reserve j k request) (hw : v'.Waiting) : v.Waiting := by
  have hended : v.job.status = .running → v.job.leaseOwner.isSome →
      ¬ v.rows.ActiveAt (v.job.attemptNumber + 1) := by
    intro hs howner hact
    have hsome := Job.Backed.active_isSome hact
    rw [hb.next_free hs howner] at hsome
    cases hsome
  obtain ⟨hs, hcancel, hp, hact⟩ := hw
  cases h with
  | skip => exact ⟨hs, hcancel, hp, hact⟩
  | @transition _ toStatus status hto hfrom hpresent =>
      have hedge := mem_sourcesFor hto hfrom
      have hs : status = .queued := hs
      subst hs
      revert hq hedge
      unfold Job.Enqueued
      cases v.job.status <;> simp [validTransitions]
  | cancel hfrom hpresent hrows => cases hs
  | setCancelRequested hrun hpresent => cases hcancel
  | updateConfig config => exact ⟨hs, hcancel, hp, hact⟩
  | softDelete => cases hp
  | clearRetryDispatched => exact ⟨hs, hcancel, hp, hact⟩
  | claim hs' hc hdue hp' hact' => cases hs
  | finalize hown hpresent hletter hrows =>
      have howner : v.job.leaseOwner.isSome := by
        rw [hown.2.1]
        rfl
      exact absurd ((hrows _).mp hact).1 (hended hown.1 howner)
  | reclaim hrun hexp hrows =>
      obtain ⟨t, ht, _⟩ := hexp
      have howner := hb.leased (Option.isSome_iff_exists.mpr ⟨t, ht⟩)
      exact absurd ((hrows _).mp hact).1 (hended hrun howner)
  | reserve r hadm => exact absurd rfl (hop _ _)

/-- No job is PENDING in a run, and jobs are backed. -/
structure World.Sound (s : World) : Prop where
  backed : s.db.core.Backed
  enqueued : s.db.AllEnqueued

theorem sound_of_reaches {env : Env} {s : World} {es : List (SysEvent env)} {c : System env}
    (h : Reaches s es c) : c.shared.Sound := by
  refine ⟨backed_of_reaches h, ?_⟩
  refine Runs.run_invariant (I := fun c => c.shared.db.AllEnqueued) ?_ ?_ h.2
  · exact fun c e c' hc hstep => hc.step (step_rows hstep)
  · intro j job hj
    rw [h.1.db] at hj
    cases hj

/-- **Only an admission lets a job begin to wait.** -/
theorem perform_waiting (env : Env) (p : ℕ) (i : Input) {s : World} (hs : s.Sound) {op : Op}
    {j : JobId} (hop : ∀ k request, op ≠ .reserve j k request)
    (hw : (op.perform env p i s).1.db.core.Waiting j) : s.db.core.Waiting j := by
  have hviews := (perform_core env p i s op).views
  obtain ⟨v', hv', hw'⟩ := Core.waiting_iff.mp hw
  cases hv : s.db.core.view j with
  | none =>
      have hnone : s.db.core.jobs.lookup j = none := Option.map_eq_none_iff.mp hv
      have hrows := (hviews.new j v' hv hv').2.1
      obtain ⟨r, hr, _⟩ := hw'.2.2.2
      rw [hrows, hs.backed.orphan j hnone] at hr
      cases hr
  | some v =>
      obtain ⟨hj, hrows, _⟩ := Core.view_eq_some.mp hv
      have hback : v.job.Backed v.rows := hrows ▸ hs.backed.job j v.job hj
      have hstep := hviews.moves j v v' hv hv'
      exact Core.waiting_iff.mpr ⟨v, hv, hstep.waiting hback (hs.enqueued j v.job hj) hop hw'⟩

theorem beat_waiting {env : Env} {s : World} {a : ℕ × Time} {j : JobId}
    (hw : (s.beat env a.1 a.2).db.core.Waiting j) : s.db.core.Waiting j := by
  obtain ⟨row, hrow, hq, hrest⟩ := hw
  obtain hsame | ⟨job, w, k, t, _, hown, hmoved⟩ := beat_lookup env s a.1 a.2 j
  · rw [beat_frame] at hrest
    exact ⟨row, hsame.symm.trans hrow, hq, hrest⟩
  · cases hmoved.symm.trans hrow
    cases hown.1.symm.trans hq

/-- **A claim that finds the job due leaves it waiting no more.** -/
theorem perform_claim_not_waiting (env : Env) (p : ℕ) (i : Input) {s : World} (hs : s.Sound)
    {j : JobId} {w : WorkerId} (hdue : ClaimsDue (.claim j w) i s) :
    ¬ ((Op.claim j w).perform env p i s).1.db.core.Waiting j := by
  intro hafter
  have hbefore := perform_waiting env p i hs (fun _ _ hop => by cases hop) hafter
  have hdue := hdue hbefore
  obtain ⟨job, hj, hq, hc, hp, hact⟩ := hbefore
  have hclaimable : JobsRepo.Claimable s.db j i.now job := ⟨hq, hc, hdue job hj, hp, hact⟩
  have hclaim : (JobsRepo.claim s.db j w i.now env.settings.leaseDurationSeconds).1.core =
      s.db.core.putJob j (job.claimed w i.now env.settings.leaseDurationSeconds) := by
    have hlookup : s.db.jobs.lookup j = some job := hj
    unfold JobsRepo.claim JobsRepo.updateWhere
    simp only [hlookup, if_pos hclaimable]
    rfl
  have hafter : (JobsRepo.claim s.db j w i.now env.settings.leaseDurationSeconds).1.core.Waiting j :=
    hafter
  rw [hclaim] at hafter
  obtain ⟨row, hrow, hrowq, _⟩ := hafter
  rw [Option.mem_def, Core.lookup_putJob, if_pos rfl] at hrow
  cases hrow
  cases hrowq

/-! ### The mail of the platform -/

/-- The outbox and the topic. -/
def World.mail (s : World) : Mail JobId :=
  { rows := s.db.outbox.map fun row => (row.jobId, row.publishedAt.isSome)
    log := s.topic
    committed := s.committed }

theorem World.outstanding_of_mail {s : World} {j : JobId} (h : s.mail.Outstanding j) :
    s.Outstanding j := by
  rcases h with hrow | hmessage
  · obtain ⟨row, hrow, heq⟩ := List.mem_map.mp hrow
    obtain ⟨hj, hpublished⟩ := Prod.mk.inj heq
    exact Or.inl ⟨row, hrow, hj, Option.isNone_iff_eq_none.mp (Option.isSome_eq_false_iff.mp hpublished)⟩
  · exact Or.inr hmessage

/-- The statements that write the outbox, or the topic. -/
def Op.posts : Op → Bool
  | .reserve .. | .insertEvent _ | .markPublished _ | .send _ | .commitOffset _ => true
  | _ => false

theorem World.mail_congr {s s' : World} (houtbox : s'.db.outbox = s.db.outbox)
    (htopic : (s'.topic, s'.committed) = (s.topic, s.committed)) : s'.mail = s.mail := by
  obtain ⟨hlog, hcommitted⟩ := Prod.mk.inj htopic
  unfold World.mail
  rw [houtbox, hlog, hcommitted]

theorem World.mail_enqueue {s s' : World} {row : Outbox} (hrow : row.publishedAt = none)
    (houtbox : s'.db.outbox = s.db.outbox ++ [row])
    (htopic : (s'.topic, s'.committed) = (s.topic, s.committed)) :
    s'.mail = s.mail.enqueue row.jobId := by
  obtain ⟨hlog, hcommitted⟩ := Prod.mk.inj htopic
  unfold World.mail
  rw [houtbox, hlog, hcommitted, List.map_append, List.map_singleton, hrow]
  rfl

theorem World.mail_mark (s : World) (r : ℕ) (now : Time) :
    { s with db := OutboxRepo.markPublished s.db r now }.mail = s.mail.mark r := by
  have hrows : ((s.db.outbox.modify r fun row => { row with publishedAt := some now }).map
        fun row => (row.jobId, row.publishedAt.isSome)) =
      ((s.db.outbox.map fun row => (row.jobId, row.publishedAt.isSome)).modify r
        fun x => (x.1, true)) := by
    apply List.ext_getElem?
    intro n
    rw [List.getElem?_map, List.getElem?_modify, List.getElem?_modify, List.getElem?_map]
    cases s.db.outbox[n]? with
    | none => rfl
    | some row =>
        by_cases hr : r = n
        · simp [hr]
        · simp [hr]
  exact congrArg (fun rows => { s.mail with rows }) hrows

/-- The relay lists rows that are there. -/
theorem World.mem_listUnpublished {s : World} {r : ℕ} {j : JobId}
    (h : (r, j) ∈ OutboxRepo.listUnpublished s.db) : ∃ b, s.mail.rows[r]? = some (j, b) := by
  obtain ⟨x, hx, heq⟩ := List.mem_map.mp h
  have hx := (List.mem_filter.mp ((List.mem_insertionSort _).mp (List.mem_of_mem_take hx))).1
  have hget := List.mem_zipIdx_iff_getElem?.mp hx
  cases heq
  refine ⟨x.1.publishedAt.isSome, ?_⟩
  rw [World.mail, List.getElem?_map, hget]
  rfl

/-- Only `send` and `commitOffset` write the topic. -/
theorem perform_topic (env : Env) (p : ℕ) (i : Input) (s : World) {op : Op}
    (hop : ∀ j, op ≠ .send j) (hcommit : ∀ o, op ≠ .commitOffset o) :
    ((op.perform env p i s).1.topic, (op.perform env p i s).1.committed) =
      (s.topic, s.committed) := by
  by_cases hbeside : op.writesBeside = false
  · rw [perform_beside env p i s hbeside]
  · cases op <;> simp only [Op.writesBeside, not_true] at hbeside
    case send => exact absurd rfl (hop _)
    case commitOffset => exact absurd rfl (hcommit _)
    case createJob origin jobType config priority =>
        obtain h | ⟨_, h⟩ := perform_createJob env p i s origin jobType config priority
        · rw [h]
        · rw [h]
          rfl
    all_goals rfl

theorem updateWhere_outbox (db : Db) (j : JobId) (cond : Job → Prop) [DecidablePred cond]
    (set : Job → Job) : (JobsRepo.updateWhere db j cond set).1.outbox = db.outbox := by
  rw [JobsRepo.updateWhere_frame]

theorem finalizeTx_outbox {env : Env} {db db' : Db} {j : JobId} {w : WorkerId} {k : ℕ}
    {ending : Ending} {now : Time} {b : Bool}
    (h : finalizeTx env db j w k ending now = some (db', b)) : db'.outbox = db.outbox := by
  unfold finalizeTx at h
  simp only at h
  split at h
  · cases h
  rename_i db₁ hfin
  split at h
  swap
  · cases h
    rfl
  split at h
  · cases h
  rename_i db₂ hdead
  obtain ⟨db₃, hrel, heq⟩ := Option.map_eq_some_iff.mp h
  cases heq
  calc db'.outbox = db₂.outbox := by rw [ReservationsRepo.release_frame hrel]
    _ = db₁.outbox := by rw [deadLetter_frame hdead]
    _ = (JobsRepo.finalizeAttempt db j w k ending.jobStatus ending.nextRetryAt?).1.outbox := by
      rw [AttemptsRepo.finalize_frame hfin]
    _ = db.outbox := updateWhere_outbox _ _ _ _

theorem reclaimTx_outbox {env : Env} {db db' : Db} {j : JobId} {t now : Time} {b : Bool}
    (h : reclaimTx env db j t now = some (db', b)) : db'.outbox = db.outbox := by
  unfold reclaimTx at h
  simp only at h
  split at h
  · obtain ⟨db₁, hrel, heq⟩ := Option.map_eq_some_iff.mp h
    cases heq
    calc db'.outbox = (JobsRepo.reclaimStale db j env.settings.maxAttempts t now).1.outbox := by
          rw [ReservationsRepo.release_frame hrel]
          rfl
      _ = db.outbox := updateWhere_outbox _ _ _ _
  · cases h
    rfl

theorem cancelTx_outbox {db db' : Db} {j : JobId} {k : ℕ} {b : Bool}
    (h : cancelTx db j k = some (db', b)) : db'.outbox = db.outbox := by
  unfold cancelTx at h
  simp only at h
  split at h
  · obtain ⟨db₁, hrel, heq⟩ := Option.map_eq_some_iff.mp h
    cases heq
    rw [ReservationsRepo.release_frame hrel]
    exact updateWhere_outbox _ _ _ _
  · cases h
    rfl

theorem tryWrite_outbox {β : Type} {s : World} {r : Option (Db × β)}
    (h : ∀ db b, r = some (db, b) → db.outbox = s.db.outbox) :
    (s.tryWrite r).1.db.outbox = s.db.outbox :=
  tryWrite_db (R := fun db => db.outbox = s.db.outbox) rfl h

/-- **The other statements leave the mail alone.** -/
theorem perform_mail (env : Env) (p : ℕ) (i : Input) (s : World) {op : Op}
    (hop : op.posts = false) : (op.perform env p i s).1.mail = s.mail := by
  have hsend : ∀ j, op ≠ .send j := fun j heq => by rw [heq] at hop; cases hop
  have hcommit : ∀ o, op ≠ .commitOffset o := fun o heq => by rw [heq] at hop; cases hop
  refine World.mail_congr ?_ (perform_topic env p i s hsend hcommit)
  by_cases helse : op.Elsewhere = true
  · exact congrArg Frame.outbox (perform_frame env p i s helse)
  cases op
  case reserve | insertEvent | markPublished | send | commitOffset => cases hop
  case createJob origin jobType config priority =>
      obtain h | ⟨_, h⟩ := perform_createJob env p i s origin jobType config priority
      · rw [h]
      · rw [h]
        rfl
  case transition j toStatus =>
      simp only [Op.perform, World.write, transitionTx]
      split
      · exact updateWhere_outbox _ _ _ _
      · rfl
  case setCancelRequested | softDelete | clearRetryDispatched | claim =>
      exact updateWhere_outbox _ _ _ _
  case updateConfig =>
      exact storing_fst (R := fun m => m.db.outbox = s.db.outbox) rfl (updateWhere_outbox _ _ _ _)
  case cancel => exact tryWrite_outbox fun db b h => cancelTx_outbox h
  case reclaim => exact tryWrite_outbox fun db b h => reclaimTx_outbox h
  case finalize => exact tryWrite_outbox fun db b h => finalizeTx_outbox h
  case insertDecision =>
      refine tryWrite_outbox fun db b h => ?_
      obtain ⟨db₁, hdb, heq⟩ := Option.map_eq_some_iff.mp h
      cases heq
      unfold DecisionsRepo.insert at hdb
      split at hdb
      · cases hdb
      · cases hdb
        rfl
  case insertAttempt =>
      refine tryWrite_outbox fun db b h => ?_
      obtain ⟨db₁, hdb, heq⟩ := Option.map_eq_some_iff.mp h
      obtain ⟨attempts, _, rfl⟩ := Option.map_eq_some_iff.mp hdb
      cases heq
      rfl
  all_goals exact absurd rfl helse

/-! ### The stages of relays and workers -/

/-- Where a call stands after a statement. -/
def mailNext (stage : Stage JobId) : (op : Op) → Except Exn op.Ret → Stage JobId
  | .listUnpublished, .ok rows => match stage with
      | .idle => .listed rows
      | _ => stage
  | .poll, .ok (some (o, j)) => match stage with
      | .idle => .polled o j
      | _ => stage
  | .send _, .ok _ => match stage with
      | .listed ((r, j) :: rest) => .sent r j rest
      | _ => stage
  | .markPublished _, .ok _ => match stage with
      | .sent _ _ rest => .listed rest
      | _ => stage
  | .claim .., _ => match stage with
      | .polled o j => .taken o j
      | _ => stage
  | .commitOffset _, .ok _ => match stage with
      | .taken _ _ => .idle
      | _ => stage
  | _, _ => stage

/-- A relay sends and marks the rows that it has listed, one after the other; a worker claims the job
of its message and commits that message. -/
def mailAllowed (stage : Stage JobId) : Op → Prop
  | .send j => ∃ r rest, stage = .listed ((r, j) :: rest)
  | .markPublished r => ∃ j rest, stage = .sent r j rest
  | .poll => stage = .idle
  | .claim j _ => stage = .idle ∨ ∃ o, stage = .polled o j
  | .commitOffset n => ∃ o j, stage = .taken o j ∧ n = o + 1
  | _ => True

def mailProtocol : Protocol Op Op.Ret Exn (Stage JobId) where
  start := .idle
  next := mailNext
  allowed := mailAllowed

/-- The statements that the protocol does not speak of once a call has begun. -/
def Op.Calm (op : Op) : Prop :=
  (op.duty ≠ .relay ∧ op.duty ≠ .worker) ∨ ∃ j k, op = .insertAttempt j k

theorem calm_of_any {op : Op} (h : op.duty = .any) : op.Calm := by
  refine Or.inl ?_
  rw [h]
  decide

theorem Op.Calm.allowed {op : Op} (h : op.Calm) (stage : Stage JobId) : mailAllowed stage op := by
  rcases h with ⟨hrelay, hworker⟩ | ⟨j, k, rfl⟩
  · cases op
    case send | markPublished => exact absurd rfl hrelay
    case poll | commitOffset | claim => exact absurd rfl hworker
    all_goals trivial
  · trivial

theorem Op.Calm.next_taken {op : Op} (h : op.Calm) (o : ℕ) (j : JobId) (r : Except Exn op.Ret) :
    mailNext (.taken o j) op r = .taken o j := by
  rcases h with ⟨hrelay, hworker⟩ | ⟨i, k, rfl⟩
  · cases op
    case send | markPublished => exact absurd rfl hrelay
    case poll | commitOffset | claim => exact absurd rfl hworker
    case listUnpublished => cases r <;> rfl
    all_goals rfl
  · rfl

section Follows

variable {α : Type} {l : Stage JobId}

/-- Calm statements are allowed everywhere, and a message that has been taken stays so. -/
theorem follows_calm {prog : Service α} (h : prog.All Op.Calm) :
    prog.Follows mailProtocol l fun m => ∀ o j, l = .taken o j → m = .taken o j := by
  refine Prog.follows_of_all (fun m op hm hop => ⟨hop.allowed m, fun r o j hl => ?_⟩) h
    fun _ _ hl => hl
  have htaken := hm o j hl
  subst htaken
  exact hop.next_taken o j r

theorem calm_runAttempt (env : Env) (j : JobId) (w : WorkerId) (k : ℕ) :
    (runAttempt env j w k).All Op.Calm := by
  refine Prog.all_perform_bind.mpr ⟨Or.inr ⟨j, k, rfl⟩, fun _ => ?_⟩
  refine Prog.all_perform_bind.mpr ⟨calm_of_any rfl, fun _ => ?_⟩
  refine Prog.all_bind ?_ fun result => ?_
  · refine Prog.all_ensuring (Prog.all_mono (fun op hop => calm_of_any ?_)
      (all_runBody (δ := .any) env j w k)) (Prog.all_perform.mpr (calm_of_any rfl))
    rcases hop with hregister | ⟨executor, rfl⟩
    · simpa using hregister.2
    · rfl
  · refine Prog.all_mono (fun op hop => calm_of_any ?_) (all_conclude (δ := .any) env j w k _ _)
    rcases hop with hplain | ⟨ending, rfl⟩
    · simpa using hplain.2
    · rfl

/-- After the claim `process_job_message` leaves the mail alone. -/
theorem follows_processMail (env : Env) {j : JobId} {w : WorkerId}
    (hl : mailAllowed l (.claim j w)) : (processJobMessage env j w).Follows mailProtocol l
      fun m => ∀ o i, l = .polled o i → m = .taken o i := by
  have hnext : ∀ r o i, l = .polled o i → mailNext l (.claim j w) r = .taken o i := by
    intro r o i hpolled
    subst hpolled
    rfl
  refine Prog.follows_perform_bind hl (fun matched => ?_) (fun e o i h => hnext (.error e) o i h)
  refine Prog.Follows.mono (follows_calm ?_)
    fun m hm o i hpolled => hm o i (hnext (.ok matched) o i hpolled)
  refine Prog.all_bind (all_getIf (calm_of_any rfl)) fun job => ?_
  cases job with
  | none => trivial
  | some job => exact calm_runAttempt env j w job.attemptNumber

theorem follows_workerRunOnce (env : Env) (w : WorkerId) :
    (workerRunOnce env w).Follows mailProtocol .idle fun _ => True := by
  refine Prog.follows_perform_bind rfl (fun message => ?_) (fun _ => trivial)
  cases message with
  | none => trivial
  | some message =>
      obtain ⟨o, j⟩ := message
      have hclaim : mailAllowed (.polled o j) (.claim j w) := Or.inr ⟨o, rfl⟩
      have hprocess := follows_processMail env hclaim
      refine Prog.follows_bind (Prog.follows_attempt hprocess) (fun _ m hm => ?_) fun _ _ => trivial
      have htaken := hm o j rfl
      subst htaken
      exact ⟨⟨o, j, rfl, rfl⟩, fun r => by cases r <;> trivial⟩

theorem follows_publishAll (rows : List (ℕ × JobId)) (published : ℕ) :
    (publishAll rows published).Follows mailProtocol (.listed rows) fun _ => True := by
  induction rows generalizing published with
  | nil => trivial
  | cons row rest ih =>
      obtain ⟨r, j⟩ := row
      refine Prog.follows_perform_bind ⟨r, rest, rfl⟩ (fun _ => ?_) fun _ => trivial
      exact Prog.follows_perform_bind ⟨j, rest, rfl⟩ (fun _ => ih (published + 1)) fun _ => trivial

theorem follows_relayOnce : relayOnce.Follows mailProtocol .idle fun _ => True :=
  Prog.follows_perform_bind trivial (fun rows => follows_publishAll rows 0) fun _ => trivial

end Follows

/-- **Every call follows the protocol of the mail.** -/
theorem follows_program (env : Env) (call : Call) :
    (call.program env).Follows mailProtocol .idle fun _ => True := by
  have hcalm : call.duty ≠ .relay ∧ call.duty ≠ .worker →
      (call.program env).Follows mailProtocol .idle fun _ => True := by
    intro hduty
    have hall : (call.program env).All Op.Calm := by
      refine Prog.all_mono (fun op hop => Or.inl ?_) (inside_program env call)
      obtain hany | hown := hop.2
      · rw [hany]
        decide
      · rw [hown]
        exact hduty
    exact (follows_calm hall).mono fun _ _ => trivial
  cases call with
  | relayOnce => exact Prog.follows_bind follows_relayOnce (fun _ _ _ => trivial) fun _ _ => trivial
  | processJobMessage j w =>
      have hclaim : mailAllowed .idle (.claim j w) := Or.inl rfl
      exact Prog.follows_bind (follows_processMail env hclaim) (fun _ _ _ => trivial)
        fun _ _ => trivial
  | workerRunOnce w =>
      exact Prog.follows_bind (follows_workerRunOnce env w) (fun _ _ _ => trivial)
        fun _ _ => trivial
  | _ => exact hcalm (by simp [Call.duty])

/-! ### The books of the mail -/

/-- The books are in order for the jobs that wait. -/
def InOrder (s : World) (stage : ℕ → Stage JobId) : Prop := Ledger s.db.core.Waiting s.mail stage

def Op.steers : Op → Bool
  | .listUnpublished | .poll | .send _ | .markPublished _ | .claim .. | .commitOffset _ => true
  | _ => false

theorem mailNext_eq_self {op : Op} (hop : op.steers = false) (l : Stage JobId)
    (r : Except Exn op.Ret) : mailNext l op r = l := by
  cases op
  case listUnpublished | poll | send | markPublished | claim | commitOffset => cases hop
  all_goals rfl

section Books

variable {env : Env} {p : ℕ} {i : Input} {s : World} {stage : ℕ → Stage JobId}

/-- The books of the mail before the statement serve the jobs that wait after it. -/
theorem InOrder.carry (h : InOrder s stage) (hs : s.Sound) {op : Op}
    (hop : ∀ j k request, op ≠ .reserve j k request) :
    Ledger (op.perform env p i s).1.db.core.Waiting s.mail stage :=
  h.weaken fun j hw => perform_waiting env p i hs (hop j) hw

theorem InOrder.stay (h : InOrder s stage) {l : Stage JobId} (hp : stage p = l) :
    InOrder s (Function.update stage p l) := by
  subst hp
  rw [Function.update_eq_self]
  exact h

/-- A statement that the mail is not about. -/
theorem InOrder.quiet (h : InOrder s stage) (hs : s.Sound) {op : Op} (hposts : op.posts = false)
    (hsteers : op.steers = false) : InOrder (op.perform env p i s).1
      (Function.update stage p (mailNext (stage p) op (op.perform env p i s).2)) := by
  rw [mailNext_eq_self hsteers, Function.update_eq_self, InOrder, perform_mail env p i s hposts]
  refine h.carry hs fun j k request heq => ?_
  subst heq
  cases hposts

/-- An admission posts the event of its job. -/
theorem InOrder.reserve (h : InOrder s stage) (hs : s.Sound) (j : JobId) (k : ℕ)
    (request : Resources Json) : InOrder ((Op.reserve j k request).perform env p i s).1 stage := by
  rcases perform_reserve env p i s j k request with ⟨_, _, htakes, _⟩ | ⟨_, hsame⟩
  · obtain ⟨row, rfl, hrow, houtbox⟩ := htakes.publishes
    have hmail := World.mail_enqueue hrow houtbox
      (perform_topic env p i s (fun _ hop => by cases hop) fun _ hop => by cases hop)
    rw [InOrder, hmail]
    refine Ledger.enqueue h fun b hb hw => perform_waiting env p i hs (fun k' request' heq => ?_) hw
    exact hb (Op.reserve.inj heq).1.symm
  · rw [hsame]
    exact h

/-- **One statement of a call that follows the protocol.** -/
theorem InOrder.perform (h : InOrder s stage) (hs : s.Sound) {op : Op}
    (hallowed : mailAllowed (stage p) op) (horder : ReadsInOrder op i s)
    (hdue : ClaimsDue op i s) : InOrder (op.perform env p i s).1
      (Function.update stage p (mailNext (stage p) op (op.perform env p i s).2)) := by
  cases op
  case reserve j k request =>
      rw [mailNext_eq_self rfl, Function.update_eq_self]
      exact h.reserve hs j k request
  case insertEvent j =>
      rw [mailNext_eq_self rfl, Function.update_eq_self]
      have hmail : ((Op.insertEvent j).perform env p i s).1.mail = s.mail.enqueue j :=
        @World.mail_enqueue s _ { jobId := j, createdAt := i.now } rfl rfl rfl
      rw [InOrder, hmail]
      exact Ledger.enqueue h fun b _ hw => hw
  case listUnpublished =>
      show InOrder s (Function.update stage p
        (mailNext (stage p) .listUnpublished (.ok (OutboxRepo.listUnpublished s.db))))
      cases hp : stage p with
      | idle => exact Ledger.list h fun r j hr => World.mem_listUnpublished hr
      | listed | sent | polled | taken => exact h.stay hp
  case send j =>
      obtain ⟨r, rest, hp⟩ := hallowed
      rw [hp]
      exact Ledger.send h hp
  case markPublished r =>
      obtain ⟨j, rest, hp⟩ := hallowed
      rw [hp]
      have hmark := Ledger.mark h hp
      rw [← World.mail_mark s r i.now] at hmark
      exact hmark
  case poll =>
      have hp : stage p = .idle := hallowed
      rw [hp]
      show InOrder s (Function.update stage p (mailNext .idle .poll (.ok
        (if s.committed ≤ i.offset then s.topic[i.offset]?.map fun j => (i.offset, j) else none))))
      split
      · cases hmessage : s.topic[i.offset]? with
        | none => exact h.stay hp
        | some j =>
            refine Ledger.poll h hmessage fun n b hn hlt hb => horder b ?_
            refine List.mem_of_getElem? (i := n - s.committed) ?_
            have hcommitted : s.committed + (n - s.committed) = n := Nat.add_sub_cancel' hn
            rw [List.getElem?_drop, hcommitted, List.getElem?_take, if_pos hlt]
            exact hb
      · exact h.stay hp
  case claim j w =>
      have hcarry : InOrder ((Op.claim j w).perform env p i s).1 stage := by
        rw [InOrder, perform_mail env p i s rfl]
        exact h.carry hs fun _ _ _ heq => by cases heq
      rcases hallowed with hp | ⟨o, hp⟩
      · rw [hp]
        exact hcarry.stay hp
      · rw [hp]
        exact Ledger.take hcarry hp (perform_claim_not_waiting env p i hs hdue)
  case commitOffset n =>
      obtain ⟨o, j, hp, rfl⟩ := hallowed
      rw [hp]
      exact Ledger.commit h hp
  all_goals exact h.quiet hs rfl rfl

/-- **A statement that fails.** -/
theorem InOrder.fault (h : InOrder s stage) {op : Op} (hallowed : mailAllowed (stage p) op)
    (hreach : ClaimsReach op s) (e : Exn) :
    InOrder s (Function.update stage p (mailNext (stage p) op (.error e))) := by
  cases op
  case claim j w =>
      rcases hallowed with hp | ⟨o, hp⟩
      · rw [hp]
        exact h.stay hp
      · rw [hp]
        exact Ledger.take h hp hreach
  all_goals exact h.stay rfl

theorem InOrder.beat (h : InOrder s stage) (a : ℕ × Time) :
    InOrder (s.beat env a.1 a.2) stage := by
  have hmail : (s.beat env a.1 a.2).mail = s.mail := by
    rw [beat_frame]
    rfl
  rw [InOrder, hmail]
  exact Ledger.weaken h fun j hw => beat_waiting hw

end Books

/-- **The books of the mail are an invariant.** -/
theorem inOrder_invariant (env : Env) : StageInvariant (M := platform env) mailProtocol InOrder
    World.Sound (fun op i s => ReadsInOrder op i s ∧ ClaimsDue op i s) ClaimsReach where
  program := follows_program env
  idle p _ _ h := Ledger.idle h p
  perform _ _ _ _ _ _ hs h hallowed hφ := h.perform hs hallowed hφ.1 hφ.2
  fault _ e _ _ _ _ h hallowed hγ := h.fault hallowed hγ e
  halt _ _ _ h := h
  ambient a _ _ _ h := h.beat a

theorem World.Initial.inOrder {s : World} (h : s.Initial) : InOrder s fun _ => .idle := by
  refine Ledger.initial ?_ fun j hw => ?_
  · rw [h.rest]
    exact Nat.zero_le _
  · obtain ⟨job, hj, _⟩ := hw
    rw [h.db] at hj
    cases hj

/-! ### Every run -/

/-- **An admitted job has a dispatch outstanding**, in every run whose claims reach the waiting jobs
and find them due. -/
theorem dispatch_outstanding {env : Env} {s : World} {es : List (SysEvent env)} {c : System env}
    (h : Reaches s es c)
    (horder : Runs.Always Config.step (Config.AtStep fun op i s => ReadsInOrder op i s)
      ({ shared := s } : System env) es)
    (hdue : Runs.Always Config.step (Config.AtStep fun op i s => ClaimsDue op i s)
      ({ shared := s } : System env) es)
    (hreach : Runs.Always Config.step (Config.AtFault fun op s => ClaimsReach op s)
      ({ shared := s } : System env) es)
    {j : JobId} (hj : c.shared.db.core.Waiting j) : c.shared.Outstanding j := by
  have hsound : ∀ fs c', Runs.runFrom Config.step ({ shared := s } : System env) fs = some c' →
      c'.shared.Sound := fun fs c' hrun => sound_of_reaches ⟨h.1, hrun⟩
  obtain ⟨stage, hbooks, _⟩ := Config.staged_of_run (inOrder_invariant env) h.1.inOrder hsound
    (Config.always_atStep_and horder hdue) hreach h.2
  exact World.outstanding_of_mail (Ledger.outstanding hbooks hj)

/-- Job 1 is admitted, and its event published. -/
def published : List (SysEvent Env.standard) := admitJob noop ++ session 2 .relayOnce 3 {}

/-- The claim of the job meets a database error, and the worker's loop goes on. -/
def unclaimed : List (SysEvent Env.standard) :=
  published ++ session 3 (.workerRunOnce 7) 1 {} ++ [.fault 3 .databaseError] ++ proceed 3 1 {}

/-- **A dispatch is lost**: job 1 waits, and the only message about it is committed. -/
theorem dispatch_lost : ∃ c : System Env.standard, Reaches World.fresh unclaimed c ∧
    c.shared.db.core.Waiting 1 ∧ ¬ c.shared.Outstanding 1 :=
  exists_reaches World.fresh_initial _ (by decide +kernel)

/-- Two jobs are admitted and published, and a worker executes the first of them. -/
def oneExecuted : List (SysEvent Env.standard) :=
  session 0 (.createJob noop) 1 { uuid := 1 } ++ session 1 (.createJob noop) 1 { uuid := 2 } ++
    session 2 .schedulerRunOnce 15 {} ++ session 3 .relayOnce 5 {} ++
    session 4 (.workerRunOnce 7) 14 {}

/-- The other job waits, with its message in the topic. -/
theorem published_outstanding : ∃ c : System Env.standard, Reaches World.fresh oneExecuted c ∧
    c.shared.db.core.Waiting 1 ∧ c.shared.Outstanding 1 := by
  obtain ⟨c, hc, hj⟩ := exists_reaches World.fresh_initial oneExecuted
    (P := fun c => c.shared.db.core.Waiting 1) (by decide +kernel)
  exact ⟨c, hc, hj, dispatch_outstanding hc (by decide +kernel) (by decide +kernel)
    (by decide +kernel) hj⟩

end PosttrainPlatform
