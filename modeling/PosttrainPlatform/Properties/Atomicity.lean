import PosttrainPlatform.Properties.Lifecycle

/-!
# Crashes inside `try_admit` and `dispatch_due_retries`

Both are described as one transaction, and both call `insert_event`, which commits.  The functions
run here among others: each statement finds whatever the others have left, and `Commit` records what
the function has committed itself.  A crash or an error between two of its commits leaves one part of
an admission, or of a dispatched retry, without the other.
-/

namespace PosttrainPlatform

open Programs Service

/-- A statement of a service function, with the worlds before and after it. -/
abbrev Commit := Prog.Commit Op World

/-- The function, as thread `p` among others, is cut off in front of `q`, or fails at its next
statement, when it has committed `done`. -/
abbrev CutOffAmid {α : Type} (env : Env) (p : ℕ) (prog q : Service α) (done : List Commit) : Prop :=
  Prog.CutOff (Prog.amid (Op.alone env p)) (fun _ => True) prog [] q done

/-! ### All or nothing -/

/-- The admissions among the scheduling decisions. -/
def Db.admissions (db : Db) : List SchedulingDecision :=
  db.schedulingDecisions.filter fun d => d.decision = .admitted

/-- The commit takes the capacity, inserts the ACTIVE reservation of attempt `k`, and inserts the
event. -/
structure Takes (env : Env) (j : JobId) (k : ℕ) (request : Resources Json) (e : Commit) : Prop where
  increments : ∃ q, CapacityRepo.amounts env request = some q ∧
    CapacityRepo.reserved e.before.db.capacity q = some e.after.db.capacity.allocated
  reserves : JobsRepo.HasReservation e.after.db.reservations j k
  publishes : ∃ row : Outbox, row.jobId = j ∧ row.publishedAt = none ∧
    e.after.db.outbox = e.before.db.outbox ++ [row]

/-- The commit records an admission. -/
def Decides (j : JobId) (e : Commit) : Prop :=
  ∃ row : SchedulingDecision, row.jobId = j ∧ row.decision = .admitted ∧
    e.after.db.schedulingDecisions = e.before.db.schedulingDecisions ++ [row]

/-- The commit has nothing of an admission. -/
structure Untouched (e : Commit) : Prop where
  capacity : e.after.db.capacity = e.before.db.capacity
  reservations : e.after.db.reservations = e.before.db.reservations
  outbox : e.after.db.outbox = e.before.db.outbox
  admissions : e.after.db.admissions = e.before.db.admissions

/-- All of an admission of job `j` has been committed, or nothing of one. -/
def AdmittedOrNot (env : Env) (j : JobId) (done : List Commit) : Prop :=
  (∃ k request, (∃ e ∈ done, Takes env j k request e) ∧ ∃ e ∈ done, Decides j e) ∨
    ∀ e ∈ done, Untouched e

/-- The commit inserts a retry event of job `j`. -/
def Announces (j : JobId) (e : Commit) : Prop :=
  ∃ row : Outbox, row.jobId = j ∧ e.after.db.outbox = e.before.db.outbox ++ [row]

/-- The commit clears the retry time of job `j`. -/
def Clears (j : JobId) (e : Commit) : Prop :=
  e.op = .clearRetryDispatched j ∧
    ∀ job, e.after.db.jobs.lookup j = some job → job.nextRetryAt = none

/-- For every job the retry event and the clearing have both been committed, or neither. -/
def DispatchedOrNot (done : List Commit) : Prop :=
  ∀ j, (∃ e ∈ done, Announces j e) ↔ ∃ e ∈ done, Clears j e

/-! ### The point between two commits -/

def Op.reads : Op → Bool
  | .clock | .getJob _ | .loadJob _ | .hasActive .. | .getCapacity | .listRetryDue => true
  | _ => false

/-- The statement records an admission. -/
def Op.decides : Op → Bool
  | .insertDecision _ .admitted .. => true
  | _ => false

/-- The statement clears a retry time. -/
def Op.clears : Op → Bool
  | .clearRetryDispatched _ => true
  | _ => false

/-- The next thing that the function is going to write is the ADMITTED decision. -/
abbrev DecisionDue {α : Type} (q : Service α) : Prop :=
  q.NextWrites (fun op => op.reads = true) fun op => op.decides = true

/-- The next thing that the function is going to write is the cleared retry time. -/
abbrev ClearDue {α : Type} (q : Service α) : Prop :=
  q.NextWrites (fun op => op.reads = true) fun op => op.clears = true

instance : Nonempty Capacity := ⟨⟨fun _ => 0, fun _ => 0⟩⟩

instance (op : Op) : Nonempty op.Ret := by
  cases op <;> exact inferInstance

theorem perform_reads (env : Env) (p : ℕ) (i : Input) (s : World) {op : Op} (h : op.reads = true) :
    (op.perform env p i s).1 = s := by
  cases op
  case clock | getJob | loadJob | hasActive | getCapacity | listRetryDue => rfl
  all_goals cases h

theorem Untouched.of_eq {e : Commit} (h : e.after = e.before) : Untouched e := by
  constructor <;> rw [h]

/-- The statement has nothing to do with an admission. -/
def Op.aside : Op → Bool
  | .insertDecision _ .waiting .. => true
  | op => op.reads

/-- What `insertDecision` commits, when the amounts can be stored. -/
theorem perform_insertDecision (env : Env) (p : ℕ) (i : Input) (s : World) (j : JobId)
    (decision : DecisionKind) (reason : String) (request : Resources Json) (priority : ℚ) :
    ((ReservationsRepo.storedAmount env request = none ∧
        (Op.insertDecision j decision reason request priority).perform env p i s =
          (s, .error .databaseError)) ∨
      ∃ row : SchedulingDecision, (ReservationsRepo.storedAmount env request).isSome ∧
        row.jobId = j ∧ row.decision = decision ∧ row.reason = reason ∧
        (Op.insertDecision j decision reason request priority).perform env p i s =
          ({ s with db := { s.db with
            schedulingDecisions := s.db.schedulingDecisions ++ [row] } }, .ok ())) := by
  simp only [Op.perform, DecisionsRepo.insert]
  cases ReservationsRepo.storedAmount env request with
  | none => exact Or.inl ⟨rfl, rfl⟩
  | some requested => exact Or.inr ⟨_, rfl, rfl, rfl, rfl, rfl⟩

theorem untouched_aside (env : Env) (p : ℕ) {op : Op} (h : op.aside = true) (i : Input) (s : World) :
    Untouched ⟨op, s, (op.perform env p i s).1⟩ := by
  by_cases hreads : op.reads = true
  · exact .of_eq (perform_reads env p i s hreads)
  · unfold Op.aside at h
    split at h
    · rename_i j reason request priority
      rcases perform_insertDecision env p i s j .waiting reason request priority with
        ⟨_, heq⟩ | ⟨row, _, _, hrow, _, heq⟩
      · rw [heq]
        exact .of_eq rfl
      · rw [heq]
        refine ⟨rfl, rfl, rfl, ?_⟩
        simp [Db.admissions, hrow]
    · exact absurd h hreads

/-- **An admission takes capacity, reservation and event in one commit**, or takes nothing. -/
theorem perform_reserve (env : Env) (p : ℕ) (i : Input) (s : World) (j : JobId) (k : ℕ)
    (request : Resources Json) :
    (((Op.reserve j k request).perform env p i s).2 = .ok true ∧
        (ReservationsRepo.storedAmount env request).isSome ∧
        Takes env j k request ⟨.reserve j k request, s, ((Op.reserve j k request).perform env p i s).1⟩ ∧
        ((Op.reserve j k request).perform env p i s).1.db.schedulingDecisions =
          s.db.schedulingDecisions) ∨
      (((Op.reserve j k request).perform env p i s).2 ≠ .ok true ∧
        ((Op.reserve j k request).perform env p i s).1 = s) := by
  simp only [Op.perform, admitTx]
  cases hcap : CapacityRepo.tryReserve env s.db.capacity request with
  | none => exact Or.inr ⟨by simp [World.tryWrite], rfl⟩
  | some taken =>
      cases taken with
      | none => exact Or.inr ⟨by simp [World.tryWrite, World.write], rfl⟩
      | some capacity =>
          simp only
          cases hins : ReservationsRepo.insert env { s.db with capacity } j k request with
          | none => exact Or.inr ⟨by simp [World.tryWrite], rfl⟩
          | some db =>
              obtain ⟨q, hq, _, hstored⟩ := CapacityRepo.tryReserve_eq_some.mp hcap
              obtain ⟨allocated, hallocated, rfl⟩ := Option.map_eq_some_iff.mp hstored
              unfold ReservationsRepo.insert at hins
              cases hamount : ReservationsRepo.storedAmount env request with
              | none =>
                  rw [hamount] at hins
                  cases hins
              | some amount =>
                  rw [hamount] at hins
                  obtain ⟨reservations, hnew, rfl⟩ := Option.map_eq_some_iff.mp hins
                  obtain ⟨_, rfl⟩ := Table.insertNew_eq_some.mp hnew
                  refine Or.inl ⟨rfl, rfl, ⟨⟨q, hq, hallocated⟩, ?_, ⟨_, rfl, rfl, rfl⟩⟩, rfl⟩
                  exact ⟨_, AList.lookup_insert _, rfl⟩

/-! ### Admissions -/

section Admission

variable {env : Env} {p : ℕ} {j : JobId} {α : Type}

theorem not_decides_of_aside {op : Op} (h : op.aside = true) : ¬ op.decides = true := by
  intro hdecides
  cases op
  case insertDecision j decision reason request priority =>
      cases decision with
      | admitted => cases h
      | waiting => cases hdecides
  all_goals cases hdecides

/-- A part of the function that has nothing to do with an admission. -/
theorem untouched_leads {prog q : Service α} {done done' : List Commit}
    (h : Prog.Leads (Prog.amid (Op.alone env p)) (fun _ => True) prog done q done')
    (hp : prog.All fun op => op.aside = true) (hdone : ∀ e ∈ done, Untouched e) :
    ∀ e ∈ done', Untouched e := by
  obtain ⟨more, rfl, hmore⟩ := h.commits (P := Untouched)
    (fun op i s hop => untouched_aside env p hop i s) hp
  intro e he
  rcases List.mem_append.mp he with he | he
  · exact hdone e he
  · exact hmore e he

theorem not_decisionDue_of_aside {q : Service α} (hq : q.All fun op => op.aside = true) :
    ¬ DecisionDue q :=
  Prog.not_nextWrites_of_all (Prog.all_mono (fun _ => not_decides_of_aside) hq)

theorem not_decisionDue_bind {β : Type} {q : Service α} {f : α → Service β}
    (hq : q.All fun op => op.aside = true) (hf : ∀ a, ¬ DecisionDue (f a)) :
    ¬ DecisionDue (q >>= f) :=
  Prog.not_nextWrites_bind (Prog.all_mono (fun _ => not_decides_of_aside) hq) hf

theorem aside_recheck (job : Job) : (recheck j job).All fun op => op.aside = true := by
  apply Prog.all_perform_bind.mpr
  refine ⟨rfl, fun row => ?_⟩
  split
  · trivial
  · apply Prog.all_perform_bind.mpr
    refine ⟨rfl, fun now => ?_⟩
    split
    · trivial
    · exact Prog.all_perform_bind.mpr ⟨rfl, fun reserved => trivial⟩

theorem aside_rejected (env : Env) (j : JobId) (job : Job) (request : Resources Json) (reason : String) :
    (recordDecision env j job request (some reason)).All fun op => op.aside = true := by
  apply Prog.all_perform_bind.mpr
  exact ⟨rfl, fun now => Prog.all_perform_bind.mpr ⟨rfl, fun _ => trivial⟩⟩

theorem aside_refused (env : Env) (j : JobId) (job : Job) (request : Resources Json) : (do
    let cap ← exec .getCapacity
    let reason ← found .typeError (CapacityRepo.whichDimensionInsufficient cap request)
    recordDecision env j job request (some reason) : Service Bool).All fun op =>
      op.aside = true := by
  apply Prog.all_perform_bind.mpr
  refine ⟨rfl, fun cap => ?_⟩
  exact Prog.all_bind (all_found _ _) fun reason => aside_rejected env j job request reason

/-- The reservation is not the decision. -/
theorem not_decisionDue_reserve {k : ℕ} {request : Resources Json} {f : Bool → Service α} :
    ¬ DecisionDue (exec (.reserve j k request) >>= f) := by
  intro h
  rcases h with hdecides | ⟨hreads, _⟩
  · cases hdecides
  · cases hreads

theorem abrupt_found {e : Exn} {o : Option α} : (found e o).Abrupt := by
  cases o <;> trivial

theorem abrupt_recordDecision (job : Job) (request : Resources Json) (rejected : Option String) :
    (recordDecision env j job request rejected).Abrupt := by
  cases rejected with
  | none | some reason =>
      apply Prog.abrupt_perform_bind
      exact fun now => Prog.abrupt_perform_bind fun _ => trivial

theorem abrupt_tryAdmit (loaded : Option Job) : (tryAdmit env j loaded).Abrupt := by
  apply Prog.abrupt_bind
  · cases loaded with
    | some job => trivial
    | none => exact Prog.abrupt_perform_bind fun o => abrupt_found
  intro job
  apply Prog.abrupt_bind abrupt_found
  intro request
  apply Prog.abrupt_bind
  · apply Prog.abrupt_perform_bind
    intro row
    split
    · trivial
    · apply Prog.abrupt_perform_bind
      intro now
      split
      · trivial
      · exact Prog.abrupt_perform_bind fun reserved => trivial
  intro rejected
  cases rejected with
  | some reason => exact abrupt_recordDecision job request (some reason)
  | none =>
      apply Prog.abrupt_bind
      · apply Prog.abrupt_perform_bind
        intro reserved
        cases reserved with
        | true => trivial
        | false =>
            apply Prog.abrupt_perform_bind
            exact fun cap => Prog.abrupt_bind abrupt_found fun reason => trivial
      · exact fun rejected => abrupt_recordDecision job request rejected

/-- **Where `try_admit` can be cut off**: before its reservation, between the reservation and the
decision, or after both. -/
inductive AdmissionCut (env : Env) (j : JobId) (q : Service Bool) (done : List Commit) : Prop
  | before (hdone : ∀ e ∈ done, Untouched e) (hq : ¬ DecisionDue q)
  | between {k : ℕ} {request : Resources Json} (htakes : ∃ e ∈ done, Takes env j k request e)
      (hsame : ∀ e ∈ done, e.after.db.admissions = e.before.db.admissions) (hq : DecisionDue q)
  | after {k : ℕ} {request : Resources Json} (htakes : ∃ e ∈ done, Takes env j k request e)
      (hdecides : ∃ e ∈ done, Decides j e) (hq : ¬ DecisionDue q)

theorem AdmissionCut.iff {q : Service Bool} {done : List Commit} (h : AdmissionCut env j q done) :
    AdmittedOrNot env j done ↔ ¬ DecisionDue q := by
  cases h with
  | before hdone hq => exact iff_of_true (Or.inr hdone) hq
  | after htakes hdecides hq => exact iff_of_true (Or.inl ⟨_, _, htakes, hdecides⟩) hq
  | between htakes hsame hq =>
      refine iff_of_false (fun hall => ?_) (not_not_intro hq)
      rcases hall with ⟨k', request', _, e, he, row, _, hrow, hdecisions⟩ | hnone
      · have hadm := hsame e he
        unfold Db.admissions at hadm
        rw [hdecisions, List.filter_append] at hadm
        have hlength := congrArg List.length hadm
        simp [hrow] at hlength
      · obtain ⟨e, he, htake⟩ := htakes
        obtain ⟨row, _, _, houtbox⟩ := htake.publishes
        rw [(hnone e he).outbox] at houtbox
        have hlength := congrArg List.length houtbox
        simp at hlength

/-- From the commit of the reservation on. -/
theorem cut_recordDecision {job : Job} {k : ℕ} {request : Resources Json} {q : Service Bool}
    {done done' : List Commit}
    (hamount : (ReservationsRepo.storedAmount env request).isSome)
    (htakes : ∃ e ∈ done, Takes env j k request e)
    (hsame : ∀ e ∈ done, e.after.db.admissions = e.before.db.admissions)
    (h : Prog.Leads (Prog.amid (Op.alone env p)) (fun _ => True)
      (recordDecision env j job request none) done q done') : AdmissionCut env j q done' := by
  have hdecision : ∀ now, DecisionDue (do
      exec (.insertDecision j .admitted "resources_available" request
        (effectivePriority env.settings job now))
      pure true : Service Bool) := fun now => Or.inl rfl
  rcases Prog.leads_perform_bind h with ⟨rfl, rfl⟩ | ⟨x, _, ⟨e, hr, _⟩ | ⟨now, _, h⟩⟩
  · exact .between htakes hsame (Or.inr ⟨rfl, hdecision⟩)
  · cases hr
  have htakes₁ : ∃ e ∈ (Prog.amid (Op.alone env p) .clock x done).1, Takes env j k request e := by
    obtain ⟨e, he, htake⟩ := htakes
    exact ⟨e, List.mem_append_left _ he, htake⟩
  have hsame₁ : ∀ e ∈ (Prog.amid (Op.alone env p) .clock x done).1,
      e.after.db.admissions = e.before.db.admissions := by
    intro e he
    rcases List.mem_append.mp he with he | he
    · exact hsame e he
    · rw [List.mem_singleton.mp he]
      rfl
  rcases Prog.leads_perform_bind h with ⟨rfl, rfl⟩ | ⟨y, _, hcases⟩
  · exact .between htakes₁ hsame₁ (hdecision now)
  obtain ⟨requested, hrequested⟩ := Option.isSome_iff_exists.mp hamount
  rcases perform_insertDecision env p y.1 y.2 j .admitted "resources_available" request
    (effectivePriority env.settings job now) with ⟨hnone, _⟩ |
      ⟨row, _, hj, hrow, _, heq⟩
  · rw [hrequested] at hnone
    cases hnone
  rcases hcases with ⟨e, hr, _⟩ | ⟨_, _, h⟩
  · have hr : ((Op.insertDecision j .admitted "resources_available" request
        (effectivePriority env.settings job now)).perform env p y.1 y.2).2 = .error e := hr
    rw [heq] at hr
    cases hr
  · obtain ⟨rfl, rfl⟩ := Prog.leads_ret.mp h
    obtain ⟨e, he, htake⟩ := htakes₁
    refine .after ⟨e, List.mem_append_left _ he, htake⟩ ⟨_, List.mem_append_right _
      (List.mem_singleton_self _), row, hj, hrow, ?_⟩ id
    show ((Op.insertDecision j .admitted "resources_available" request
        (effectivePriority env.settings job now)).perform env p y.1 y.2).1.db.schedulingDecisions = _
    rw [heq]

theorem reserve_bind (job : Job) (request : Resources Json) (f : Option String → Service α) :
    (reserve j job request >>= f) =
      exec (.reserve j (job.attemptNumber + 1) request) >>= fun reserved =>
        if reserved then f none
        else (do
          let cap ← exec .getCapacity
          let reason ← found .typeError (CapacityRepo.whichDimensionInsufficient cap request)
          f (some reason)) := by
  unfold reserve
  rw [Prog.bind_assoc]
  refine congrArg _ (funext fun reserved => ?_)
  cases reserved with
  | true => rfl
  | false =>
      show ((exec .getCapacity >>= _) >>= f) = _
      rw [Prog.bind_assoc]
      refine congrArg _ (funext fun cap => ?_)
      cases CapacityRepo.whichDimensionInsufficient cap request <;> rfl

/-- From the reservation on. -/
theorem cut_reserve {job : Job} {request : Resources Json} {q : Service Bool}
    {done done' : List Commit} (hdone : ∀ e ∈ done, Untouched e)
    (h : Prog.Leads (Prog.amid (Op.alone env p)) (fun _ => True)
      (reserve j job request >>= recordDecision env j job request) done q done') :
    AdmissionCut env j q done' := by
  rw [reserve_bind] at h
  rcases Prog.leads_perform_bind h with ⟨rfl, rfl⟩ | ⟨x, _, hcases⟩
  · exact .before hdone not_decisionDue_reserve
  have hnot : ∀ {done₁ : List Commit} {e : Exn}, (∀ e ∈ done₁, Untouched e) →
      AdmissionCut env j (Prog.raise e : Service Bool) done₁ := fun h => .before h id
  rcases perform_reserve env p x.1 x.2 j (job.attemptNumber + 1) request with
    ⟨hr, hamount, htakes, hdecisions⟩ | ⟨hr, hs⟩
  · rcases hcases with ⟨e, he, _⟩ | ⟨reserved, hreserved, h⟩
    · cases hr.symm.trans he
    cases hr.symm.trans hreserved
    refine cut_recordDecision hamount ⟨_, List.mem_append_right _ (List.mem_singleton_self _),
      htakes⟩ (fun e he => ?_) h
    rcases List.mem_append.mp he with he | he
    · exact (hdone e he).admissions
    · rw [List.mem_singleton.mp he]
      show Db.admissions _ = Db.admissions _
      unfold Db.admissions
      rw [hdecisions]
  have hdone₁ : ∀ e ∈ (Prog.amid (Op.alone env p)
      (.reserve j (job.attemptNumber + 1) request) x done).1, Untouched e := by
    intro e he
    rcases List.mem_append.mp he with he | he
    · exact hdone e he
    · rw [List.mem_singleton.mp he]
      exact .of_eq hs
  rcases hcases with ⟨e, _, rfl, rfl⟩ | ⟨reserved, hreserved, h⟩
  · exact hnot hdone₁
  cases reserved with
  | true => exact absurd hreserved hr
  | false =>
      have hall := aside_refused env j job request
      exact .before (untouched_leads h hall hdone₁) (not_decisionDue_of_aside (h.all hall))

/-- What `tryAdmit` does from its checks on. -/
abbrev checked (env : Env) (j : JobId) (job : Job) (request : Resources Json) : Service Bool := do
  match ← recheck j job with
  | some reason => recordDecision env j job request (some reason)
  | none => do
      let rejected ← reserve j job request
      recordDecision env j job request rejected

theorem not_decisionDue_afterCheck (job : Job) (request : Resources Json) :
    (rejected : Option String) → ¬ DecisionDue (match rejected with
      | some reason => recordDecision env j job request (some reason)
      | none => do
          let rejected ← reserve j job request
          recordDecision env j job request rejected)
  | some reason => not_decisionDue_of_aside (aside_rejected env j job request reason)
  | none => not_decisionDue_reserve

theorem cut_checked {job : Job} {request : Resources Json} {q : Service Bool}
    {done done' : List Commit} (hdone : ∀ e ∈ done, Untouched e)
    (h : Prog.Leads (Prog.amid (Op.alone env p)) (fun _ => True) (checked env j job request)
      done q done') : AdmissionCut env j q done' := by
  rcases Prog.leads_bind h with ⟨q', hq', rfl⟩ | ⟨rejected, done₁, hcheck, h⟩
  · exact .before (untouched_leads hq' (aside_recheck job) hdone)
      (not_decisionDue_bind (hq'.all (aside_recheck job)) (not_decisionDue_afterCheck job request))
  have hdone₁ := untouched_leads hcheck (aside_recheck job) hdone
  cases rejected with
  | some reason =>
      have hall := aside_rejected env j job request reason
      exact .before (untouched_leads h hall hdone₁) (not_decisionDue_of_aside (h.all hall))
  | none => exact cut_reserve hdone₁ h

theorem cut_tryAdmit {loaded : Option Job} {q : Service Bool} {done : List Commit}
    (h : Prog.Leads (Prog.amid (Op.alone env p)) (fun _ => True) (tryAdmit env j loaded) [] q done) :
    AdmissionCut env j q done := by
  have hrefresh : (refresh j loaded).All fun op => op.aside = true := all_refresh rfl
  have hnil : ∀ e ∈ ([] : List Commit), Untouched e := fun e he => absurd he List.not_mem_nil
  rcases Prog.leads_bind h with ⟨q', hq', rfl⟩ | ⟨job, done₁, hloaded, h⟩
  · refine .before (untouched_leads hq' hrefresh hnil) ?_
    apply not_decisionDue_bind (hq'.all hrefresh)
    intro job
    cases resourceRequest env.settings job with
    | none => exact id
    | some request =>
        show ¬ DecisionDue (checked env j job request)
        exact not_decisionDue_bind (aside_recheck job) (not_decisionDue_afterCheck job request)
  have hdone₁ := untouched_leads hloaded hrefresh hnil
  cases hrequest : resourceRequest env.settings job with
  | none =>
      rw [hrequest] at h
      obtain ⟨rfl, rfl⟩ := Prog.leads_raise.mp h
      exact .before hdone₁ id
  | some request =>
      rw [hrequest] at h
      exact cut_checked hdone₁ h

end Admission

/-! ### Dispatched retries -/

section Dispatch

variable {env : Env} {p : ℕ}

theorem abrupt_dispatchDueRetries : dispatchDueRetries.Abrupt := by
  have hall : ∀ (jobs : List JobId) (n : ℕ), (dispatchAll jobs n).Abrupt := by
    intro jobs
    induction jobs with
    | nil => exact fun n => trivial
    | cons j rest ih =>
        intro n
        apply Prog.abrupt_perform_bind
        exact fun _ => Prog.abrupt_perform_bind fun _ => ih (n + 1)
  exact Prog.abrupt_perform_bind fun due => hall _ 0

/-- The commit of the event. -/
abbrev announced (env : Env) (p : ℕ) (x : Input × World) (j : JobId) : Commit :=
  ⟨.insertEvent j, x.2, ((Op.insertEvent j).perform env p x.1 x.2).1⟩

/-- The commit of the cleared retry time. -/
abbrev cleared (env : Env) (p : ℕ) (x : Input × World) (j : JobId) : Commit :=
  ⟨.clearRetryDispatched j, x.2, ((Op.clearRetryDispatched j).perform env p x.1 x.2).1⟩

theorem announces_announced {x : Input × World} {j j' : JobId} :
    Announces j' (announced env p x j) ↔ j' = j := by
  constructor
  · intro h
    obtain ⟨row, rfl, houtbox⟩ := h
    have hrow := List.append_cancel_left houtbox
    rw [← (List.cons.inj hrow).1]
  · intro h
    subst h
    exact ⟨_, rfl, rfl⟩

theorem not_announces_cleared {x : Input × World} {j j' : JobId} :
    ¬ Announces j' (cleared env p x j) := by
  intro h
  obtain ⟨row, _, houtbox⟩ := h
  have hsame : (JobsRepo.clearRetryDispatched x.2.db j).1.outbox = x.2.db.outbox := by
    unfold JobsRepo.clearRetryDispatched JobsRepo.updateWhere
    split <;> rfl
  have hlength := congrArg List.length (hsame.symm.trans houtbox)
  simp at hlength

theorem clears_cleared {x : Input × World} {j j' : JobId} :
    Clears j' (cleared env p x j) ↔ j' = j := by
  constructor
  · intro h
    cases h.1
    rfl
  · intro h
    subst h
    refine ⟨rfl, fun job hj => ?_⟩
    have hj : (JobsRepo.clearRetryDispatched x.2.db j').1.jobs.lookup j' = some job := hj
    generalize hr : JobsRepo.clearRetryDispatched x.2.db j' = r at hj
    obtain rfl | ⟨row, hrow, _, rfl⟩ := JobsRepo.updateWhere_cases hr
    · rw [JobsRepo.clearRetryDispatched, JobsRepo.updateWhere, hj] at hr
      exact Bool.noConfusion (congrArg Prod.snd hr)
    · rw [AList.lookup_insert] at hj
      cases hj
      rfl

theorem not_clears_announced {x : Input × World} {j j' : JobId} :
    ¬ Clears j' (announced env p x j) := by
  intro h
  cases h.1

theorem exists_mem_concat {P : Commit → Prop} {done : List Commit} {c : Commit} :
    (∃ e ∈ done ++ [c], P e) ↔ (∃ e ∈ done, P e) ∨ P c := by
  simp only [List.mem_append, List.mem_singleton, or_and_right, exists_or, exists_eq_left]

/-- **Where `dispatch_due_retries` can be cut off.** -/
theorem cut_dispatchAll {jobs : List JobId} {n : ℕ} {q : Service ℕ} {done done' : List Commit}
    (hjobs : jobs.Nodup) (hdone : DispatchedOrNot done)
    (hopen : ∀ j ∈ jobs, ∀ e ∈ done, ¬ Clears j e)
    (h : Prog.Leads (Prog.amid (Op.alone env p)) (fun _ => True) (dispatchAll jobs n) done q done') :
    DispatchedOrNot done' ↔ ¬ ClearDue q := by
  induction jobs generalizing n done with
  | nil =>
      obtain ⟨rfl, rfl⟩ := Prog.leads_ret.mp h
      exact iff_of_true hdone id
  | cons j rest ih =>
      obtain ⟨hj, hrest⟩ := List.nodup_cons.mp hjobs
      rcases Prog.leads_perform_bind h with ⟨rfl, rfl⟩ | ⟨x, _, hcases⟩
      · refine iff_of_true hdone fun hdue => ?_
        rcases hdue with hclears | ⟨hreads, _⟩
        · cases hclears
        · cases hreads
      rcases hcases with ⟨e, he, _⟩ | ⟨_, _, h⟩
      · cases he
      have hopened : ∀ j' ∈ j :: rest, ¬ ∃ e ∈ done ++ [announced env p x j], Clears j' e := by
        intro j' hj' hclears
        rcases exists_mem_concat.mp hclears with ⟨e, he, hclears⟩ | hclears
        · exact hopen j' hj' e he hclears
        · exact not_clears_announced hclears
      rcases Prog.leads_perform_bind h with ⟨rfl, rfl⟩ | ⟨y, _, hcases⟩
      · refine iff_of_false (fun hall => ?_) (not_not_intro (Or.inl rfl))
        have hannounces : ∃ e ∈ done ++ [announced env p x j], Announces j e :=
          exists_mem_concat.mpr (Or.inr (announces_announced.mpr rfl))
        exact hopened j List.mem_cons_self ((hall j).mp hannounces)
      rcases hcases with ⟨e, he, _⟩ | ⟨_, _, h⟩
      · cases he
      apply ih hrest ?_ ?_ h
      · intro j'
        show (∃ e ∈ (done ++ [announced env p x j]) ++ [cleared env p y j], Announces j' e) ↔
          ∃ e ∈ (done ++ [announced env p x j]) ++ [cleared env p y j], Clears j' e
        rw [exists_mem_concat, exists_mem_concat, exists_mem_concat, exists_mem_concat, hdone j',
          announces_announced, clears_cleared]
        simp only [not_announces_cleared, not_clears_announced, or_false]
      · intro j' hj' e he hclears
        rcases exists_mem_concat.mp ⟨e, he, hclears⟩ with hclears | hclears
        · exact hopened j' (List.mem_cons_of_mem _ hj') hclears
        · exact hj ((clears_cleared.mp hclears) ▸ hj')

theorem cut_dispatchDueRetries {q : Service ℕ} {done : List Commit}
    (h : Prog.Leads (Prog.amid (Op.alone env p)) (fun _ => True) dispatchDueRetries [] q done) :
    DispatchedOrNot done ↔ ¬ ClearDue q := by
  have hnil : DispatchedOrNot [] := fun j => by simp
  rcases Prog.leads_perform_bind h with ⟨rfl, rfl⟩ | ⟨x, _, ⟨e, he, _⟩ | ⟨due, hdue, h⟩⟩
  · refine iff_of_true hnil fun hdue => ?_
    rcases hdue with hclears | ⟨_, hrest⟩
    · cases hclears
    · exact hrest []
  · cases he
  cases hdue
  have hnone : ∀ {P : Commit → Prop}, ¬ P ⟨.listRetryDue, x.2, x.2⟩ →
      ¬ ∃ e ∈ [(⟨.listRetryDue, x.2, x.2⟩ : Commit)], P e := by
    intro P hP hex
    obtain ⟨e, he, hPe⟩ := hex
    exact hP (List.mem_singleton.mp he ▸ hPe)
  have hclears : ∀ j, ¬ Clears j ⟨.listRetryDue, x.2, x.2⟩ := by
    intro j hclears
    cases hclears.1
  apply cut_dispatchAll ?_ ?_ ?_ h
  · exact (List.Sublist.map _ List.filter_sublist).nodup (Table.nodup_rows x.2.db.jobs)
  · intro j
    refine iff_of_false (hnone fun hannounces => ?_) (hnone (hclears j))
    obtain ⟨row, _, houtbox⟩ := hannounces
    have hlength := congrArg List.length houtbox
    simp at hlength
  · intro j _ e he hclear
    exact hnone (hclears j) ⟨e, he, hclear⟩

end Dispatch

/-! ### All or nothing, exactly -/

/-- **An admission or a dispatched retry is committed in part** if and only if the function is cut off
between its two commits. -/
theorem committed_whole_iff (env : Env) (p : ℕ) (j : JobId) (loaded : Option Job) :
    (∀ q done, CutOffAmid env p (tryAdmit env j loaded) q done →
      (AdmittedOrNot env j done ↔ ¬ DecisionDue q)) ∧
    ∀ q done, CutOffAmid env p dispatchDueRetries q done →
      (DispatchedOrNot done ↔ ¬ ClearDue q) := by
  constructor
  · intro q done h
    exact (cut_tryAdmit (h.leads (abrupt_tryAdmit loaded))).iff
  · intro q done h
    exact cut_dispatchDueRetries (h.leads abrupt_dispatchDueRetries)

/-- The job is admitted in this world at time 0. -/
def Admissible (env : Env) (j : JobId) (job : Job) (request : Resources Json) (w : World) : Prop :=
  (JobsRepo.get w.db j).isSome ∧ job.status = .queued ∧ job.cancelRequested = false ∧ job.Due 0 ∧
    ReservationsRepo.hasActive w.db j (job.attemptNumber + 1) = false ∧
    ∃ db ∈ admitTx env w.db j (job.attemptNumber + 1) request 0, db.2 = true

/-- The statements, each executed with this input in this world. -/
def executedIn (env : Env) (p : ℕ) (x : Input × World) (ops : List Op) : List Commit :=
  ops.map fun op => ⟨op, x.2, (op.perform env p x.1 x.2).1⟩

theorem before_of_mem_executedIn {env : Env} {p : ℕ} {x : Input × World} {ops : List Op} {e : Commit}
    (he : e ∈ executedIn env p x ops) : e.before = x.2 := by
  obtain ⟨op, _, rfl⟩ := List.mem_map.mp he
  rfl

instance (env : Env) (j : JobId) (job : Job) (request : Resources Json) (w : World) :
    Decidable (Admissible env j job request w) := inferInstanceAs (Decidable (_ ∧ _))

/-- **Every admission passes between its two commits.** -/
theorem Admissible.leads {env : Env} {j : JobId} {job : Job} {request : Resources Json} {w : World}
    (hrequest : resourceRequest env.settings job = some request) (h : Admissible env j job request w)
    (p : ℕ) :
    Prog.Leads (Prog.amid (Op.alone env p)) (fun _ => True) (tryAdmit env j (some job)) []
      (recordDecision env j job request none) (executedIn env p ({}, w) [.getJob j, .clock,
        .hasActive j (job.attemptNumber + 1), .reserve j (job.attemptNumber + 1) request]) := by
  obtain ⟨hrow, hs, hcancel, hdue, hactive, ⟨db, reserved⟩, hadmission, hreserved⟩ := h
  subst hreserved
  have hprog : tryAdmit env j (some job) = checked env j job request := by
    show (found _ (resourceRequest env.settings job) >>= fun request => checked env j job request) = _
    rw [hrequest]
    rfl
  let x : Input × World := ({}, w)
  have hcheck : Prog.Leads (Prog.amid (Op.alone env p)) (fun _ => True) (recheck j job) []
      (.ret none) (executedIn env p ({}, w) [.getJob j, .clock, .hasActive j (job.attemptNumber + 1)]) := by
    apply Prog.Leads.perform x trivial rfl
    have hrow : JobsRepo.get x.2.db j ≠ none := Option.isSome_iff_ne_none.mp hrow
    rw [if_neg (by simp [hrow, hs, hcancel])]
    apply Prog.Leads.perform x trivial rfl
    rw [if_neg (not_not_intro hdue)]
    apply Prog.Leads.perform x trivial (congrArg Except.ok hactive)
    exact .refl _ _
  have hanswer : ((Op.reserve j (job.attemptNumber + 1) request).perform env p {} w).2 =
      .ok true := by
    show (w.tryWrite (admitTx env w.db j (job.attemptNumber + 1) request 0)).2 = _
    rw [hadmission]
    rfl
  have hreserve : Prog.Leads (Prog.amid (Op.alone env p)) (fun _ => True) (reserve j job request)
      (executedIn env p ({}, w) [.getJob j, .clock, .hasActive j (job.attemptNumber + 1)]) (.ret none)
      (executedIn env p ({}, w) [.getJob j, .clock, .hasActive j (job.attemptNumber + 1),
        .reserve j (job.attemptNumber + 1) request]) := by
    apply Prog.Leads.perform x trivial hanswer
    exact .refl _ _
  rw [hprog]
  exact (hcheck.bind (f := fun rejected => match rejected with
    | some reason => recordDecision env j job request (some reason)
    | none => reserve j job request >>= recordDecision env j job request)).trans hreserve.bind

/-- A due retry is dispatched through the point between its two commits. -/
theorem leads_cleared (env : Env) (x : Input × World) {due : JobId × Job} {rest : List (JobId × Job)}
    (h : JobsRepo.listRetryDue x.2.db x.1.now = due :: rest) (p : ℕ) :
    Prog.Leads (Prog.amid (Op.alone env p)) (fun _ => True) dispatchDueRetries []
      (do
        exec (.clearRetryDispatched due.1)
        dispatchAll (rest.map fun r => r.1) 1)
      (executedIn env p x [.listRetryDue, .insertEvent due.1]) := by
  apply Prog.Leads.perform x trivial (congrArg Except.ok h)
  apply Prog.Leads.perform x trivial rfl
  exact .refl _ _

/-- **Half an admission, and half a dispatched retry**: both functions are cut off between their two
commits. -/
theorem writes_torn :
    (∃ c : System Env.standard, Reaches World.fresh (session 0 (.createJob noop) 1 { uuid := 1 }) c ∧
      ∃ job q done, CutOffAmid Env.standard 1 (tryAdmit Env.standard 1 (some job)) q done ∧
        (∀ e ∈ done, e.before = c.shared) ∧ ¬ AdmittedOrNot Env.standard 1 done) ∧
    ∃ c : System Env.standard, Reaches World.fresh failedOnce c ∧
      ∃ q done, CutOffAmid Env.standard 3 dispatchDueRetries q done ∧
        (∀ e ∈ done, e.before = c.shared) ∧ ¬ DispatchedOrNot done := by
  constructor
  · obtain ⟨c, hc, job, hj, request, hrequest, h⟩ := exists_reaches World.fresh_initial
      (session 0 (.createJob noop) 1 { uuid := 1 })
      (P := fun c : System Env.standard => ∃ job ∈ c.shared.db.jobs.lookup 1,
        ∃ request ∈ resourceRequest Env.standard.settings job,
          Admissible Env.standard 1 job request c.shared) (by decide +kernel)
    have hleads := Admissible.leads hrequest h 1
    have hdue : DecisionDue (recordDecision Env.standard 1 job request none) :=
      Or.inr ⟨rfl, fun now => Or.inl rfl⟩
    refine ⟨c, hc, job, _, _, .crash hleads, fun e he => before_of_mem_executedIn he, ?_⟩
    exact fun hall => (cut_tryAdmit hleads).iff.mp hall hdue
  · obtain ⟨c, hc, hdue⟩ := exists_reaches World.fresh_initial failedOnce
      (P := fun c => JobsRepo.listRetryDue c.shared.db 2 ≠ []) (by decide +kernel)
    obtain ⟨due, rest, hlist⟩ := List.exists_cons_of_ne_nil hdue
    have hleads := leads_cleared Env.standard ({ now := 2 }, c.shared) hlist 3
    refine ⟨c, hc, _, _, .crash hleads, fun e he => before_of_mem_executedIn he, ?_⟩
    exact fun hall => (cut_dispatchDueRetries hleads).mp hall (Or.inl rfl)

/-- An admission and a dispatched retry that come to their ends. -/
theorem committed_whole :
    (∃ c : System Env.standard, Reaches World.fresh (session 0 (.createJob noop) 1 { uuid := 1 }) c ∧
      ∃ job done, CutOffAmid Env.standard 1 (tryAdmit Env.standard 1 (some job)) (.ret true) done ∧
        AdmittedOrNot Env.standard 1 done) ∧
    ∃ c : System Env.standard, Reaches World.fresh failedOnce c ∧
      ∃ done, CutOffAmid Env.standard 3 dispatchDueRetries (.ret 1) done ∧
        (∃ e ∈ done, Announces 1 e) ∧ DispatchedOrNot done := by
  constructor
  · obtain ⟨c, hc, job, hj, request, hrequest, h, hamount⟩ := exists_reaches World.fresh_initial
      (session 0 (.createJob noop) 1 { uuid := 1 })
      (P := fun c : System Env.standard => ∃ job ∈ c.shared.db.jobs.lookup 1,
        ∃ request ∈ resourceRequest Env.standard.settings job,
          Admissible Env.standard 1 job request c.shared ∧
            (ReservationsRepo.storedAmount Env.standard request).isSome) (by decide +kernel)
    have hanswer : ∀ priority, ((Op.insertDecision 1 .admitted "resources_available" request
        priority).perform Env.standard 1 {} c.shared).2 = .ok () := by
      intro priority
      rcases perform_insertDecision Env.standard 1 {} c.shared 1 .admitted "resources_available"
        request priority with ⟨hnone, _⟩ | ⟨row, _, _, _, _, heq⟩
      · rw [hnone] at hamount
        cases hamount
      · rw [heq]
    have hleads := (Admissible.leads hrequest h 1).trans
      (.perform ({}, c.shared) trivial rfl (.perform ({}, c.shared) trivial (hanswer _) (.refl _ _)))
    refine ⟨c, hc, job, _, .crash hleads, ?_⟩
    exact ((committed_whole_iff Env.standard 1 1 (some job)).1 _ _ (.crash hleads)).mpr id
  · obtain ⟨c, hc, hlength, hdue⟩ := exists_reaches World.fresh_initial failedOnce
      (P := fun c => (JobsRepo.listRetryDue c.shared.db 2).length = 1 ∧
        ∀ due ∈ JobsRepo.listRetryDue c.shared.db 2, due.1 = 1) (by decide +kernel)
    obtain ⟨due, hlist⟩ := List.length_eq_one_iff.mp hlength
    have hfirst : due.1 = 1 := hdue due (by simp [hlist])
    have hleads := (leads_cleared Env.standard ({ now := 2 }, c.shared) hlist 3).trans
      (.perform ({ now := 2 }, c.shared) trivial rfl (.refl _ _))
    refine ⟨c, hc, _, .crash hleads, ⟨announced Env.standard 3 ({ now := 2 }, c.shared) due.1,
      ?_, announces_announced.mpr hfirst.symm⟩, ?_⟩
    · simp [Prog.amid, executedIn]
    · exact ((committed_whole_iff Env.standard 3 1 none).2 _ _ (.crash hleads)).mpr id

end PosttrainPlatform
