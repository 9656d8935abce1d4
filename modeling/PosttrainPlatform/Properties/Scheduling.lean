import PosttrainPlatform.Lib.FirstFit
import PosttrainPlatform.Properties.Atomicity

/-!
# One pass of the scheduler

A pass runs alone here, with a clock that does not go back.  It ranks the candidates and takes them
in that order; what it should do with them is first fit, and a request that cannot be read takes
nothing.  The pass does so exactly as long as no statement raises: `try_admit` catches nothing but
its own rejections.
-/

namespace PosttrainPlatform

open Programs Service

/-! ### Reservations of waiting jobs -/

/-- The reservation of a waiting job's next attempt is ACTIVE, if there is one. -/
def Core.Reservable (c : Core) : Prop :=
  ∀ j job, c.jobs.lookup j = some job → job.status = .queued ∨ job.status = .pending →
    ∀ r, c.rowsOf j (job.attemptNumber + 1) = some r → r.status = .active

namespace Core.Reservable

variable {c c' : Core} {j : JobId} {job job' : Job}

theorem putJob (h : c.Reservable) (hj : job'.status = .queued ∨ job'.status = .pending →
    ∀ r, c.rowsOf j (job'.attemptNumber + 1) = some r → r.status = .active) :
    (c.putJob j job').Reservable := by
  intro i row hi
  rw [Core.lookup_putJob] at hi
  split at hi
  · rename_i hij
    subst hij
    cases hi
    exact hj
  · exact h i row hi

theorem of_eq (h : c.Reservable) (hjobs : c'.jobs = c.jobs)
    (hreservations : c'.reservations = c.reservations) : c'.Reservable := by
  unfold Core.Reservable Core.rowsOf
  rw [hjobs, hreservations]
  exact h

/-- A release of another attempt than the next one. -/
theorem released {k : ℕ} (h : c.Reservable) (hrel : c.Released j k c')
    (hj : ∀ job, c.jobs.lookup j = some job → job.status = .queued ∨ job.status = .pending →
      c.rowsOf j (job.attemptNumber + 1) = none) : c'.Reservable := by
  intro i row hi hw r hr
  rw [hrel.jobs_eq] at hi
  by_cases hij : i = j
  · subst hij
    have hsome := hrel.isSome i (row.attemptNumber + 1)
    rw [hr, hj row hi hw] at hsome
    cases hsome
  · rw [hrel.rowsOf_of_ne hij] at hr
    exact h i row hi hw r hr

end Core.Reservable

/-- The capacity after the admission of a job, when its request can be read and fits. -/
def admission (env : Env) (cap : Capacity) (job : Job) : Option Capacity :=
  (resourceRequest env.settings job).bind fun request =>
    (ReservationsRepo.storedAmount env request).bind fun _ =>
      (CapacityRepo.tryReserve env cap request).join

/-- Nothing that `try_admit` does with the request of the job raises: it can be read and stored, and
where it does not fit, the dimensions can be compared. -/
def Handled (env : Env) (cap : Capacity) (job : Job) : Prop :=
  ∃ request ∈ resourceRequest env.settings job,
    (ReservationsRepo.storedAmount env request).isSome ∧
      ∃ answer ∈ CapacityRepo.tryReserve env cap request,
        answer = none → (CapacityRepo.whichDimensionInsufficient cap request).isSome

instance (env : Env) (cap : Capacity) (job : Job) : Decidable (Handled env cap job) :=
  inferInstanceAs (Decidable (∃ request ∈ resourceRequest env.settings job, _))

/-- The turns of a pass: first fit over the ranking. -/
abbrev passTurns (env : Env) (n : ℕ) (cap : Capacity) (ranked : List (JobId × Job)) :
    List (Capacity × JobId × Job) :=
  FirstFit.turns (fun cap (r : JobId × Job) => admission env cap r.2) n cap ranked

/-- The decision that a turn should end with. -/
def turnDecision (env : Env) (turn : Capacity × JobId × Job) : JobId × DecisionKind :=
  (turn.2.1, if (admission env turn.1 turn.2.2).isSome then .admitted else .waiting)

/-- Jobs and kinds of the decisions made so far. -/
def Db.decided (db : Db) : List (JobId × DecisionKind) :=
  db.schedulingDecisions.map fun d => (d.jobId, d.decision)

/-- **A pass with `n` admissions does what it should** over a ranking: it returns, every turn ends with
its decision, and the admitted jobs have their reservations. -/
structure FairPass (env : Env) (n : ℕ) (ranked : List (JobId × Job)) (db : Db)
    (r : Except Exn (ℕ × ℕ)) (db' : Db) : Prop where
  returns : ∃ counts, r = .ok counts
  decided : db'.decided = db.decided ++ (passTurns env n db.capacity ranked).map (turnDecision env)
  reserved : ∀ turn ∈ passTurns env n db.capacity ranked,
    (admission env turn.1 turn.2.2).isSome →
      JobsRepo.HasReservation db'.reservations turn.2.1 (turn.2.2.attemptNumber + 1)

/-! ### The pass that is -/

/-- The meaning of the statements for a program that runs alone with a clock: an input brings the time
since the statement before. -/
abbrev Op.clocked (env : Env) (p : ℕ) : Prog.Meaning Op Op.Ret Exn (World × Time) Input :=
  fun op i s =>
    (((op.perform env p { i with now := s.2 + i.now } s.1).1, s.2 + i.now),
      (op.perform env p { i with now := s.2 + i.now } s.1).2)

/-- The program, run alone from a world and a time, ends. -/
abbrev EndsClocked {α : Type} (env : Env) (p : ℕ) (prog : Service α) (s : World × Time)
    (r : Except Exn α) (s' : World × Time) : Prop :=
  Prog.Ends (Op.clocked env p) (fun i => 0 ≤ i.now) prog s r s'

/-- A listed job that nobody else touches. -/
structure Candidate (s : World × Time) (j : JobId) (job : Job) : Prop where
  row : s.1.db.jobs.lookup j = some job
  queued : job.status = .queued
  unflagged : job.cancelRequested = false
  due : job.Due s.2
  present : job.Present
  free : s.1.db.reservations.lookup (j, job.attemptNumber + 1) = none

section Pass

variable {env : Env} {p : ℕ} {j : JobId} {job : Job} {s s' : World × Time}

/-- The reason that `which_dimension_insufficient` gives for a job. -/
def waitingReason (env : Env) (cap : Capacity) (job : Job) : Option String :=
  (resourceRequest env.settings job).bind fun request =>
    CapacityRepo.whichDimensionInsufficient cap request

/-- **How a turn ends**: with an exception, if the job cannot be handled, and otherwise with the
decision of first fit. -/
inductive TurnEnds (env : Env) (j : JobId) (job : Job) (db db' : Db) : Except Exn Bool → Prop
  | raised {e : Exn} (h : ¬ Handled env db.capacity job) : TurnEnds env j job db db' (.error e)
  | admitted {capacity : Capacity} {row : Reservation} {outbox : List Outbox} {d : SchedulingDecision}
      (h : Handled env db.capacity job) (htake : admission env db.capacity job = some capacity)
      (hrow : row.status = .active) (hj : d.jobId = j) (hd : d.decision = .admitted)
      (hreason : d.reason = "resources_available")
      (hdb : db' = { db with
        capacity, outbox
        reservations := db.reservations.insert (j, job.attemptNumber + 1) row
        schedulingDecisions := db.schedulingDecisions ++ [d] }) :
      TurnEnds env j job db db' (.ok true)
  | waiting {d : SchedulingDecision} (h : Handled env db.capacity job)
      (htake : admission env db.capacity job = none) (hj : d.jobId = j) (hd : d.decision = .waiting)
      (hreason : waitingReason env db.capacity job = some d.reason)
      (hdb : db' = { db with schedulingDecisions := db.schedulingDecisions ++ [d] }) :
      TurnEnds env j job db db' (.ok false)

section Request

variable {request : Resources Json} {r : Except Exn Bool}

end Request

theorem Candidate.later (h : Candidate s j job) (hworld : s'.1 = s.1) (hnow : s.2 ≤ s'.2) :
    Candidate s' j job where
  row := hworld ▸ h.row
  queued := h.queued
  unflagged := h.unflagged
  due t ht := (h.due t ht).trans hnow
  present := h.present
  free := hworld ▸ h.free

/-- The objects of a pass, and the rows that they were listed with. -/
abbrev ObjectsOf (objects : List (JobId × Option Job)) (ranked : List (JobId × Job)) : Prop :=
  List.Forall₂ (fun o r => o.1 = r.1 ∧ (o.2 = some r.2 ∨ o.2 = none)) objects ranked

theorem objectsOf_loadedOnce (ranked : List (JobId × Job)) :
    ObjectsOf (loadedOnce ranked) ranked := by
  cases ranked with
  | nil => exact .nil
  | cons c rest =>
      refine .cons ⟨rfl, Or.inl rfl⟩ ?_
      apply List.forall₂_map_left_iff.mpr
      exact List.forall₂_same.mpr fun c' _ => ⟨rfl, Or.inr rfl⟩

/-- A turn ends no reservation of other jobs. -/
theorem TurnEnds.keeps {db db' : Db} {b : Bool} (h : TurnEnds env j job db db' (.ok b)) {i : JobId}
    {k : ℕ} (hi : JobsRepo.HasReservation db.reservations i k) :
    JobsRepo.HasReservation db'.reservations i k := by
  cases h with
  | @admitted capacity row outbox d hh htake hrow hj hd hreason hdb =>
      rw [hdb]
      unfold JobsRepo.HasReservation
      rw [Table.lookup_insert_eq]
      split
      · exact ⟨row, rfl, hrow⟩
      · exact hi
  | waiting hh htake hj hd hreason hdb =>
      rw [hdb]
      exact hi

theorem TurnEnds.handled {db db' : Db} {b : Bool} (h : TurnEnds env j job db db' (.ok b)) :
    Handled env db.capacity job := by
  cases h with
  | admitted hh htake hrow hj hd hreason hdb => exact hh
  | waiting hh htake hj hd hreason hdb => exact hh

theorem TurnEnds.decided {db db' : Db} {b : Bool} (h : TurnEnds env j job db db' (.ok b)) :
    db'.decided = db.decided ++ [turnDecision env (db.capacity, j, job)] := by
  unfold Db.decided turnDecision
  cases h with
  | admitted hh htake hrow hj hd hreason hdb => simp [hdb, htake, hj, hd]
  | waiting hh htake hj hd hreason hdb => simp [hdb, htake, hj, hd]

theorem TurnEnds.reserved {db db' : Db} {b : Bool} (h : TurnEnds env j job db db' (.ok b))
    (htake : (admission env db.capacity job).isSome) :
    JobsRepo.HasReservation db'.reservations j (job.attemptNumber + 1) := by
  cases h with
  | @admitted capacity row outbox d hh htake hrow hj hd hreason hdb =>
      rw [hdb]
      exact ⟨row, AList.lookup_insert _, hrow⟩
  | waiting hh hnone hj hd hreason hdb =>
      rw [hnone] at htake
      cases htake

/-- The loop, from `n` admissions left on. -/
structure LoopEnds (env : Env) (n : ℕ) (ranked : List (JobId × Job)) (db db' : Db)
    (r : Except Exn (ℕ × ℕ)) : Prop where
  fair : (∀ turn ∈ passTurns env n db.capacity ranked, Handled env turn.1 turn.2.2) →
    FairPass env n ranked db r db'
  keeps : (∀ turn ∈ passTurns env n db.capacity ranked, Handled env turn.1 turn.2.2) →
    ∀ i k, JobsRepo.HasReservation db.reservations i k → JobsRepo.HasReservation db'.reservations i k
  raises : (∃ turn ∈ passTurns env n db.capacity ranked, ¬ Handled env turn.1 turn.2.2) →
    ∃ e, r = .error e

namespace LoopEnds

variable {n m : ℕ} {ranked : List (JobId × Job)} {db db₁ db' : Db} {r : Except Exn (ℕ × ℕ)}
  {c : JobId × Job}

/-- A turn, and the loop after it. -/
theorem cons {b : Bool} (hturns : passTurns env n db.capacity (c :: ranked) =
    (db.capacity, c) :: passTurns env m db₁.capacity ranked)
    (hturn : TurnEnds env c.1 c.2 db db₁ (.ok b)) (h : LoopEnds env m ranked db₁ db' r) :
    LoopEnds env n (c :: ranked) db db' r := by
  have hrest : (∀ turn ∈ passTurns env n db.capacity (c :: ranked), Handled env turn.1 turn.2.2) →
      ∀ turn ∈ passTurns env m db₁.capacity ranked, Handled env turn.1 turn.2.2 := by
    intro hall turn hmem
    exact hall turn (hturns ▸ List.mem_cons_of_mem _ hmem)
  have hkeeps : (∀ turn ∈ passTurns env n db.capacity (c :: ranked), Handled env turn.1 turn.2.2) →
      ∀ i k, JobsRepo.HasReservation db.reservations i k →
        JobsRepo.HasReservation db'.reservations i k :=
    fun hall i k hi => h.keeps (hrest hall) i k (hturn.keeps hi)
  refine ⟨fun hall => ?_, hkeeps, fun hsome => ?_⟩
  · obtain ⟨hreturns, hdecided, hreserved⟩ := h.fair (hrest hall)
    refine ⟨hreturns, ?_, ?_⟩
    · rw [hdecided, hturn.decided, hturns, List.map_cons, List.append_assoc]
      rfl
    · intro turn hmem htake
      rw [hturns] at hmem
      rcases List.mem_cons.mp hmem with rfl | hmem
      · exact h.keeps (hrest hall) _ _ (hturn.reserved htake)
      · exact hreserved turn hmem htake
  · obtain ⟨turn, hmem, hnot⟩ := hsome
    rw [hturns] at hmem
    rcases List.mem_cons.mp hmem with rfl | hmem
    · exact absurd hturn.handled hnot
    · exact h.raises ⟨turn, hmem, hnot⟩

end LoopEnds

/-- **The ranking of a pass** lists every candidate once. -/
theorem ends_rankCandidates {r : Except Exn (List (ℚ × JobId × Job))}
    (hend : EndsClocked env p (rankCandidates env) s r s') :
    ∃ ranked, r = .ok ranked ∧ s'.1 = s.1 ∧
      (ranked.map fun r => r.2).Perm (JobsRepo.listSchedulable s.1.db s'.2) := by
  obtain ⟨i₁, hi₁, hend⟩ := Prog.ends_answer (fun _ => rfl) hend
  obtain ⟨i₂, hi₂, hend⟩ := Prog.ends_answer (fun _ => rfl) hend
  obtain ⟨rfl, rfl⟩ := Prog.ends_ret.mp hend
  refine ⟨_, rfl, rfl, ?_⟩
  have hperm := (List.perm_insertionSort RanksBefore
    ((JobsRepo.listSchedulable s.1.db (s.2 + i₁.now + i₂.now)).map fun r =>
      (effectivePriority env.settings r.2 (s.2 + i₁.now), r))).map fun r => r.2
  rw [List.map_map] at hperm
  exact hperm.trans (List.Perm.of_eq (List.map_id _))

end Pass

/-- A pass that takes its candidates in the order of `ranked`. -/
def Pass (env : Env) (p : ℕ) (s : World × Time) (ranked : List (JobId × Job))
    (r : Except Exn (ℕ × ℕ)) (s' : World × Time) : Prop :=
  ∃ list s₁, EndsClocked env p (rankCandidates env) s (.ok list) s₁ ∧
    ranked = list.map (fun r => r.2) ∧ EndsClocked env p (admitAll env (loadedOnce ranked) 0 0) s₁ r s'

/-- Every pass has an order. -/
theorem ends_schedulerRunOnce {env : Env} {p : ℕ} {s s' : World × Time} {r : Except Exn (ℕ × ℕ)} :
    EndsClocked env p (schedulerRunOnce env) s r s' ↔ ∃ ranked, Pass env p s ranked r s' := by
  constructor
  · intro h
    rcases Prog.ends_bind h with ⟨e, _, hrank⟩ | ⟨list, s₁, hrank, hend⟩
    · obtain ⟨ranked, hr, _⟩ := ends_rankCandidates hrank
      cases hr
    · exact ⟨_, list, s₁, hrank, rfl, hend⟩
  · intro h
    obtain ⟨_, list, s₁, hrank, rfl, hend⟩ := h
    exact hrank.bind.trans hend

/-- A pass at one time, by execution. -/
abbrev passAt {α : Type} (env : Env) (p : ℕ) (prog : Service α) (s : World × Time) :
    Except Exn α × World × Time :=
  Prog.eval (Op.clocked env p) {} prog s

theorem ends_passAt {α : Type} (env : Env) (p : ℕ) (prog : Service α) (s : World × Time) :
    EndsClocked env p prog s (passAt env p prog s).1 (passAt env p prog s).2 := by
  have hnow : (0 : Time) ≤ ({} : Input).now := le_refl _
  apply Prog.ends_eval
  exact hnow

end PosttrainPlatform
