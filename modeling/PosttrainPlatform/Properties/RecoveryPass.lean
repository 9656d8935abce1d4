import PosttrainPlatform.Lib.Loops
import PosttrainPlatform.Properties.Grants
import PosttrainPlatform.Properties.PassAudit
import PosttrainPlatform.Properties.StaleLeases

/-!
# One pass of recovery

A pass of recovery runs alone here, with a clock that does not go back.  From the states that are
reached by admissions of natural numbers no release can fail, so the pass takes every job whose lease
it finds expired, sends every retry that it finds due, and leaves all other rows alone.
-/

namespace PosttrainPlatform

open Programs Service

/-! ### Releases do not fail -/

/-- The books are in order, and the counters are in the range of their columns. -/
structure Core.Releasable (c : Core) : Prop where
  solvent : c.Solvent
  ceiling : ∀ d, c.capacity.allocated d ≤ 2147483647

/-- An integer in range is stored unchanged. -/
theorem int4Column_of_mem {n : ℤ} (hlo : -2147483648 ≤ n) (hhi : n ≤ 2147483647) :
    int4Column (n : ℚ) = some n := by
  unfold int4Column
  rw [roundHalfAway_intCast]
  exact if_pos ⟨hlo, hhi⟩

namespace Core

theorem Released.allocated_le {c c' : Core} {j : JobId} {k : ℕ} (h : c.Released j k c')
    (hs : c.Solvent) : c'.capacity.allocated ≤ c.capacity.allocated := by
  obtain ⟨rfl, _⟩ | ⟨r, hr, _, rfl⟩ := h
  · exact le_refl _
  · exact sub_le_self _ (hs.positive _ r hr)

theorem Buried.capacity_eq {c c' : Core} {j : JobId} {k : ℕ} {ending : Ending}
    (h : c.Buried j k ending c') : c'.capacity = c.capacity := by
  cases ending with
  | failed message classification domain =>
      obtain ⟨_, row, _, _, rfl⟩ := h
      rfl
  | cancelled | succeeded | retry t message classification domain =>
      cases h
      rfl

theorem Releasable.released {c c' : Core} {j : JobId} {k : ℕ} (hc : c.Releasable)
    (h : c.Released j k c') : c'.Releasable where
  solvent := h.solvent hc.solvent
  ceiling d := (h.allocated_le hc.solvent d).trans (hc.ceiling d)

/-- The job table does not matter. -/
theorem Releasable.putJob {c : Core} (hc : c.Releasable) (j : JobId) (job : Job) :
    (c.putJob j job).Releasable where
  solvent := ⟨hc.solvent.balanced, hc.solvent.positive, hc.solvent.within⟩
  ceiling := hc.ceiling

end Core

theorem CoreStep.releasable {env : Env} {c c' : Core} {i : Input} {op : Op}
    (h : CoreStep env c i op c') (hc : c.Releasable) (hop : AdmitsNatural env op c) :
    c'.Releasable := by
  refine ⟨h.solvent hc.solvent hop, ?_⟩
  cases h with
  | skip | createJob | transition | setCancelRequested | updateConfig | softDelete |
    clearRetryDispatched | claim => exact hc.ceiling
  | cancel hj hfrom hp hrel => exact ((hc.putJob _ _).released hrel).ceiling
  | reclaim hj hexp hp hrel => exact ((hc.putJob _ _).released hrel).ceiling
  | finalize hj hown hp hdlq hrel =>
      have hburied : Core.Releasable _ := ⟨hdlq.solvent (hc.putJob _ _).solvent, fun d => by
        rw [hdlq.capacity_eq]
        exact hc.ceiling d⟩
      exact (hburied.released hrel).ceiling
  | reserve hres hamount hfree =>
      obtain ⟨q, _, _, hmap⟩ := CapacityRepo.tryReserve_eq_some.mp hres
      obtain ⟨allocated, hallocated, rfl⟩ := Option.map_eq_some_iff.mp hmap
      exact fun d => (int4Column_bounds (Resources.mapM_eq_some.mp hallocated d)).2

/-- **Admissions of natural numbers keep every reservation releasable.** -/
theorem releasable_of_reaches {env : Env} {s : World} {es : List (SysEvent env)} {c : System env}
    (h : Reaches s es c)
    (hreq : Runs.Always Config.step (Meets fun op _ db => AdmitsNatural env op db.core)
      ({ shared := s } : System env) es) : c.shared.db.core.Releasable := by
  refine core_invariant_of_reaches (φ := fun op _ c => AdmitsNatural env op c) ?_ ?_ h ?_ hreq
  · exact fun c c' i op _ hc hop hstep => hstep.releasable hc hop
  · exact fun c j job w k t hc _ _ => hc.putJob _ _
  · refine ⟨h.1.solvent, fun d => ?_⟩
    show s.db.capacity.allocated d ≤ 2147483647
    rw [h.1.db]
    show (0 : ℤ) ≤ 2147483647
    norm_num

/-- A release goes through. -/
theorem release_of_releasable {db : Db} (h : db.core.Releasable) (j : JobId) (k : ℕ) :
    ∃ db', ReservationsRepo.release db j k = some db' := by
  unfold ReservationsRepo.release
  cases hr : db.reservations.lookup (j, k) with
  | none => exact ⟨db, rfl⟩
  | some r =>
      by_cases hact : r.status = .active
      · have hrel : db.core.Released j k { db.core with
            reservations := db.reservations.insert (j, k) { r with status := .released }
            capacity := { db.capacity with allocated := db.capacity.allocated - r.amount } } :=
          Or.inr ⟨r, hr, hact, rfl⟩
        have hlo := (h.released hrel).solvent.allocated_nonneg
        have hhi := (h.released hrel).ceiling
        have hstored : Resources.mapM (fun n : ℤ => int4Column n)
            (db.capacity.allocated - r.amount) = some (db.capacity.allocated - r.amount) := by
          refine Resources.mapM_eq_some.mpr fun d => int4Column_of_mem ?_ (hhi d)
          exact le_trans (by norm_num) (hlo d)
        apply Option.isSome_iff_exists.mp
        simp only [hact, if_true, CapacityRepo.release, hstored]
        rfl
      · exact ⟨db, by simp only [hact, if_false]⟩

/-! ### One job -/

/-- Recovery has taken the job from its attempt: the row is the reclaimed one, the attempt is LOST, and
its reservation is ACTIVE no more. -/
structure TakenOver (env : Env) (j : JobId) (job : Job) (db : Db) : Prop where
  row : ∃ t, db.jobs.lookup j = some (job.reclaimed env.settings.maxAttempts t)
  lost : ∃ attempt ∈ db.attempts.lookup (j, job.attemptNumber), attempt.status = .lost
  released : ¬ JobsRepo.HasReservation db.reservations j job.attemptNumber

/-- What belongs to job `i` is the same in both databases. -/
structure SameJob (i : JobId) (db db' : Db) : Prop where
  row : db'.jobs.lookup i = db.jobs.lookup i
  attempts : ∀ k, db'.attempts.lookup (i, k) = db.attempts.lookup (i, k)
  reservations : ∀ k, db'.reservations.lookup (i, k) = db.reservations.lookup (i, k)

theorem SameJob.trans {i : JobId} {db db₁ db' : Db} (h : SameJob i db db₁)
    (h' : SameJob i db₁ db') : SameJob i db db' where
  row := h'.row.trans h.row
  attempts k := (h'.attempts k).trans (h.attempts k)
  reservations k := (h'.reservations k).trans (h.reservations k)

theorem TakenOver.of_same {env : Env} {j : JobId} {job : Job} {db db' : Db}
    (h : TakenOver env j job db) (hsame : SameJob j db db') : TakenOver env j job db' where
  row := by
    rw [hsame.row]
    exact h.row
  lost := by
    rw [hsame.attempts]
    exact h.lost
  released := by
    unfold JobsRepo.HasReservation
    rw [hsame.reservations]
    exact h.released

/-- The turn of a stale job: it is taken, and what belongs to other jobs stays. -/
structure TurnTakes (env : Env) (j : JobId) (job : Job) (db db' : Db) : Prop where
  taken : TakenOver env j job db'
  others : ∀ i, i ≠ j → SameJob i db db'
  outbox : db'.outbox = db.outbox
  releasable : db'.core.Releasable

/-- **The transaction takes a stale job.** -/
theorem reclaimTx_of_stale (env : Env) {db : Db} {j : JobId} {job : Job} (t : Time) {now : Time}
    (hj : db.jobs.lookup j = some job) (hrun : job.status = .running)
    (hexpired : job.LeaseExpired now) (h : db.core.Releasable) :
    ∃ db', reclaimTx env db j t now = some (db', true) ∧ TurnTakes env j job db db' := by
  have hmatch : JobsRepo.reclaimStale db j env.settings.maxAttempts t now =
      ({ db with jobs := db.jobs.insert j (job.reclaimed env.settings.maxAttempts t) }, true) := by
    unfold JobsRepo.reclaimStale JobsRepo.updateWhere
    rw [hj]
    exact if_pos ⟨hrun, hexpired⟩
  set row := job.reclaimed env.settings.maxAttempts t with hrow
  set marked := AttemptsRepo.markLost { db with jobs := db.jobs.insert j row } j job.attemptNumber now
    with hmarked
  have hcore : marked.core.Releasable := h.putJob j row
  obtain ⟨db', hrel⟩ := release_of_releasable hcore j job.attemptNumber
  have hreleased := release_core hrel
  have hframe := ReservationsRepo.release_frame hrel
  have hjobs : db'.jobs = db.jobs.insert j row := by rw [hframe]; rfl
  have hattempts : db'.attempts = marked.attempts := by rw [hframe]
  refine ⟨db', ?_, ⟨⟨⟨t, ?_⟩, ?_, ?_⟩, fun i hi => ⟨?_, fun k => ?_, fun k => ?_⟩, ?_,
    hcore.released hreleased⟩⟩
  · unfold reclaimTx
    simp only [hmatch, Table.lookup_insert_eq, if_true]
    exact Option.map_eq_some_iff.mpr ⟨db', hrel, rfl⟩
  · rw [hjobs, Table.lookup_insert_eq, if_pos rfl]
  · rw [hattempts]
    exact ⟨_, AList.lookup_insert _, rfl⟩
  · exact fun hact => ((hreleased.active_iff j job.attemptNumber).mp hact).2 rfl
  · rw [hjobs, Table.lookup_insert_eq, if_neg hi]
  · have hkey : (i, k) ≠ (j, job.attemptNumber) := fun heq => hi (congrArg Prod.fst heq)
    rw [hattempts]
    exact AList.lookup_insert_ne hkey
  · exact congrFun (hreleased.rowsOf_of_ne hi) k
  · rw [hframe]
    rfl

/-! ### The loops -/

/-- One round of `reclaim_stale_leases`. -/
def reclaimRound (o : JobId × Option Job) : Service Bool := do
  let job ← refresh o.1 o.2
  let nextRetryAt ← exec (.nextRetryAt (job.attemptNumber + 1))
  exec (.reclaim o.1 nextRetryAt)

theorem isLoop_reclaimAll :
    Prog.IsLoop reclaimAll reclaimRound fun n won => if won then n + 1 else n where
  nil _ := rfl
  cons o rest n := by
    obtain ⟨j, loaded⟩ := o
    simp only [reclaimAll, reclaimRound, Prog.bind_assoc]

/-- One round of `dispatch_due_retries`. -/
def dispatchRound (j : JobId) : Service Unit := do
  exec (.insertEvent j)
  exec (.clearRetryDispatched j)

theorem isLoop_dispatchAll : Prog.IsLoop dispatchAll dispatchRound fun n _ => n + 1 where
  nil _ := rfl
  cons j rest n := by simp only [dispatchAll, dispatchRound, Prog.bind_assoc]

theorem map_fst_loadedOnce (listed : List (JobId × Job)) :
    (loadedOnce listed).map Prod.fst = listed.map Prod.fst := by
  cases listed with
  | nil => rfl
  | cons r rest => simp [loadedOnce]

/-- An object of a pass was listed, with the row that it carries if it carries one. -/
theorem listed_of_mem_loadedOnce {listed : List (JobId × Job)} {o : JobId × Option Job}
    (h : o ∈ loadedOnce listed) :
    ∃ job, (o.1, job) ∈ listed ∧ (o.2 = some job ∨ o.2 = none) := by
  obtain ⟨n, hn, rfl⟩ := List.mem_iff_getElem.mp h
  have hobjects := objectsOf_loadedOnce listed
  have hn' : n < listed.length := hobjects.length_eq ▸ hn
  obtain ⟨hid, hrow⟩ := hobjects.get hn hn'
  exact ⟨listed[n].2, by rw [List.get_eq_getElem, List.get_eq_getElem] at hid; rw [hid]; exact List.getElem_mem hn', hrow⟩

/-- **The pass has taken the jobs `done`**, of those listed as stale. -/
structure Taken (env : Env) (stale : List (JobId × Job)) (db : Db) (done : List JobId) (db' : Db) :
    Prop where
  taken : ∀ r ∈ stale, r.1 ∈ done → TakenOver env r.1 r.2 db'
  others : ∀ j, j ∉ done → SameJob j db db'
  outbox : db'.outbox = db.outbox
  releasable : db'.core.Releasable

section Rounds

variable {env : Env} {p : ℕ} {s s' : World × Time}

/-- The row of an object that the pass has not come to. -/
theorem ends_refresh_of_row {j : JobId} {job : Job} {loaded : Option Job} {r : Except Exn Job}
    (hj : s.1.db.jobs.lookup j = some job) (hloaded : loaded = some job ∨ loaded = none)
    (hend : EndsClocked env p (refresh j loaded) s r s') :
    r = .ok job ∧ s'.1 = s.1 ∧ s.2 ≤ s'.2 := by
  rcases hloaded with rfl | rfl
  · obtain ⟨rfl, rfl⟩ := Prog.ends_ret.mp hend
    exact ⟨rfl, rfl, le_refl _⟩
  · obtain ⟨i, hi, hend⟩ := Prog.ends_answer (fun _ => congrArg Except.ok hj) hend
    obtain ⟨rfl, rfl⟩ := Prog.ends_ret.mp hend
    exact ⟨rfl, rfl, by show s.2 ≤ s.2 + i.now; linarith⟩

/-- **A round takes the job.** -/
theorem ends_reclaimRound {j : JobId} {job : Job} {loaded : Option Job} {r : Except Exn Bool}
    (hj : s.1.db.jobs.lookup j = some job) (hrun : job.status = .running)
    (hexpired : job.LeaseExpired s.2) (hloaded : loaded = some job ∨ loaded = none)
    (hbooks : s.1.db.core.Releasable)
    (hend : EndsClocked env p (reclaimRound (j, loaded)) s r s') :
    r = .ok true ∧ s.2 ≤ s'.2 ∧ TurnTakes env j job s.1.db s'.1.db := by
  rcases Prog.ends_bind hend with ⟨e, _, hend⟩ | ⟨row, s₁, hrefresh, hend⟩
  · cases (ends_refresh_of_row hj hloaded hend).1
  obtain ⟨w, now⟩ := s₁
  obtain ⟨hrow, hworld, hnow⟩ := ends_refresh_of_row hj hloaded hrefresh
  cases hrow
  obtain rfl : w = s.1 := hworld
  obtain ⟨i, hi, hend⟩ := Prog.ends_answer (fun _ => rfl) hend
  generalize ht : computeNextRetryAt env.settings (job.attemptNumber + 1) (now + i.now) i.draw = t
  have hend : EndsClocked env p (exec (.reclaim j t)) (s.1, now + i.now) r s' := ht ▸ hend
  obtain ⟨i', hi', hr, hs'⟩ := Prog.ends_perform.mp hend
  have hlate : s.2 ≤ now + i.now + i'.now := by
    have hnow : s.2 ≤ now := hnow
    linarith
  obtain ⟨lease, hlease, hlt⟩ := hexpired
  obtain ⟨db', htx, htakes⟩ := reclaimTx_of_stale env t hj hrun
    ⟨lease, hlease, hlt.trans_le hlate⟩ hbooks
  have hperform : Op.clocked env p (.reclaim j t) i' (s.1, now + i.now) =
      (({ s.1 with db := db' }, now + i.now + i'.now), .ok true) := by
    show (((s.1.tryWrite (reclaimTx env s.1.db j t (now + i.now + i'.now))).1, _),
      (s.1.tryWrite (reclaimTx env s.1.db j t (now + i.now + i'.now))).2) = _
    rw [htx]
    rfl
  rw [hperform] at hr hs'
  subst hs'
  exact ⟨hr, hlate, htakes⟩

/-- The rows that a pass has listed as stale, at a time. -/
def StaleRows (stale : List (JobId × Job)) (db : Db) (now : Time) : Prop :=
  ∀ r ∈ stale, db.jobs.lookup r.1 = some r.2 ∧ r.2.status = .running ∧ r.2.LeaseExpired now

/-- One job more. -/
theorem Taken.snoc {stale : List (JobId × Job)} {db db₁ db' : Db} {done : List JobId} {j : JobId}
    {job : Job} {now : Time} (h : Taken env stale db done db₁) (hrows : StaleRows stale db now)
    (hj : (j, job) ∈ stale) (hnot : j ∉ done) (hturn : TurnTakes env j job db₁ db') :
    Taken env stale db (done ++ [j]) db' where
  taken r hr hmem := by
    rcases List.mem_append.mp hmem with hmem | hmem
    · have hne : r.1 ≠ j := fun heq => hnot (heq ▸ hmem)
      exact (h.taken r hr hmem).of_same (hturn.others r.1 hne)
    · have heq : r.1 = j := List.mem_singleton.mp hmem
      have hrow : some r.2 = some job := by
        rw [← (hrows r hr).1, ← (hrows (j, job) hj).1, heq]
      rw [heq, Option.some.inj hrow]
      exact hturn.taken
  others i hi := by
    rw [List.mem_append, List.mem_singleton, not_or] at hi
    exact (h.others i hi.1).trans (hturn.others i hi.2)
  outbox := hturn.outbox.trans h.outbox
  releasable := hturn.releasable

/-- **The first loop takes every job that it has listed.** -/
theorem ends_reclaimAll {stale : List (JobId × Job)} {now : Time} {r : Except Exn ℕ}
    (hnodup : (stale.map Prod.fst).Nodup) (hrows : StaleRows stale s.1.db now) (hnow : now ≤ s.2)
    (hbooks : s.1.db.core.Releasable)
    (hend : EndsClocked env p (reclaimAll (loadedOnce stale) 0) s r s') :
    r = .ok stale.length ∧ s.2 ≤ s'.2 ∧
      Taken env stale s.1.db (stale.map Prod.fst) s'.1.db := by
  have hlength : (loadedOnce stale).length = stale.length := by
    rw [← List.length_map Prod.fst, map_fst_loadedOnce, List.length_map]
  rw [← hlength, ← map_fst_loadedOnce stale]
  refine isLoop_reclaimAll.ends_count (fun _ => true)
    (P := fun done st => s.2 ≤ st.2 ∧ Taken env stale s.1.db (done.map Prod.fst) st.1.db)
    (fun _ _ => rfl) ?_ ⟨le_refl _, ?_⟩ hend
  · rintro done ⟨j, loaded⟩ rest st r st' hsplit ⟨hlate, htaken⟩ hturn
    obtain ⟨job, hlisted, hloaded⟩ := listed_of_mem_loadedOnce
      (hsplit ▸ List.mem_append_right done (List.mem_cons_self : (j, loaded) ∈ (j, loaded) :: rest))
    have hnot : j ∉ done.map Prod.fst := by
      have hids := map_fst_loadedOnce stale ▸ hnodup
      rw [hsplit, List.map_append, List.map_cons] at hids
      intro hmem
      exact (List.nodup_append.mp hids).2.2 j hmem j List.mem_cons_self rfl
    obtain ⟨hrow, hrun, lease, hlease, hlt⟩ := hrows _ hlisted
    obtain ⟨hr, hlate', htakes⟩ := ends_reclaimRound ((htaken.others j hnot).row.trans hrow) hrun
      ⟨lease, hlease, hlt.trans_le (hnow.trans hlate)⟩ hloaded htaken.releasable hturn
    rw [List.map_append]
    exact ⟨hr, hlate.trans hlate', htaken.snoc hrows hlisted hnot htakes⟩
  · exact ⟨fun _ _ h => absurd h List.not_mem_nil, fun _ _ => ⟨rfl, fun _ => rfl, fun _ => rfl⟩,
      rfl, hbooks⟩

/-- **The pass has sent the retries `done`**: an unpublished event for each, and no retry time. -/
structure Dispatched (db : Db) (done : List JobId) (db' : Db) : Prop where
  events : ∃ events : List Outbox, db'.outbox = db.outbox ++ events ∧
    events.map (fun e => e.jobId) = done ∧ ∀ e ∈ events, e.publishedAt = none
  cleared : ∀ j ∈ done, db'.jobs.lookup j =
    (db.jobs.lookup j).map fun job => { job with nextRetryAt := none }
  others : ∀ j, j ∉ done → db'.jobs.lookup j = db.jobs.lookup j
  rest : db' = { db with jobs := db'.jobs, outbox := db'.outbox }

theorem lookup_clearRetryTx (db : Db) (j i : JobId) : (clearRetryTx db j).jobs.lookup i =
    if i = j then (db.jobs.lookup j).map fun job => { job with nextRetryAt := none }
    else db.jobs.lookup i := by
  cases hj : db.jobs.lookup j with
  | none =>
      have hsame : (clearRetryTx db j).jobs = db.jobs := by
        unfold clearRetryTx JobsRepo.clearRetryDispatched JobsRepo.updateWhere
        rw [hj]
      rw [hsame]
      by_cases hij : i = j
      · rw [if_pos hij, hij, hj]
        rfl
      · rw [if_neg hij]
  | some job =>
      have hput : (clearRetryTx db j).jobs = db.jobs.insert j { job with nextRetryAt := none } := by
        unfold clearRetryTx JobsRepo.clearRetryDispatched JobsRepo.updateWhere
        rw [hj]
        rfl
      rw [hput]
      exact Table.lookup_insert_eq _ _ _ _

/-- One retry more. -/
theorem Dispatched.snoc {db db₁ : Db} {done : List JobId} {j : JobId} (h : Dispatched db done db₁)
    (hnot : j ∉ done) (now : Time) :
    Dispatched db (done ++ [j]) (clearRetryTx (OutboxRepo.insertEvent db₁ j now) j) where
  events := by
    obtain ⟨events, hevents, hjobs, hnew⟩ := h.events
    refine ⟨events ++ [{ jobId := j, createdAt := now }], ?_, by simp [hjobs], ?_⟩
    · have houtbox : (clearRetryTx (OutboxRepo.insertEvent db₁ j now) j).outbox =
          db₁.outbox ++ [{ jobId := j, createdAt := now }] := by
        unfold clearRetryTx JobsRepo.clearRetryDispatched
        rw [JobsRepo.updateWhere_frame]
        rfl
      rw [houtbox, hevents, List.append_assoc]
    · intro e he
      rcases List.mem_append.mp he with he | he
      · exact hnew e he
      · rw [List.mem_singleton.mp he]
  cleared i hi := by
    rw [lookup_clearRetryTx]
    rcases List.mem_append.mp hi with hi | hi
    · have hne : i ≠ j := fun heq => hnot (heq ▸ hi)
      rw [if_neg hne]
      exact h.cleared i hi
    · obtain rfl := List.mem_singleton.mp hi
      have hrow : (OutboxRepo.insertEvent db₁ i now).jobs.lookup i = db.jobs.lookup i :=
        h.others i hnot
      rw [if_pos rfl, hrow]
  others i hi := by
    rw [List.mem_append, List.mem_singleton, not_or] at hi
    rw [lookup_clearRetryTx, if_neg hi.2]
    exact h.others i hi.1
  rest := by
    unfold clearRetryTx JobsRepo.clearRetryDispatched
    rw [JobsRepo.updateWhere_frame, h.rest]
    rfl

/-- **The second loop sends every retry that it has listed.** -/
theorem ends_dispatchAll {due : List JobId} {r : Except Exn ℕ} (hnodup : due.Nodup)
    (hend : EndsClocked env p (dispatchAll due 0) s r s') :
    r = .ok due.length ∧ s.2 ≤ s'.2 ∧ Dispatched s.1.db due s'.1.db := by
  refine isLoop_dispatchAll.ends_count (fun _ => ())
    (P := fun done st => s.2 ≤ st.2 ∧ Dispatched s.1.db done st.1.db)
    (fun _ _ => rfl) ?_ ⟨le_refl _, ?_⟩ hend
  · rintro done j rest st r st' hsplit ⟨hlate, hsent⟩ hturn
    have hnot : j ∉ done := by
      rw [hsplit] at hnodup
      intro hmem
      exact (List.nodup_append.mp hnodup).2.2 j hmem j List.mem_cons_self rfl
    obtain ⟨i, hi, hturn⟩ := Prog.ends_answer (fun _ => rfl) hturn
    obtain ⟨i', hi', rfl, rfl⟩ := Prog.ends_perform.mp hturn
    refine ⟨rfl, ?_, hsent.snoc hnot (st.2 + i.now)⟩
    show s.2 ≤ st.2 + i.now + i'.now
    linarith
  · exact ⟨⟨[], by simp, rfl, by simp⟩, fun _ h => absurd h List.not_mem_nil, fun _ _ => rfl, rfl⟩

end Rounds

/-! ### The whole pass -/

/-- **What a pass does**: by `db₁` it has taken the leases that it found expired at `t₁`, and by `db'`
it has sent the retries that it found due at `t₂`; none of either is left. -/
structure Recovered (env : Env) (db : Db) (t₁ : Time) (db₁ : Db) (t₂ : Time) (db' : Db)
    (r : Except Exn (ℕ × ℕ)) : Prop where
  returns : r = .ok ((JobsRepo.listStaleLeases db t₁).length, (JobsRepo.listRetryDue db₁ t₂).length)
  taken : Taken env (JobsRepo.listStaleLeases db t₁) db
    ((JobsRepo.listStaleLeases db t₁).map Prod.fst) db₁
  dispatched : Dispatched db₁ ((JobsRepo.listRetryDue db₁ t₂).map Prod.fst) db'
  noneStale : JobsRepo.listStaleLeases db' t₁ = []
  noneDue : JobsRepo.listRetryDue db' t₂ = []

section Lists

variable {env : Env} {db db₁ db' : Db} {now : Time} {j : JobId} {job : Job}

theorem mem_listStaleLeases : (j, job) ∈ JobsRepo.listStaleLeases db now ↔
    db.jobs.lookup j = some job ∧ job.status = .running ∧ job.LeaseExpired now ∧ job.Present := by
  unfold JobsRepo.listStaleLeases
  rw [List.mem_filter, Table.mem_rows, decide_eq_true_eq]

theorem mem_listRetryDue : (j, job) ∈ JobsRepo.listRetryDue db now ↔
    db.jobs.lookup j = some job ∧ job.status = .queued ∧ job.nextRetryAt ≠ none ∧ job.Due now ∧
      job.Present := by
  unfold JobsRepo.listRetryDue
  rw [List.mem_filter, Table.mem_rows, decide_eq_true_eq]

/-- A row after the second loop: it has lost its retry time, or is as it was. -/
theorem Dispatched.row {due : List JobId} (h : Dispatched db due db')
    (hj : db'.jobs.lookup j = some job) : ∃ job₁, db.jobs.lookup j = some job₁ ∧
      (job = { job₁ with nextRetryAt := none } ∨ (j ∉ due ∧ job = job₁)) := by
  by_cases hmem : j ∈ due
  · rw [h.cleared j hmem] at hj
    obtain ⟨job₁, hj₁, rfl⟩ := Option.map_eq_some_iff.mp hj
    exact ⟨job₁, hj₁, Or.inl rfl⟩
  · exact ⟨job, (h.others j hmem).symm.trans hj, Or.inr ⟨hmem, rfl⟩⟩

/-- No retry that is due is left. -/
theorem Dispatched.listRetryDue_eq_nil
    (h : Dispatched db ((JobsRepo.listRetryDue db now).map Prod.fst) db') :
    JobsRepo.listRetryDue db' now = [] := by
  refine List.eq_nil_iff_forall_not_mem.mpr ?_
  rintro ⟨j, job⟩ hmem
  obtain ⟨hj, hqueued, hretry, hdue, hpresent⟩ := mem_listRetryDue.mp hmem
  obtain ⟨job₁, hj₁, rfl | ⟨hnot, rfl⟩⟩ := h.row hj
  · exact hretry rfl
  · exact hnot (List.mem_map_of_mem (mem_listRetryDue.mpr ⟨hj₁, hqueued, hretry, hdue, hpresent⟩))

/-- No lease that had expired is left. -/
theorem Taken.listStaleLeases_eq_nil {due : List JobId}
    (h : Taken env (JobsRepo.listStaleLeases db now) db
      ((JobsRepo.listStaleLeases db now).map Prod.fst) db₁) (hsent : Dispatched db₁ due db') :
    JobsRepo.listStaleLeases db' now = [] := by
  refine List.eq_nil_iff_forall_not_mem.mpr ?_
  rintro ⟨j, job⟩ hmem
  obtain ⟨hj, hrun, hexpired, hpresent⟩ := mem_listStaleLeases.mp hmem
  obtain ⟨job₁, hj₁, hjob⟩ := hsent.row hj
  have hstale : job₁.status = .running ∧ job₁.LeaseExpired now ∧ job₁.Present := by
    rcases hjob with rfl | ⟨_, rfl⟩
    · exact ⟨hrun, hexpired, hpresent⟩
    · exact ⟨hrun, hexpired, hpresent⟩
  by_cases hlisted : j ∈ (JobsRepo.listStaleLeases db now).map Prod.fst
  · obtain ⟨r, hr, rfl⟩ := List.mem_map.mp hlisted
    obtain ⟨t, hrow⟩ := (h.taken r hr hlisted).row
    cases hj₁.symm.trans hrow
    exact r.2.reclaimed_not_running _ t hstale.1
  · have hrow := (h.others j hlisted).row.symm.trans hj₁
    exact hlisted (List.mem_map_of_mem (mem_listStaleLeases.mpr ⟨hrow, hstale⟩))

end Lists

section Halves

variable {env : Env} {p : ℕ} {s s' : World × Time} {r : Except Exn ℕ}

theorem nodup_filtered (db : Db) (q : JobId × Job → Bool) :
    ((db.jobs.rows.filter q).map Prod.fst).Nodup :=
  (Table.nodup_rows db.jobs).sublist (List.filter_sublist.map _)

theorem ends_reclaimStaleLeases (hbooks : s.1.db.core.Releasable)
    (hend : EndsClocked env p reclaimStaleLeases s r s') : ∃ now, s.2 ≤ now ∧ now ≤ s'.2 ∧
      r = .ok (JobsRepo.listStaleLeases s.1.db now).length ∧
      Taken env (JobsRepo.listStaleLeases s.1.db now) s.1.db
        ((JobsRepo.listStaleLeases s.1.db now).map Prod.fst) s'.1.db := by
  obtain ⟨i, hi, hend⟩ := Prog.ends_answer (fun _ => rfl) hend
  have hrows : StaleRows (JobsRepo.listStaleLeases s.1.db (s.2 + i.now)) s.1.db (s.2 + i.now) := by
    rintro ⟨j, job⟩ hmem
    obtain ⟨hj, hrun, hexpired, _⟩ := mem_listStaleLeases.mp hmem
    exact ⟨hj, hrun, hexpired⟩
  obtain ⟨hr, hlate, htaken⟩ := ends_reclaimAll (s := (s.1, s.2 + i.now)) (nodup_filtered _ _) hrows
    (le_refl _) hbooks hend
  exact ⟨s.2 + i.now, by linarith, hlate, hr, htaken⟩

theorem ends_dispatchDueRetries (hend : EndsClocked env p dispatchDueRetries s r s') :
    ∃ now, s.2 ≤ now ∧ now ≤ s'.2 ∧ r = .ok (JobsRepo.listRetryDue s.1.db now).length ∧
      Dispatched s.1.db ((JobsRepo.listRetryDue s.1.db now).map Prod.fst) s'.1.db := by
  obtain ⟨i, hi, hend⟩ := Prog.ends_answer (fun _ => rfl) hend
  obtain ⟨hr, hlate, hsent⟩ := ends_dispatchAll (s := (s.1, s.2 + i.now)) (nodup_filtered _ _) hend
  rw [List.length_map] at hr
  exact ⟨s.2 + i.now, by linarith, hlate, hr, hsent⟩

end Halves

/-- **A pass of recovery settles what it finds.** From every state that admissions of natural numbers
lead to, a pass that runs alone returns: each job whose lease it finds expired is taken from its
attempt, with the attempt LOST and the reservation released, each retry that it finds due is sent, no
other row changes, and the two counts are the numbers of jobs. -/
theorem recovery_pass_settles {env : Env} {s : World} {es : List (SysEvent env)} {c : System env}
    (h : Reaches s es c)
    (hreq : Runs.Always Config.step (Meets fun op _ db => AdmitsNatural env op db.core)
      ({ shared := s } : System env) es) {p : ℕ} {t : Time} {r : Except Exn (ℕ × ℕ)}
    {s' : World × Time} (hend : EndsClocked env p recoveryRunOnce (c.shared, t) r s') :
    ∃ (t₁ t₂ : Time) (db₁ : Db), t ≤ t₁ ∧ t₁ ≤ t₂ ∧ t₂ ≤ s'.2 ∧
      Recovered env c.shared.db t₁ db₁ t₂ s'.1.db r := by
  have hbooks : (c.shared, t).1.db.core.Releasable := releasable_of_reaches h hreq
  rcases Prog.ends_bind hend with ⟨e, _, hend⟩ | ⟨n, s₁, hfirst, hend⟩
  · obtain ⟨_, _, _, hr, _⟩ := ends_reclaimStaleLeases hbooks hend
    cases hr
  obtain ⟨t₁, ht₁, hlate, hn, htaken⟩ := ends_reclaimStaleLeases hbooks hfirst
  rcases Prog.ends_bind hend with ⟨e, _, hend⟩ | ⟨m, s₂, hsecond, hend⟩
  · obtain ⟨_, _, _, hr, _⟩ := ends_dispatchDueRetries hend
    cases hr
  obtain ⟨t₂, ht₂, hlast, hm, hsent⟩ := ends_dispatchDueRetries hsecond
  obtain ⟨rfl, rfl⟩ := Prog.ends_ret.mp hend
  cases hn
  cases hm
  exact ⟨t₁, t₂, s₁.1.db, ht₁, hlate.trans ht₂, hlast, rfl, htaken, hsent,
    htaken.listStaleLeases_eq_nil hsent, hsent.listRetryDue_eq_nil⟩

/-- Worker 7 runs job 1, renews its lease once, and is heard of no more. -/
def silentWorker : List (SysEvent Env.standard) :=
  admitJob noop ++ session 2 (.processJobMessage 1 7) 4 {} ++ [.ambient (2, 25), .crash 2]

/-- The pass at time 56 takes the job. -/
theorem silentWorker_settled : ∃ (c : System Env.standard) (r : Except Exn (ℕ × ℕ))
    (s' : World × Time), Reaches World.fresh silentWorker c ∧
      (JobsRepo.listStaleLeases c.shared.db 56).map Prod.fst = [1] ∧
      EndsClocked Env.standard 3 recoveryRunOnce (c.shared, 56) r s' ∧
      ∃ (t₁ t₂ : Time) (db₁ : Db), 56 ≤ t₁ ∧ t₁ ≤ t₂ ∧ t₂ ≤ s'.2 ∧
        Recovered Env.standard c.shared.db t₁ db₁ t₂ s'.1.db r := by
  obtain ⟨c, hreach, hstale⟩ := exists_reaches World.fresh_initial silentWorker
    (P := fun c => (JobsRepo.listStaleLeases c.shared.db 56).map Prod.fst = [1]) (by decide +kernel)
  have hend := ends_passAt Env.standard 3 recoveryRunOnce (c.shared, 56)
  have hnatural : Runs.Always Config.step (Meets fun op _ _ => NaturalRequest op)
      ({ shared := World.fresh } : System Env.standard) silentWorker := by decide +kernel
  exact ⟨c, _, _, hreach, hstale, hend, recovery_pass_settles hreach
    (Config.always_atStep_mono (fun op _ s hop => hop.admits s.db.core) hnatural) hend⟩

end PosttrainPlatform
