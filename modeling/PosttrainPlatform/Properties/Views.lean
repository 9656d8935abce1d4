import PosttrainPlatform.Properties.Conservation

/-!
# What can happen to one job

A job's view is its row, its reservations and its dead letter.  `JobStep` lists what a statement can
do to the view of job `j`, with the arguments of the statement; `each_job_of_reaches` turns a property
that these steps keep into a property of every job in every run.
-/

namespace PosttrainPlatform

open Programs

/-- A job with its reservations and its dead letter. -/
structure JobView where
  job : Job
  rows : ReservationRows
  letter : Option DLQEntry

def Core.view (c : Core) (j : JobId) : Option JobView :=
  (c.jobs.lookup j).map fun job => { job, rows := c.rowsOf j, letter := c.dlq.lookup j }

/-- The dead letter after an ending of attempt `k`. -/
def LetterAfter (letter : Option DLQEntry) (k : ℕ) : Ending → Option DLQEntry → Prop
  | .failed .., letter' => letter = none ∧ ∃ row : DLQEntry, row.lastAttemptNumber = k ∧
      row.totalAttempts = k ∧ letter' = some row
  | _, letter' => letter' = letter

/-- Exactly the reservation of attempt `k` is no longer ACTIVE. -/
def ReservationRows.Without (rows : ReservationRows) (k : ℕ) (rows' : ReservationRows) : Prop :=
  ∀ m, rows'.ActiveAt m ↔ rows.ActiveAt m ∧ m ≠ k

/-- **What a statement can do to the view of job `j`.** -/
inductive JobStep (env : Env) (c : Core) (i : Input) (j : JobId) : Op → JobView → JobView → Prop
  | skip (op : Op) (v : JobView) : JobStep env c i j op v v
  | transition {v : JobView} {toStatus : String} {status : JobStatus}
      (hto : JobStatus.parse toStatus = some status) (hfrom : v.job.status ∈ sourcesFor toStatus)
      (hp : v.job.Present) :
      JobStep env c i j (.transition j toStatus) v { v with job := { v.job with status } }
  | cancel {v : JobView} {k : ℕ} {rows' : ReservationRows}
      (hfrom : v.job.status ∈ sourcesFor JobStatus.cancelled.value) (hp : v.job.Present)
      (hrows : v.rows.Without (k + 1) rows') :
      JobStep env c i j (.cancel j k) v
        { v with job := { v.job with status := .cancelled }, rows := rows' }
  | setCancelRequested {v : JobView} (hs : v.job.status = .running) (hp : v.job.Present) :
      JobStep env c i j (.setCancelRequested j) v
        { v with job := { v.job with cancelRequested := true } }
  | updateConfig (v : JobView) (config : Dict) :
      JobStep env c i j (.updateConfig j config) v
        { v with job := { v.job with config := some config } }
  | softDelete (v : JobView) :
      JobStep env c i j (.softDelete j) v { v with job := { v.job with deletedAt := some i.now } }
  | clearRetryDispatched (v : JobView) :
      JobStep env c i j (.clearRetryDispatched j) v
        { v with job := { v.job with nextRetryAt := none } }
  | claim {v : JobView} {w : WorkerId} {lease : Time} (hs : v.job.status = .queued)
      (hc : v.job.cancelRequested = false) (hdue : v.job.Due i.now) (hp : v.job.Present)
      (hact : v.rows.ActiveAt (v.job.attemptNumber + 1)) :
      JobStep env c i j (.claim j w) v { v with job := v.job.claimed w i.now lease }
  | finalize {v : JobView} {w : WorkerId} {k : ℕ} {ending : Ending} {rows' : ReservationRows}
      {letter' : Option DLQEntry} (hown : v.job.OwnedBy w k) (hp : v.job.Present)
      (hletter : LetterAfter v.letter k ending letter') (hrows : v.rows.Without k rows') :
      JobStep env c i j (.finalize j w k ending) v
        { job := v.job.finalized ending, rows := rows', letter := letter' }
  | reclaim {v : JobView} {t : Time} {rows' : ReservationRows} (hs : v.job.status = .running)
      (hexp : v.job.LeaseExpired i.now) (hrows : v.rows.Without v.job.attemptNumber rows') :
      JobStep env c i j (.reclaim j t) v
        { v with job := v.job.reclaimed env.settings.maxAttempts t, rows := rows' }
  | reserve {v : JobView} {k : ℕ} {request : Resources Json} {q : Resources ℚ} (r : Reservation)
      (hadm : c.Admits env j k request q) :
      JobStep env c i j (.reserve j k request) v { v with rows := Function.update v.rows k (some r) }

/-! ### Views and single writes -/

namespace Core

theorem view_eq_some {c : Core} {j : JobId} {v : JobView} : c.view j = some v ↔
    c.jobs.lookup j = some v.job ∧ c.rowsOf j = v.rows ∧ c.dlq.lookup j = v.letter := by
  unfold view
  rw [Option.map_eq_some_iff]
  constructor
  · rintro ⟨job, hj, rfl⟩
    exact ⟨hj, rfl, rfl⟩
  · rintro ⟨hj, hrows, hletter⟩
    refine ⟨v.job, hj, ?_⟩
    rw [hrows, hletter]

theorem view_congr {c c' : Core} {j : JobId} (hjobs : c'.jobs.lookup j = c.jobs.lookup j)
    (hrows : c'.rowsOf j = c.rowsOf j) (hdlq : c'.dlq.lookup j = c.dlq.lookup j) :
    c'.view j = c.view j := by
  unfold view
  rw [hjobs, hrows, hdlq]

theorem view_of_lookup {c : Core} {j : JobId} {job : Job} (hj : c.jobs.lookup j = some job) :
    c.view j = some { job, rows := c.rowsOf j, letter := c.dlq.lookup j } :=
  view_eq_some.mpr ⟨hj, rfl, rfl⟩

theorem view_putJob_self (c : Core) (j : JobId) (job : Job) :
    (c.putJob j job).view j = some { job, rows := c.rowsOf j, letter := c.dlq.lookup j } :=
  view_of_lookup (by rw [lookup_putJob, if_pos rfl])

theorem view_putJob_of_ne (c : Core) {j i : JobId} (job : Job) (hij : i ≠ j) :
    (c.putJob j job).view i = c.view i :=
  view_congr (by rw [lookup_putJob, if_neg hij]) rfl rfl

theorem Released.dlq_eq {c c' : Core} {j : JobId} {k : ℕ} (h : c.Released j k c') :
    c'.dlq = c.dlq := by
  obtain ⟨rfl, _⟩ | ⟨r, _, _, rfl⟩ := h
  · rfl
  · rfl

/-- A release in the views: other jobs keep theirs, this one loses an ACTIVE reservation. -/
theorem Released.view {c c' : Core} {j : JobId} {k : ℕ} (h : c.Released j k c') :
    (∀ i, i ≠ j → c'.view i = c.view i) ∧ ∀ v, c.view j = some v →
      ∃ rows', v.rows.Without k rows' ∧ c'.view j = some { v with rows := rows' } := by
  refine ⟨fun i hij => view_congr ?_ (h.rowsOf_of_ne hij) ?_, fun v hv => ⟨c'.rowsOf j, ?_, ?_⟩⟩
  · rw [h.jobs_eq]
  · rw [h.dlq_eq]
  · intro m
    rw [← (view_eq_some.mp hv).2.1]
    refine (h.active_iff j m).trans (and_congr Iff.rfl ?_)
    simp
  · obtain ⟨hj, _, hletter⟩ := view_eq_some.mp hv
    exact view_eq_some.mpr ⟨by rw [h.jobs_eq, hj], rfl, by rw [h.dlq_eq, hletter]⟩

theorem Buried.lookup_of_ne {c c' : Core} {j i : JobId} {k : ℕ} {ending : Ending}
    (h : c.Buried j k ending c') (hij : i ≠ j) : c'.dlq.lookup i = c.dlq.lookup i := by
  cases ending with
  | failed message classification domain =>
      obtain ⟨_, row, _, _, rfl⟩ := h
      exact AList.lookup_insert_ne hij
  | cancelled | succeeded | retry t message classification domain =>
      cases h
      rfl

/-- A dead letter in the views. -/
theorem Buried.view {c c' : Core} {j : JobId} {k : ℕ} {ending : Ending}
    (h : c.Buried j k ending c') :
    (∀ i, i ≠ j → c'.view i = c.view i) ∧ ∀ v, c.view j = some v →
      ∃ letter', LetterAfter v.letter k ending letter' ∧
        c'.view j = some { v with letter := letter' } := by
  cases ending with
  | failed message classification domain =>
      obtain ⟨hnone, row, hlast, htotal, rfl⟩ := h
      refine ⟨fun i hij => view_congr rfl rfl ?_, fun v hv => ⟨some row, ⟨?_, row, ?_⟩, ?_⟩⟩
      · exact AList.lookup_insert_ne hij
      · rw [← (view_eq_some.mp hv).2.2]
        exact hnone
      · exact ⟨hlast, htotal, rfl⟩
      · obtain ⟨hj, hrows, _⟩ := view_eq_some.mp hv
        exact view_eq_some.mpr ⟨hj, hrows, AList.lookup_insert _⟩
  | cancelled | succeeded | retry t message classification domain =>
      cases h
      exact ⟨fun _ _ => rfl, fun v hv => ⟨v.letter, rfl, hv⟩⟩

theorem view_reserve {c : Core} (capacity : Capacity) (j i : JobId) (k : ℕ) (r : Reservation) :
    view { c with capacity, reservations := c.reservations.insert (j, k) r } i =
      if i = j then
        (c.view j).map fun v => { v with rows := Function.update v.rows k (some r) }
      else c.view i := by
  by_cases hij : i = j
  · subst hij
    rw [if_pos rfl]
    unfold view
    rw [Option.map_map]
    refine congrArg (fun f => Option.map f (c.jobs.lookup i)) (funext fun job => ?_)
    refine congrArg (fun rows => JobView.mk job rows (c.dlq.lookup i)) (funext fun m => ?_)
    simp only [rowsOf, Table.lookup_insert_eq, Function.update_apply, Prod.mk.injEq, true_and]
  · rw [if_neg hij]
    refine view_congr rfl (funext fun m => ?_) rfl
    have hkey : (i, m) ≠ (j, k) := fun he => hij (congrArg Prod.fst he)
    simp only [rowsOf, Table.lookup_insert_eq, if_neg hkey]

end Core

/-! ### Statements in the views -/

/-- How the views of two cores compare: every view moves by a job step, and a new one is that of a
new job. -/
structure ViewsStep (env : Env) (i : Input) (op : Op) (c c' : Core) : Prop where
  moves : ∀ j v v', c.view j = some v → c'.view j = some v' → JobStep env c i j op v v'
  new : ∀ j v', c.view j = none → c'.view j = some v' →
    v'.job.New ∧ v'.rows = c.rowsOf j ∧ v'.letter = c.dlq.lookup j

namespace ViewsStep

variable {env : Env} {c c' : Core} {i : Input} {op : Op} {j : JobId} {v v' : JobView}

/-- Only the view of `j` changes. -/
theorem of_local (hothers : ∀ m, m ≠ j → c'.view m = c.view m) (hv : c.view j = some v)
    (hv' : c'.view j = some v') (hstep : JobStep env c i j op v v') : ViewsStep env i op c c' where
  moves m u u' hu hu' := by
    by_cases hm : m = j
    · subst hm
      rw [hv] at hu
      rw [hv'] at hu'
      cases hu
      cases hu'
      exact hstep
    · rw [hothers m hm, hu] at hu'
      cases hu'
      exact .skip _ _
  new m u' hu hu' := by
    by_cases hm : m = j
    · subst hm
      rw [hv] at hu
      cases hu
    · rw [hothers m hm, hu] at hu'
      cases hu'

theorem refl (c : Core) : ViewsStep env i op c c where
  moves m u u' hu hu' := by
    rw [hu] at hu'
    cases hu'
    exact .skip _ _
  new m u' hu hu' := by
    rw [hu] at hu'
    cases hu'

/-- Only the row of `j` changes. -/
theorem putJob {job job' : Job} (hj : c.jobs.lookup j = some job)
    (hstep : ∀ rows letter, c.rowsOf j = rows → JobStep env c i j op { job, rows, letter }
      { job := job', rows, letter }) : ViewsStep env i op c (c.putJob j job') :=
  of_local (fun _ hm => Core.view_putJob_of_ne c job' hm) (Core.view_of_lookup hj)
    (Core.view_putJob_self c j job') (hstep _ _ rfl)

/-- The row of `j` changes and a reservation is released. -/
theorem putJob_released {k : ℕ} {job job' : Job} (hj : c.jobs.lookup j = some job)
    (hrel : (c.putJob j job').Released j k c')
    (hstep : ∀ rows rows' letter, ReservationRows.Without rows k rows' →
      JobStep env c i j op { job, rows, letter } { job := job', rows := rows', letter }) :
    ViewsStep env i op c c' := by
  obtain ⟨rows', hrows, hself⟩ := hrel.view.2 _ (Core.view_putJob_self c j job')
  refine of_local (fun m hm => ?_) (Core.view_of_lookup hj) hself (hstep _ _ _ hrows)
  rw [hrel.view.1 m hm, Core.view_putJob_of_ne c job' hm]

/-- A new job. -/
theorem create {job : Job} (hj : c.jobs.lookup j = none) (hnew : job.New) :
    ViewsStep env i op c (c.putJob j job) where
  moves m u u' hu hu' := by
    have hm : m ≠ j := by
      rintro rfl
      rw [(Core.view_eq_some.mp hu).1] at hj
      cases hj
    rw [Core.view_putJob_of_ne c job hm, hu] at hu'
    cases hu'
    exact .skip _ _
  new m u' hu hu' := by
    by_cases hm : m = j
    · subst hm
      rw [Core.view_putJob_self] at hu'
      cases hu'
      exact ⟨hnew, rfl, rfl⟩
    · rw [Core.view_putJob_of_ne c job hm, hu] at hu'
      cases hu'

/-- A new reservation of `j`. -/
theorem reserve {k : ℕ} {capacity : Capacity} {r : Reservation}
    (hstep : ∀ v : JobView, JobStep env c i j op v
      { v with rows := Function.update v.rows k (some r) }) :
    ViewsStep env i op c
      { c with capacity, reservations := c.reservations.insert (j, k) r } where
  moves m u u' hu hu' := by
    rw [Core.view_reserve] at hu'
    split at hu'
    · rename_i hm
      subst hm
      rw [hu] at hu'
      cases hu'
      exact hstep u
    · rw [hu] at hu'
      cases hu'
      exact .skip _ _
  new m u' hu hu' := by
    rw [Core.view_reserve] at hu'
    split at hu'
    · rename_i hm
      rw [← hm, hu] at hu'
      cases hu'
    · rw [hu] at hu'
      cases hu'

end ViewsStep

/-- **The statements move every view by job steps.** -/
theorem CoreStep.views {env : Env} {c c' : Core} {i : Input} {op : Op}
    (h : CoreStep env c i op c') : ViewsStep env i op c c' := by
  cases h with
  | skip => exact .refl _
  | createJob hj => exact .create hj ⟨rfl, rfl, rfl, rfl, rfl, rfl, rfl⟩
  | transition hj hto hfrom hp => exact .putJob hj fun rows letter _ => .transition hto hfrom hp
  | cancel hj hfrom hp hrel =>
      exact .putJob_released hj hrel fun rows rows' letter hrows => .cancel hfrom hp hrows
  | setCancelRequested hj hs hp =>
      exact .putJob hj fun rows letter _ => .setCancelRequested hs hp
  | updateConfig hj => exact .putJob hj fun rows letter _ => .updateConfig ⟨_, rows, letter⟩ _
  | softDelete hj => exact .putJob hj fun rows letter _ => .softDelete ⟨_, rows, letter⟩
  | clearRetryDispatched hj =>
      exact .putJob hj fun rows letter _ => .clearRetryDispatched ⟨_, rows, letter⟩
  | claim hj hs hc hdue hp hact =>
      refine .putJob hj fun rows letter hrows => .claim hs hc hdue hp ?_
      rw [← hrows]
      exact hact
  | @finalize j w k ending job c₁ c' hj hown hp hdlq hrel =>
      obtain ⟨letter', hletter, hbur⟩ :=
        hdlq.view.2 _ (Core.view_putJob_self c j (job.finalized ending))
      obtain ⟨rows', hrows, hself⟩ := hrel.view.2 _ hbur
      refine .of_local (fun m hm => ?_) (Core.view_of_lookup hj) hself
        (.finalize hown hp hletter hrows)
      rw [hrel.view.1 m hm, hdlq.view.1 m hm, Core.view_putJob_of_ne c _ hm]
  | reclaim hj hs hexp hrel =>
      exact .putJob_released hj hrel fun rows rows' letter hrows => .reclaim hs hexp hrows
  | reserve hres hamount hfree =>
      obtain ⟨q, hadm, _⟩ := Core.stored_of_admits hres hamount hfree
      exact .reserve fun v => .reserve _ hadm

/-! ### Every job in every run -/

/-- Letters belong to jobs. -/
def Core.NoStrayLetter (c : Core) : Prop := ∀ j, c.jobs.lookup j = none → c.dlq.lookup j = none

theorem Core.NoStrayLetter.of_dlq_eq {c c' : Core} {maxAttempts : ℕ} (hc : c.NoStrayLetter)
    (hrows : RowsStep maxAttempts c.jobs c'.jobs) (hdlq : c'.dlq = c.dlq) :
    c'.NoStrayLetter := by
  intro j hj
  rw [hdlq]
  refine hc j ?_
  cases hold : c.jobs.lookup j with
  | none => rfl
  | some job =>
      obtain ⟨job', hj', _⟩ := hrows.persists j job hold
      rw [hj] at hj'
      cases hj'

theorem CoreStep.noStrayLetter {env : Env} {c c' : Core} {i : Input} {op : Op}
    (h : CoreStep env c i op c') (hc : c.NoStrayLetter) : c'.NoStrayLetter := by
  have hrows := h.rows
  cases h with
  | skip | createJob | transition | setCancelRequested | updateConfig | softDelete |
    clearRetryDispatched | claim | reserve => exact hc.of_dlq_eq hrows rfl
  | cancel hj hfrom hp hrel => exact hc.of_dlq_eq hrows hrel.dlq_eq
  | reclaim hj hs hexp hrel => exact hc.of_dlq_eq hrows hrel.dlq_eq
  | @finalize j w k ending job c₁ c' hj hown hp hdlq hrel =>
      have hput : (c.putJob j (job.finalized ending)).NoStrayLetter := by
        intro m hm
        rw [Core.lookup_putJob] at hm
        split at hm
        · cases hm
        · exact hc m hm
      have hbur : c₁.NoStrayLetter := by
        intro m hm
        rw [hdlq.jobs_eq] at hm
        have hne : m ≠ j := by
          rintro rfl
          rw [Core.lookup_putJob, if_pos rfl] at hm
          cases hm
        rw [hdlq.lookup_of_ne hne]
        exact hput m hm
      intro m hm
      rw [hrel.jobs_eq] at hm
      rw [hrel.dlq_eq]
      exact hbur m hm

/-- **A property of every job in every run**, from what the statements and heartbeats do to one
job. -/
theorem each_job_of_reaches {env : Env} {P : JobView → Prop} {φ : Op → Input → Core → Prop}
    (hnew : ∀ job rows, job.New → (∀ k, rows k = none) → P { job, rows, letter := none })
    (hstep : ∀ c i op j v v', v.job.Backed v.rows → c.view j = some v → P v → φ op i c →
      JobStep env c i j op v v' → P v')
    (hbeat : ∀ v w k t, P v → v.job.OwnedBy w k →
      P { v with job := { v.job with leaseExpiresAt := some t } })
    {s : World} {es : List (SysEvent env)} {c : System env} (h : Reaches s es c)
    (hφ : Runs.Always Config.step (Meets fun op i db => φ op i db.core)
      ({ shared := s } : System env) es) {j : JobId} {v : JobView}
    (hv : c.shared.db.core.view j = some v) : P v := by
  suffices hall : c.shared.db.core.NoStrayLetter ∧ ∀ j v, c.shared.db.core.view j = some v → P v from
    hall.2 j v hv
  refine core_invariant_of_reaches (K := fun c => c.NoStrayLetter ∧ ∀ j v, c.view j = some v → P v)
    ?_ ?_ h ?_ hφ
  · rintro c c' i op hb ⟨hletter, hP⟩ hop hcore
    refine ⟨hcore.noStrayLetter hletter, fun j v' hv' => ?_⟩
    cases hv : c.view j with
    | none =>
        have hnone : c.jobs.lookup j = none := Option.map_eq_none_iff.mp hv
        obtain ⟨hn, hrows, hl⟩ := hcore.views.new j v' hv hv'
        obtain ⟨job, rows, letter⟩ := v'
        simp only at hn hrows hl
        rw [hl, hletter j hnone]
        exact hnew job rows hn (hrows ▸ hb.orphan j hnone)
    | some v =>
        have hback : v.job.Backed v.rows := by
          obtain ⟨hj, hrows, _⟩ := Core.view_eq_some.mp hv
          exact hrows ▸ hb.job j v.job hj
        exact hstep c i op j v v' hback hv (hP j v hv) hop (hcore.views.moves j v v' hv hv')
  · rintro c j job w k t ⟨hletter, hP⟩ hj hown
    have hrow : RowStep env.settings.maxAttempts job { job with leaseExpiresAt := some t } :=
      .heartbeat t hown
    refine ⟨hletter.of_dlq_eq (RowsStep.put hj hrow) rfl, ?_⟩
    intro m v hv
    by_cases hm : m = j
    · subst hm
      rw [Core.view_putJob_self] at hv
      cases hv
      exact hbeat _ w k t (hP _ _ (Core.view_of_lookup hj)) hown
    · rw [Core.view_putJob_of_ne c _ hm] at hv
      exact hP m v hv
  · have hdb := h.1.db
    refine ⟨fun j _ => ?_, fun j v hv => ?_⟩
    · rw [hdb]
      rfl
    · have hj := (Core.view_eq_some.mp hv).1
      rw [hdb] at hj
      cases hj

end PosttrainPlatform
