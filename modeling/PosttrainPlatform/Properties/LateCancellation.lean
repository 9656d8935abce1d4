import PosttrainPlatform.Lib.Ledger
import PosttrainPlatform.Properties.Lifecycle
import PosttrainPlatform.Properties.Order

/-!
# When a cancellation is too late

`_run_executor` reads the expired job once, before it sleeps, and from then on the session keeps the
row that it has loaded: the query after the execution returns the same object and does not overwrite
it.  So the worker sees a cancellation exactly if it was committed before that one reload.
-/

namespace PosttrainPlatform

open Programs Service

/-- The statement loads the row of an expired job. -/
def Op.isLoad : Op → Bool
  | .loadJob _ => true
  | _ => false

namespace Past

/-- The simulated executor has not begun. -/
def Unsimulated (h : Past) : Prop := ∀ d ∈ h, ∀ j, d.1 ≠ .beginAttempt .simulated j

/-- Nothing has been reloaded. -/
def Unloaded (h : Past) : Prop := ∀ d ∈ h, d.1.isLoad = false

/-- A simulated attempt ends as the reloaded row says, when the job is still there. -/
def Heeds (h : Past) : Op → Prop
  | .finalize j _ _ ending => ¬ h.Unsimulated → ∀ post job pre row,
      h = post ++ ⟨.loadJob j, .ok (some job)⟩ :: pre → (⟨.getJob j, .ok row⟩ ∈ post) →
        (ending = .cancelled ↔ cancelSeen row (some job) = true)
  | _ => True

end Past

section Programs

variable {env : Env} {α : Type} {h : Past} {j : JobId} {w : WorkerId} {k : ℕ}

/-- A program that does not begin the simulated executor. -/
theorem heeds_of_unsimulated {p : Service α}
    (hp : p.All fun op => ∀ j, op ≠ .beginAttempt .simulated j) (hh : h.Unsimulated) :
    p.Justified Past.Heeds h fun _ m => Past.Unsimulated m := by
  refine Prog.justified_of_all (I := fun m : Past => m.Unsimulated) (fun m op hm hop => ?_) hp hh
  constructor
  · cases op <;> first | trivial | exact fun hs => absurd hm hs
  · intro r d hd i
    obtain rfl | hd := List.mem_cons.mp hd
    · exact hop i
    · exact hm d hd i

/-- Statements of these roles do not begin an attempt. -/
theorem ne_begin_of_inside {ρ : Role} {δ : Duty} {op : Op} (hop : op.Inside ρ δ)
    (hρ : ρ ≠ .execute) (j : JobId) : op ≠ .beginAttempt .simulated j := by
  rintro rfl
  exact hop.1.role_ne hρ (by decide) (by decide) rfl

/-- What the body of an attempt leaves behind: it was not simulated, or its last statement has loaded
the row that it carries on. -/
def Past.Carries (m : Past) (j : JobId) (loaded : Option Job) : Prop :=
  m.Unsimulated ∨ ∃ job rest, loaded = some job ∧ m = ⟨.loadJob j, .ok (some job)⟩ :: rest ∧
    Past.Unloaded rest

/-- A statement that is neither a finalisation nor anything else that the discipline looks at. -/
theorem heeds_free {op : Op} (hop : ∀ i w k ending, op ≠ .finalize i w k ending) (m : Past) :
    m.Heeds op := by
  cases op <;> first | trivial | exact absurd rfl (hop _ _ _ _)

/-- The simulated executor. -/
theorem heeds_runExecutor (hload : h.Unloaded) :
    (runExecutor j).Justified Past.Heeds h fun r m =>
      ∀ outcome loaded, r = .ok (outcome, loaded) → Past.Carries m j loaded := by
  refine Prog.justified_perform_bind trivial (fun _ => ?_) fun e _ _ he => by cases he
  have hload' : Past.Unloaded (⟨.beginAttempt .simulated j, .ok ()⟩ :: h) := by
    intro d hd
    obtain rfl | hd := List.mem_cons.mp hd
    · rfl
    · exact hload d hd
  refine Prog.justified_bind (Q := fun r m => ∀ job, r = .ok job → ∃ rest,
    m = ⟨.loadJob j, .ok (some job)⟩ :: rest ∧ Past.Unloaded rest) ?_ ?_ fun e m _ _ _ he => by
      cases he
  · refine Prog.justified_perform_bind trivial (fun row => ?_) fun e job he => by cases he
    cases row with
    | none => exact fun job he => by cases he
    | some job =>
        intro job' he
        cases he
        exact ⟨_, rfl, hload'⟩
  · intro job m hm
    obtain ⟨rest, rfl, hrest⟩ := hm job rfl
    have hcarries : Past.Carries (⟨.loadJob j, .ok (some job)⟩ :: rest) j (some job) :=
      Or.inr ⟨job, rest, rfl, rfl, hrest⟩
    -- sleeping executes no statement
    have hsleep : ∀ seconds : Json, (∃ u, sleep seconds = pure u) ∨ ∃ e, sleep seconds = raise e := by
      intro seconds
      unfold sleep
      split
      · split
        · exact Or.inr ⟨_, rfl⟩
        · unfold check
          split
          · exact Or.inl ⟨_, rfl⟩
          · exact Or.inr ⟨_, rfl⟩
      · exact Or.inl ⟨_, rfl⟩
    obtain ⟨u, hu⟩ | ⟨e, he⟩ := hsleep ((job.config.getD []).getD "sleep_seconds" (.num 0))
    · rw [hu]
      intro outcome loaded hr
      cases hr
      exact hcarries
    · rw [he]
      intro outcome loaded hr
      cases hr

/-- The body of an attempt. -/
theorem heeds_runBody (hsim : h.Unsimulated) (hload : h.Unloaded) :
    (runBody env j w k).Justified Past.Heeds h fun r m =>
      ∀ outcome loaded, r = .ok (outcome, loaded) → Past.Carries m j loaded := by
  have hother : ∀ {m : Past} {p : Service (AttemptOutcome × Option Job)}, m.Unsimulated →
      (p.All fun op => ∀ j, op ≠ .beginAttempt .simulated j) →
      p.Justified Past.Heeds m fun r m =>
        ∀ outcome loaded, r = .ok (outcome, loaded) → Past.Carries m j loaded :=
    fun hm hp => (heeds_of_unsimulated hp hm).mono fun _ _ hm' _ _ _ => Or.inl hm'
  have hbegun : ∀ {β : Type} {executor : Executor} {i : JobId} {rest : Unit → Service β},
      executor ≠ .simulated → (∀ u, (rest u).All (Op.Inside .prepare .worker)) →
        (exec (.beginAttempt executor i) >>= rest).All fun op =>
          ∀ j, op ≠ .beginAttempt .simulated j := by
    intro β executor i rest hne hrest
    refine Prog.all_perform_bind.mpr ⟨fun j he => ?_, fun u => ?_⟩
    · cases he
      exact hne rfl
    · exact Prog.all_mono (fun op hop => ne_begin_of_inside hop (by decide)) (hrest u)
  have hcons : ∀ {m : Past} (op : Op) (r : Except Exn op.Ret), m.Unsimulated →
      (∀ j, op ≠ .beginAttempt .simulated j) → Past.Unsimulated (⟨op, r⟩ :: m) := by
    intro m op r hm hop d hd i
    obtain rfl | hd := List.mem_cons.mp hd
    · exact hop i
    · exact hm d hd i
  refine Prog.justified_perform_bind trivial (fun training => ?_) fun e _ _ he => by cases he
  have hsim₁ := hcons (.findTrainingRun j) (.ok training) hsim fun i => by simp
  cases training with
  | some run =>
      obtain ⟨runId, run⟩ := run
      obtain ⟨rest, heq, hrest⟩ := all_trainingRest (δ := .worker) env
        { jobId := j, workerId := w, attemptNumber := k, runId } run
      refine hother hsim₁ ?_
      show (runTrainingAttempt env _ run).All _
      rw [heq]
      exact hbegun (by decide) hrest
  | none =>
      refine Prog.justified_perform_bind trivial (fun evaluation => ?_) fun e _ _ he => by cases he
      have hsim₂ := hcons (.findEvaluationRun j) (.ok evaluation) hsim₁ fun i => by simp
      cases evaluation with
      | some run =>
          obtain ⟨runId, run⟩ := run
          obtain ⟨rest, heq, hrest⟩ := all_evaluationRest (δ := .worker) env
            { jobId := j, workerId := w, attemptNumber := k, runId } run
          refine hother hsim₂ (Prog.all_bind ?_ fun _ => trivial)
          rw [heq]
          exact hbegun (by decide) hrest
      | none =>
          refine heeds_runExecutor fun d hd => ?_
          obtain rfl | hd := List.mem_cons.mp hd
          · rfl
          obtain rfl | hd := List.mem_cons.mp hd
          · rfl
          · exact hload d hd

/-- A finalisation behind one reload and the reads after it. -/
theorem heeds_finalize {job : Job} {after rest : Past} {ending : Ending} (hafter : after.Unloaded)
    (hrest : rest.Unloaded)
    (hending : ∀ row, (⟨.getJob j, .ok row⟩ : Done Op Op.Ret Exn) ∈ after →
      (ending = .cancelled ↔ cancelSeen row (some job) = true)) :
    Past.Heeds (after ++ ⟨.loadJob j, .ok (some job)⟩ :: rest) (.finalize j w k ending) := by
  intro _ post job' pre row hsplit hrow
  obtain ⟨rfl, hload, rfl⟩ := split_unique (P := fun d => d.1.isLoad = true) hsplit rfl
    (fun d hd => by simp [hafter d hd]) fun d hd => by simp [hrest d hd]
  cases hload
  exact hending row hrow

/-- The end of an attempt: the flag that the worker sees is the one of the reloaded row. -/
theorem heeds_conclude {outcome : AttemptOutcome} {loaded : Option Job}
    {r : Except Exn Unit} (hh : h.Carries j loaded) :
    (conclude env j w k outcome loaded).Justified Past.Heeds (⟨.stopHeartbeat, r⟩ :: h)
      fun _ _ => True := by
  obtain hsim | ⟨job, rest, rfl, rfl, hrest⟩ := hh
  · have hall : (conclude env j w k outcome loaded).All
        fun op => ∀ j, op ≠ .beginAttempt .simulated j := by
      refine Prog.all_mono (fun op hop i => ?_) (all_conclude (δ := .any) env j w k outcome loaded)
      obtain hplain | ⟨ending, rfl⟩ := hop
      · exact ne_begin_of_inside hplain (by decide) i
      · simp
    refine (heeds_of_unsimulated hall fun d hd i => ?_).mono fun _ _ _ => trivial
    obtain rfl | hd := List.mem_cons.mp hd
    · simp
    · exact hsim d hd i
  refine Prog.justified_perform_bind trivial (fun abandoned => ?_) fun _ => trivial
  cases abandoned with
  | true => trivial
  | false =>
      refine Prog.justified_perform_bind trivial (fun row => ?_) fun _ => trivial
      have hfinish : ∀ (ending : Ending) (later : Past), later.Unloaded →
          (∀ row', (⟨.getJob j, .ok row'⟩ : Done Op Op.Ret Exn) ∉ later) →
          (ending = .cancelled ↔ cancelSeen row (some job) = true) →
          (finish j w k ending).Justified Past.Heeds (later ++ ⟨.getJob j, .ok row⟩ ::
            ⟨.abandoned, .ok false⟩ :: ⟨.stopHeartbeat, r⟩ :: ⟨.loadJob j, .ok (some job)⟩ :: rest)
            fun _ _ => True := by
        intro ending later hlater hnone hending
        refine Prog.justified_perform_bind ?_ (fun b => ?_) fun _ => trivial
        · have hafter : Past.Heeds ((later ++ [⟨.getJob j, .ok row⟩, ⟨.abandoned, .ok false⟩,
              ⟨.stopHeartbeat, r⟩]) ++ ⟨.loadJob j, .ok (some job)⟩ :: rest)
              (.finalize j w k ending) := ?_
          · simpa using hafter
          refine heeds_finalize (fun d hd => ?_) hrest fun row' hrow' => ?_
          · obtain hd | hd := List.mem_append.mp hd
            · exact hlater d hd
            · simp only [List.mem_cons, List.not_mem_nil, or_false] at hd
              obtain rfl | rfl | rfl := hd <;> rfl
          · obtain hd | hd := List.mem_append.mp hrow'
            · exact absurd hd (hnone row')
            · simp only [List.mem_cons, Sigma.mk.injEq, List.not_mem_nil, reduceCtorEq,
                false_and, or_false] at hd
              cases eq_of_heq hd.2
              exact hending
        · cases b <;> trivial
      split
      · rename_i hseen
        exact hfinish .cancelled [] (fun d hd => by cases hd) (fun _ hd => by cases hd)
          (iff_of_true rfl hseen)
      · rename_i hseen
        cases outcome with
        | succeeded =>
            exact hfinish .succeeded [] (fun d hd => by cases hd) (fun _ hd => by cases hd)
              (iff_of_false (by simp) hseen)
        | failed message classification domain =>
            simp only [endingOf]
            split
            · rw [Prog.bind_assoc]
              refine Prog.justified_perform_bind (R := fun _ _ => True) trivial (fun t => ?_)
                fun _ => trivial
              refine hfinish (.retry t message _ domain) [⟨.nextRetryAt k, .ok t⟩] ?_ ?_
                (iff_of_false (by simp) hseen)
              · intro d hd
                rw [List.mem_singleton.mp hd]
                rfl
              · intro row' hd
                cases List.mem_singleton.mp hd
            · exact hfinish (.failed message _ domain) [] (fun d hd => by cases hd)
                (fun _ hd => by cases hd) (iff_of_false (by simp) hseen)

theorem heeds_processJobMessage (hsim : h.Unsimulated) (hload : h.Unloaded) :
    (processJobMessage env j w).Justified Past.Heeds h fun _ _ => True := by
  have hkept : ∀ {m : Past} (op : Op) (r : Except Exn op.Ret), m.Unsimulated → m.Unloaded →
      (∀ j, op ≠ .beginAttempt .simulated j) → op.isLoad = false →
        Past.Unsimulated (⟨op, r⟩ :: m) ∧ Past.Unloaded (⟨op, r⟩ :: m) := by
    intro m op r hm hm' hop hop'
    constructor
    · intro d hd i
      obtain rfl | hd := List.mem_cons.mp hd
      · exact hop i
      · exact hm d hd i
    · intro d hd
      obtain rfl | hd := List.mem_cons.mp hd
      · exact hop'
      · exact hm' d hd
  refine Prog.justified_perform_bind trivial (fun matched => ?_) fun _ => trivial
  obtain ⟨hsim₁, hload₁⟩ := hkept (.claim j w) (.ok matched) hsim hload
    (fun i => by simp) rfl
  refine Prog.justified_bind (Q := fun _ m => Past.Unsimulated m ∧ Past.Unloaded m) ?_
    (fun job m hm => ?_) fun _ _ _ => trivial
  · cases matched with
    | false => exact ⟨hsim₁, hload₁⟩
    | true =>
        exact Prog.justified_perform trivial fun r => hkept _ r hsim₁ hload₁ (fun i => by simp) rfl
  cases job with
  | none => trivial
  | some job =>
      refine Prog.justified_perform_bind trivial (fun _ => ?_) fun _ => trivial
      obtain ⟨hsim₂, hload₂⟩ := hkept (.insertAttempt j job.attemptNumber) (.ok ()) hm.1 hm.2
        (fun i => by simp) rfl
      refine Prog.justified_perform_bind trivial (fun _ => ?_) fun _ => trivial
      obtain ⟨hsim₃, hload₃⟩ := hkept (.startHeartbeat j w job.attemptNumber) (.ok ())
        hsim₂ hload₂ (fun i => by simp) rfl
      refine Prog.justified_bind (Q := fun r m => ∀ outcome loaded, r = .ok (outcome, loaded) →
        ∃ rest x, m = ⟨.stopHeartbeat, x⟩ :: rest ∧ Past.Carries rest j loaded) ?_ ?_
          fun _ _ _ => trivial
      · refine Prog.justified_ensuring (heeds_runBody hsim₃ hload₃) fun r m hm => ?_
        refine Prog.justified_perform trivial fun o outcome loaded hr => ?_
        cases o with
        | error e => cases hr
        | ok u => exact ⟨m, .ok u, rfl, hm outcome loaded hr⟩
      · intro result m hm
        obtain ⟨outcome, loaded⟩ := result
        obtain ⟨rest, x, rfl, hcarries⟩ := hm outcome loaded rfl
        exact heeds_conclude hcarries

/-- **Every attempt ends as its reloaded row says.** -/
theorem heeds_program (env : Env) (call : Call) :
    (call.program env).Justified Past.Heeds [] fun _ _ => True := by
  have hnil : Past.Unsimulated [] ∧ Past.Unloaded [] :=
    ⟨fun d hd => (by cases hd), fun d hd => by cases hd⟩
  cases call with
  | processJobMessage j w =>
      exact Prog.justified_bind (heeds_processJobMessage hnil.1 hnil.2) (fun _ _ _ => trivial)
        fun _ _ _ => trivial
  | workerRunOnce w =>
      refine Prog.justified_bind (Q := fun _ _ => True) ?_ (fun _ _ _ => trivial)
        fun _ _ _ => trivial
      refine Prog.justified_perform_bind (R := fun _ _ => True) trivial (fun message => ?_)
        fun _ => trivial
      cases message with
      | none => trivial
      | some message =>
          refine Prog.justified_bind (Q := fun _ _ => True) (Prog.justified_attempt ?_)
            (fun _ _ _ => Prog.justified_perform trivial fun _ => trivial) fun _ _ _ => trivial
          refine heeds_processJobMessage (fun d hd i => ?_) fun d hd => ?_
          · rw [List.mem_singleton.mp hd]
            simp
          · rw [List.mem_singleton.mp hd]
            rfl
  | createJob | createTrainingRun | createEvaluation | updateJob | cancelJob | deleteJob
  | schedulerRunOnce | recoveryRunOnce | relayOnce | uploadArtifact | renewUploadLease
  | reconcileOnce | createDataset | createDatasetVersion | createModel | registerVersion
  | evaluateQualityGate =>
      refine (heeds_of_unsimulated (Prog.all_mono (fun op hop i => ?_) (inside_program env _))
        hnil.1).mono fun _ _ _ => trivial
      exact ne_begin_of_inside hop (by simp [Call.role]) i

end Programs

section Flags

variable {env : Env} {s : World} {i : Input} {p : ℕ} {j : JobId} {job : Job}

/-- The statement has committed a cancellation of the running job. -/
def Cancels (j : JobId) (e : Entry (platform env)) : Prop :=
  e.done = ⟨.setCancelRequested j, .ok true⟩

/-- A statement raises the flag of a job exactly by committing a cancellation. -/
theorem perform_flag (op : Op) (hj : s.db.jobs.lookup j = some job) :
    ∃ job', (op.perform env p i s).1.db.jobs.lookup j = some job' ∧
      (job'.cancelRequested = true ↔
        Cancels j (⟨p, some i, ⟨op, (op.perform env p i s).2⟩⟩ : Entry (platform env)) ∨
          job.cancelRequested = true) := by
  by_cases hop : op = .setCancelRequested j
  · subst hop
    show ∃ job', (JobsRepo.setCancelRequested s.db j).1.jobs.lookup j = some job' ∧ _
    have hanswer : ((Op.setCancelRequested j).perform env p i s).2 =
        .ok (JobsRepo.setCancelRequested s.db j).2 := rfl
    rw [hanswer]
    generalize hr : JobsRepo.setCancelRequested s.db j = r
    obtain rfl | ⟨row, hrow, _, rfl⟩ := JobsRepo.updateWhere_cases hr
    · exact ⟨job, hj, by simp [Cancels]⟩
    · rw [hj] at hrow
      cases hrow
      exact ⟨_, AList.lookup_insert _, by simp [Cancels]⟩
  · have hnot : ¬ Cancels j (⟨p, some i, ⟨op, (op.perform env p i s).2⟩⟩ : Entry (platform env)) :=
      fun h => hop (Sigma.mk.inj h).1
    have hstep := perform_core env p i s op
    obtain ⟨job', hj', _⟩ := hstep.rows.persists j job hj
    refine ⟨job', hj', ?_⟩
    rw [or_iff_right hnot]
    have hview := hstep.views.moves j _ _ (Core.view_of_lookup hj) (Core.view_of_lookup hj')
    generalize hv : JobView.mk job (s.db.core.rowsOf j) (s.db.core.dlq.lookup j) = v at hview
    generalize hv' : JobView.mk job' ((op.perform env p i s).1.db.core.rowsOf j)
      ((op.perform env p i s).1.db.core.dlq.lookup j) = v' at hview
    have hjob : job = v.job := by rw [← hv]
    have hjob' : job' = v'.job := by rw [← hv']
    rw [hjob, hjob']
    cases hview with
    | setCancelRequested => exact absurd rfl hop
    | @finalize v w k ending rows' letter' => cases ending <;> rfl
    | skip | transition | cancel | updateConfig | softDelete | clearRetryDispatched | claim |
      reclaim | reserve => rfl

/-- A job carries the flag exactly if a cancellation has been committed. -/
structure FlagsKnown (s : World) (L : Ledger (platform env)) : Prop where
  known : ∀ j, s.db.jobs.lookup j = none → ∀ e ∈ L, ¬ Cancels j e
  flagged : ∀ j job, s.db.jobs.lookup j = some job →
    (job.cancelRequested = true ↔ ∃ e ∈ L, Cancels j e)

/-- A cancellation matches a job that exists. -/
theorem not_cancels_of_absent {op : Op} (hj : s.db.jobs.lookup j = none) :
    ¬ Cancels j (⟨p, some i, ⟨op, (op.perform env p i s).2⟩⟩ : Entry (platform env)) := by
  intro h
  obtain ⟨rfl, hr⟩ := Sigma.mk.inj h
  have hanswer : Except.ok (JobsRepo.setCancelRequested s.db j).2 = Except.ok true := eq_of_heq hr
  simp [JobsRepo.setCancelRequested, JobsRepo.updateWhere, hj] at hanswer

/-- An entry that is no cancellation leaves the knowledge as it is. -/
theorem FlagsKnown.cons {L : Ledger (platform env)} (h : FlagsKnown s L) {e : Entry (platform env)}
    (he : ∀ j, ¬ Cancels j e) : FlagsKnown s (e :: L) where
  known j hj e' he' := by
    obtain rfl | he' := List.mem_cons.mp he'
    · exact he j
    · exact h.known j hj e' he'
  flagged j job hj := by
    rw [h.flagged j job hj]
    simp [he j]

theorem flagsKnown_invariant (env : Env) :
    LedgerInvariant (M := platform env) Past.Heeds FlagsKnown where
  perform p i call op s L hJ _ := by
    have hrows := (perform_core env p i s op).rows
    refine ⟨fun j hj e he => ?_, fun j job' hj' => ?_⟩
    · have hnone : s.db.jobs.lookup j = none := by
        cases hold : s.db.jobs.lookup j with
        | none => rfl
        | some job =>
            obtain ⟨job', hj', _⟩ := hrows.persists j job hold
            exact absurd (hj.symm.trans hj') (by simp)
      obtain rfl | he := List.mem_cons.mp he
      · exact not_cancels_of_absent hnone
      · exact hJ.known j hnone e he
    · simp only [List.exists_mem_cons_iff]
      cases hold : s.db.jobs.lookup j with
      | none =>
          have hnew := (hrows.new j job' hold hj').2.1
          refine iff_of_false (by simp [hnew]) ?_
          rintro (h | ⟨e, he, h⟩)
          · exact not_cancels_of_absent hold h
          · exact hJ.known j hold e he h
      | some job =>
          obtain ⟨job₁, hj₁, hflag⟩ := @perform_flag env s i p j job op hold
          have heq : job' = job₁ := Option.some.inj (hj'.symm.trans hj₁)
          rw [heq, hflag, hJ.flagged j job hold]
  fault p e op s L hJ _ := hJ.cons fun j h => by
    obtain ⟨rfl, hr⟩ := Sigma.mk.inj h
    cases eq_of_heq hr
  halt p s L hJ := ⟨hJ.known, hJ.flagged⟩
  ambient b s L hJ := by
    refine ⟨fun j hj => hJ.known j ?_, fun j job' hj' => ?_⟩
    · obtain h | ⟨_, _, _, _, _, _, h⟩ := beat_lookup env s b.1 b.2 j
      · exact h ▸ hj
      · exact absurd (hj.symm.trans h) (by simp)
    · obtain h | ⟨job, _, _, _, hj, _, h⟩ := beat_lookup env s b.1 b.2 j
      · exact hJ.flagged j job' (h ▸ hj')
      · have heq := Option.some.inj (hj'.symm.trans h)
        rw [heq]
        exact hJ.flagged j job hj

theorem flagsKnown_of_reaches {s : World} {es : List (SysEvent env)} {c : System env}
    (h : Reaches s es c) : FlagsKnown c.shared (ledger (platform env) s es) := by
  refine (flagsKnown_invariant env).run (heeds_program env)
    ⟨fun j _ e he => (by cases he), fun j job hj => ?_⟩ h.2
  rw [h.1.db] at hj
  cases hj

/-- A deleted job stays deleted. -/
theorem RowStep.deleted {maxAttempts : ℕ} {job job' : Job} (h : RowStep maxAttempts job job')
    (hd : ¬ job.Present) : ¬ job'.Present := by
  cases h with
  | softDelete now => exact fun hp => by cases hp
  | @finalize w k ending => cases ending <;> exact hd
  | transition | setCancelRequested | updateConfig | clearRetryDispatched | claim | heartbeat |
    reclaim => exact hd

/-- A job that is present at the end of a run was present all along. -/
theorem present_of_run {c c' : System env} {es : List (SysEvent env)}
    (hrun : Runs.runFrom Config.step c es = some c') (hj : c.shared.db.jobs.lookup j = some job)
    (hpresent : ∃ job' ∈ c'.shared.db.jobs.lookup j, job'.Present) : job.Present := by
  by_contra hd
  have hdeleted : ∃ job', c'.shared.db.jobs.lookup j = some job' ∧ ¬ job'.Present := by
    refine Runs.run_invariant (I := fun m : System env =>
      ∃ job, m.shared.db.jobs.lookup j = some job ∧ ¬ job.Present) ?_ ⟨job, hj, hd⟩ hrun
    rintro m e m' ⟨row, hrow, hgone⟩ hstep
    obtain ⟨row', hrow', rfl | hmove⟩ := (step_rows hstep).persists j row hrow
    · exact ⟨row', hrow', hgone⟩
    · exact ⟨row', hrow', hmove.deleted hgone⟩
  obtain ⟨job₁, hj₁, hgone⟩ := hdeleted
  obtain ⟨job₂, hj₂, hp⟩ := hpresent
  rw [Option.mem_def, hj₁, Option.some.injEq] at hj₂
  exact hgone (hj₂ ▸ hp)

/-- A row of a run stays. -/
theorem exists_of_run {c c' : System env} {es : List (SysEvent env)}
    (hrun : Runs.runFrom Config.step c es = some c') (hj : c.shared.db.jobs.lookup j = some job) :
    ∃ job', c'.shared.db.jobs.lookup j = some job' := by
  refine Runs.run_invariant (I := fun m : System env => ∃ job, m.shared.db.jobs.lookup j = some job)
    ?_ ⟨job, hj⟩ hrun
  rintro m e m' ⟨row, hrow⟩ hstep
  obtain ⟨row', hrow', _⟩ := (step_rows hstep).persists j row hrow
  exact ⟨row', hrow'⟩

/-- A finalisation that goes through finds the job. -/
theorem present_of_finalizeTx {db db' : Db} {w : WorkerId} {k : ℕ} {ending : Ending} {now : Time}
    (h : finalizeTx env db j w k ending now = some (db', true)) :
    ∃ job ∈ db.jobs.lookup j, job.Present := by
  unfold finalizeTx at h
  generalize hr : JobsRepo.finalizeAttempt db j w k ending.jobStatus ending.nextRetryAt? = r at h
  simp only at h
  split at h
  · cases h
  rename_i db₁ hfin
  split at h
  swap
  · cases h
  rename_i hfound
  obtain rfl | ⟨job, hj, _, rfl⟩ := JobsRepo.updateWhere_cases hr
  · cases hfound.1
  obtain ⟨row, hrow⟩ := Option.isSome_iff_exists.mp hfound.2
  rw [AttemptsRepo.finalize_frame hfin] at hrow
  unfold JobsRepo.get at hrow
  simp only [Table.lookup_insert_eq, if_true] at hrow
  obtain ⟨heq, hrow⟩ := Option.filter_eq_some_iff.mp hrow
  obtain rfl := Option.some.inj heq
  exact ⟨job, hj, of_decide_eq_true hrow⟩

/-- No cancellation of a job is older than a claim of it. -/
theorem not_cancels_before_claim {es : List (SysEvent env)} {c : System env} {w : WorkerId}
    {i₁ : Option Input} {newer before : Ledger (platform env)} (h : Reaches s es c)
    (hL : ledger (platform env) s es = newer ++ ⟨p, i₁, ⟨.claim j w, .ok true⟩⟩ :: before) :
    ∀ e ∈ before, ¬ Cancels j e := by
  obtain ⟨fs, i, gs, m, m', call, k, rfl, hm, hat, hperform, hbefore, _⟩ := answer_of_entry h.2 hL
  have hanswer : (JobsRepo.claim m.shared.db j w i.now env.settings.leaseDurationSeconds).2 = true :=
    Except.ok.inj (congrArg Prod.snd hperform)
  generalize hr : JobsRepo.claim m.shared.db j w i.now env.settings.leaseDurationSeconds = r
    at hanswer
  obtain rfl | ⟨job, hj, hclaimable, _⟩ := JobsRepo.updateWhere_cases hr
  · cases hanswer
  · have hknown := flagsKnown_of_reaches (c := m) ⟨h.1, hm⟩
    intro e he hcancels
    have hflag := (hknown.flagged j job hj).mpr ⟨e, hbefore.symm ▸ he, hcancels⟩
    rw [hclaimable.2.1] at hflag
    cases hflag

variable {es : List (SysEvent env)} {c : System env} {w : WorkerId} {k : ℕ} {ending : Ending}
  {row : Option Job} {i₁ i₂ i₃ i₄ : Option Input} {late during early before : Ledger (platform env)}

/-- **An attempt of the simulated executor ends CANCELLED exactly if a cancellation was committed
before its reload.** -/
theorem cancelled_iff_before_reload (h : Reaches s es c)
    (hL : ledger (platform env) s es = late ++ ⟨p, i₃, ⟨.getJob j, .ok row⟩⟩ ::
      (during ++ ⟨p, i₂, ⟨.loadJob j, .ok (some job)⟩⟩ ::
        (early ++ ⟨p, i₁, ⟨.claim j w, .ok true⟩⟩ :: before)))
    (hsim : ⟨.beginAttempt .simulated j, .ok ()⟩ ∈ Ledger.history early p)
    (hfinal : (⟨p, i₄, ⟨.finalize j w k ending, .ok true⟩⟩ : Entry (platform env)) ∈ late) :
    ending = .cancelled ↔ ∃ e ∈ early, Cancels j e := by
  obtain ⟨newer, between, rfl⟩ := List.append_of_mem hfinal
  -- the finalisation, and the two reads before it
  rw [List.append_assoc, List.cons_append] at hL
  obtain ⟨fs, i, gs, m, m', call, next, rfl, hm, hat, hperform, hfs, _⟩ := answer_of_entry h.2 hL
  obtain ⟨fs₁, _, _, m₁, m₁', _, _, _, hm₁, _, hget, hfs₁, hrest₁⟩ := answer_of_entry hm hfs
  obtain ⟨fs₂, _, _, m₂, m₂', _, _, _, hm₂, _, hload, hfs₂, hrest₂⟩ := answer_of_entry hm₁ hfs₁
  have hj₂ : m₂.shared.db.jobs.lookup j = some job := Except.ok.inj (congrArg Prod.snd hload)
  -- the row is still there for the second read
  have hrow : ∃ r, row = some r := by
    have hshared₂ : m₂'.shared = m₂.shared := (congrArg Prod.fst hload).symm
    obtain ⟨job₁, hj₁⟩ := exists_of_run hrest₂ (hshared₂.symm ▸ hj₂)
    have hshared₁ : m₁'.shared = m₁.shared := (congrArg Prod.fst hget).symm
    have htx : ∃ db, finalizeTx env m.shared.db j w k ending i.now = some (db, true) := by
      have hanswer : ((Op.finalize j w k ending).perform env p i m.shared).2 = .ok true :=
        congrArg Prod.snd hperform
      simp only [Op.perform, World.tryWrite] at hanswer
      split at hanswer
      · rename_i r htx
        obtain ⟨db, b⟩ := r
        cases hanswer
        exact ⟨db, htx⟩
      · cases hanswer
    obtain ⟨db, htx⟩ := htx
    have hpresent : job₁.Present :=
      present_of_run hrest₁ (hshared₁.symm ▸ hj₁) (present_of_finalizeTx htx)
    have hrow : row = JobsRepo.get m₁.shared.db j := (Except.ok.inj (congrArg Prod.snd hget)).symm
    refine ⟨job₁, ?_⟩
    rw [hrow, JobsRepo.get, hj₁, Option.filter_some, if_pos (by simpa using hpresent)]
  obtain ⟨r, rfl⟩ := hrow
  -- what the thread had done when it finalised the attempt
  have hheeds : Past.Heeds ((ledger (platform env) s fs).history p) (.finalize j w k ending) := by
    rw [history_ledger hm p]
    exact ((disciplined_of_run (heeds_program env) hm).justified hat).1
  have hhistory : (ledger (platform env) s fs).history p =
      Ledger.history (between ++ ⟨p, i₃, ⟨.getJob j, .ok (some r)⟩⟩ :: during) p ++
        ⟨.loadJob j, .ok (some job)⟩ ::
          Ledger.history (early ++ ⟨p, i₁, ⟨.claim j w, .ok true⟩⟩ :: before) p := by
    rw [hfs]
    simp [Ledger.history]
  have hending : ending = .cancelled ↔ cancelSeen (some r) (some job) = true := by
    refine hheeds (fun hun => ?_) _ job _ (some r) hhistory ?_
    · obtain ⟨i₀, hbegin⟩ := Ledger.mem_history.mp hsim
      refine hun ⟨.beginAttempt .simulated j, .ok ()⟩ (Ledger.mem_history.mpr ⟨i₀, ?_⟩) j rfl
      rw [hfs]
      simp [hbegin]
    · exact Ledger.mem_history.mpr ⟨i₃, by simp⟩
  have hflag := (flagsKnown_of_reaches (c := m₂) ⟨h.1, hm₂⟩).flagged j job hj₂
  have hbefore := not_cancels_before_claim (c := m₂) ⟨h.1, hm₂⟩ hfs₂
  rw [hending]
  show job.cancelRequested = true ↔ _
  rw [hflag, hfs₂]
  constructor
  · rintro ⟨e, he, hcancels⟩
    obtain he | he := List.mem_append.mp he
    · exact ⟨e, he, hcancels⟩
    · obtain rfl | he := List.mem_cons.mp he
      · cases (Sigma.mk.inj hcancels).1
      · exact absurd hcancels (hbefore e he)
  · rintro ⟨e, he, hcancels⟩
    exact ⟨e, List.mem_append_left _ he, hcancels⟩

/-- **A cancellation between the claim and the last read is honoured exactly if it, or another one,
was committed before the reload.** -/
theorem cancellation_honoured_iff (h : Reaches s es c)
    (hL : ledger (platform env) s es = late ++ ⟨p, i₃, ⟨.getJob j, .ok row⟩⟩ ::
      (during ++ ⟨p, i₂, ⟨.loadJob j, .ok (some job)⟩⟩ ::
        (early ++ ⟨p, i₁, ⟨.claim j w, .ok true⟩⟩ :: before)))
    (hsim : ⟨.beginAttempt .simulated j, .ok ()⟩ ∈ Ledger.history early p)
    (hfinal : (⟨p, i₄, ⟨.finalize j w k ending, .ok true⟩⟩ : Entry (platform env)) ∈ late) :
    ((∃ e ∈ during ++ early, Cancels j e) → ending = .cancelled) ↔
      ((∃ e ∈ during, Cancels j e) → ∃ e ∈ early, Cancels j e) := by
  rw [cancelled_iff_before_reload h hL hsim hfinal]
  constructor
  · rintro himp ⟨e, he, hcancels⟩
    exact himp ⟨e, List.mem_append_left _ he, hcancels⟩
  · rintro himp ⟨e, he, hcancels⟩
    obtain he | he := List.mem_append.mp he
    · exact himp ⟨e, he, hcancels⟩
    · exact ⟨e, he, hcancels⟩

end Flags

/-- The points of a simulated attempt. -/
inductive Point
  | claim
  | start
  | reload
  | cancel
  | read
  | final (status : JobStatus)
  deriving DecidableEq

/-- The point that a statement is for job 1 and worker 7. -/
def point : Done Op Op.Ret Exn → Option Point
  | ⟨.claim 1 7, .ok true⟩ => some .claim
  | ⟨.beginAttempt .simulated 1, .ok ()⟩ => some .start
  | ⟨.loadJob 1, .ok (some _)⟩ => some .reload
  | ⟨.setCancelRequested 1, .ok true⟩ => some .cancel
  | ⟨.getJob 1, .ok _⟩ => some .read
  | ⟨.finalize 1 7 1 ending, .ok true⟩ => some (.final ending.jobStatus)
  | _ => none

/-- What the statements of a point look like. -/
def Point.Shows : Point → Done Op Op.Ret Exn → Prop
  | .claim, d => d = ⟨.claim 1 7, .ok true⟩
  | .start, d => d = ⟨.beginAttempt .simulated 1, .ok ()⟩
  | .reload, d => ∃ job, d = ⟨.loadJob 1, .ok (some job)⟩
  | .cancel, d => d = ⟨.setCancelRequested 1, .ok true⟩
  | .read, d => ∃ row, d = ⟨.getJob 1, .ok row⟩
  | .final status, d => ∃ ending : Ending, ending.jobStatus = status ∧
      d = ⟨.finalize 1 7 1 ending, .ok true⟩

theorem shows_of_point {d : Done Op Op.Ret Exn} {x : Point} (h : point d = some x) : x.Shows d := by
  unfold point at h
  split at h <;> cases h
  · rfl
  · rfl
  · exact ⟨_, rfl⟩
  · rfl
  · exact ⟨_, rfl⟩
  · exact ⟨_, rfl, rfl⟩

/-- The points of a ledger, each with its thread. -/
def points (L : Ledger (platform Env.standard)) : List (ℕ × Point) :=
  L.filterMap fun e => (point e.done).map fun x => (e.thread, x)

/-- The last point of a ledger is an entry of it. -/
theorem points_eq_cons {L : Ledger (platform Env.standard)} {p : ℕ} {x : Point}
    {xs : List (ℕ × Point)} (h : points L = (p, x) :: xs) :
    ∃ newer i d older, L = newer ++ ⟨p, i, d⟩ :: older ∧ x.Shows d ∧ points older = xs := by
  obtain ⟨newer, e, older, rfl, _, he, hrest⟩ := List.filterMap_eq_cons_iff.mp h
  obtain ⟨y, hy, heq⟩ := Option.map_eq_some_iff.mp he
  obtain ⟨rfl, rfl⟩ := Prod.mk.inj heq
  exact ⟨newer, e.input, e.done, older, rfl, shows_of_point hy, hrest⟩

/-- `cancel_job` commits while the simulated executor sleeps. -/
def cancelledAsleep : List (SysEvent Env.standard) :=
  admitJob noop ++ session 2 (.processJobMessage 1 7) 8 {} ++ session 3 (.cancelJob 1) 3 {} ++
    proceed 2 4 {}

/-- **A cancellation of the sleeping job is lost**: it commits between the reload and the last read,
and the attempt is finalised as SUCCEEDED. -/
theorem sleeping_cancellation_lost : ∃ c : System Env.standard,
    Reaches World.fresh cancelledAsleep c ∧
      points (ledger (platform Env.standard) World.fresh cancelledAsleep) = [(2, .final .succeeded), (2, .read), (3, .read), (3, .cancel),
        (3, .read), (2, .reload), (2, .start), (2, .read), (2, .claim), (1, .read)] ∧
      ∃ job ∈ c.shared.db.jobs.lookup 1, job.status = .succeeded ∧ job.cancelRequested = true :=
  exists_reaches World.fresh_initial _ (by decide +kernel)

/-- `cancel_job` commits before the simulated executor has reloaded the job. -/
def cancelledAwake : List (SysEvent Env.standard) :=
  admitJob noop ++ session 2 (.processJobMessage 1 7) 7 {} ++ session 3 (.cancelJob 1) 3 {} ++
    proceed 2 5 {}

/-- A cancellation before the reload is honoured. -/
theorem waking_cancellation_honoured : ∃ during early : Ledger (platform Env.standard),
    (∃ e ∈ during ++ early, Cancels 1 e) ∧ ∃ i ending,
      (⟨2, i, ⟨.finalize 1 7 1 ending, .ok true⟩⟩ : Entry (platform Env.standard)) ∈
        ledger (platform Env.standard) World.fresh cancelledAwake ∧ ending = .cancelled := by
  obtain ⟨c, hc, hpoints⟩ := exists_reaches World.fresh_initial cancelledAwake
    (P := fun _ => points (ledger (platform Env.standard) World.fresh cancelledAwake) =
      [(2, .final .cancelled), (2, .read), (2, .reload), (3, .read), (3, .cancel), (3, .read),
        (2, .start), (2, .read), (2, .claim), (1, .read)])
    (by decide +kernel)
  obtain ⟨l₁, i₁, _, L₁, hL, ⟨ending, _, rfl⟩, h₁⟩ := points_eq_cons hpoints
  obtain ⟨l₂, i₂, _, L₂, rfl, ⟨row, rfl⟩, h₂⟩ := points_eq_cons h₁
  obtain ⟨l₃, i₃, _, L₃, rfl, ⟨job, rfl⟩, h₃⟩ := points_eq_cons h₂
  obtain ⟨l₄, i₄, d₄, L₄, rfl, _, h₄⟩ := points_eq_cons h₃
  obtain ⟨l₅, i₅, d₅, L₅, rfl, hcancels, h₅⟩ := points_eq_cons h₄
  obtain ⟨l₆, i₆, d₆, L₆, rfl, _, h₆⟩ := points_eq_cons h₅
  obtain ⟨l₇, i₇, _, L₇, rfl, rfl, h₇⟩ := points_eq_cons h₆
  obtain ⟨l₈, i₈, d₈, L₈, rfl, _, h₈⟩ := points_eq_cons h₇
  obtain ⟨l₉, i₉, _, L₉, rfl, rfl, _⟩ := points_eq_cons h₈
  have hsplit : ∃ early : Ledger (platform Env.standard), (∃ e ∈ early, Cancels 1 e) ∧
      ⟨.beginAttempt .simulated 1, .ok ()⟩ ∈ Ledger.history early 2 ∧
      ledger (platform Env.standard) World.fresh cancelledAwake =
        (l₁ ++ ⟨2, i₁, ⟨.finalize 1 7 1 ending, .ok true⟩⟩ :: l₂) ++
          ⟨2, i₂, ⟨.getJob 1, .ok row⟩⟩ :: (l₃ ++ ⟨2, i₃, ⟨.loadJob 1, .ok (some job)⟩⟩ ::
            (early ++ ⟨2, i₉, ⟨.claim 1 7, .ok true⟩⟩ :: L₉)) := by
    refine ⟨l₄ ++ ⟨3, i₄, d₄⟩ :: (l₅ ++ ⟨3, i₅, d₅⟩ :: (l₆ ++ ⟨3, i₆, d₆⟩ ::
      (l₇ ++ ⟨2, i₇, ⟨.beginAttempt .simulated 1, .ok ()⟩⟩ :: (l₈ ++ ⟨2, i₈, d₈⟩ :: l₉)))),
      ⟨⟨3, i₅, d₅⟩, by simp, hcancels⟩, Ledger.mem_history.mpr ⟨i₇, by simp⟩, ?_⟩
    rw [hL]
    simp only [List.append_assoc, List.cons_append]
  obtain ⟨early, hearly, hsim, hL⟩ := hsplit
  have hsome : ∃ e ∈ l₃ ++ early, Cancels 1 e := by
    obtain ⟨e, he, hcancels⟩ := hearly
    exact ⟨e, List.mem_append_right _ he, hcancels⟩
  have hfinal : (⟨2, i₁, ⟨.finalize 1 7 1 ending, .ok true⟩⟩ : Entry (platform Env.standard)) ∈
      l₁ ++ ⟨2, i₁, ⟨.finalize 1 7 1 ending, .ok true⟩⟩ :: l₂ := by simp
  exact ⟨l₃, early, hsome, i₁, ending, hL ▸ List.mem_append_left _ hfinal,
    (cancellation_honoured_iff hc hL hsim hfinal).mpr (fun _ => hearly) hsome⟩

end PosttrainPlatform
