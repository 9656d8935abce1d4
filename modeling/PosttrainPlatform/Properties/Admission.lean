import PosttrainPlatform.Properties.Backing
import PosttrainPlatform.Properties.Roles

/-!
# Jobs stay backed in every run of the platform

The contract `backing` says that jobs are backed and advance.  Its one interesting program is the
scheduler's: between its reads and the admission the job may be claimed, finished, requeued or
admitted by somebody else, and the row it goes by is only a good snapshot.
-/

namespace PosttrainPlatform

open Programs Service

/-- Jobs are backed, and everybody relies on the others to let jobs advance only. -/
def backing (env : Env) : Contract (platform env) where
  inv s := s.db.core.Backed
  rely _ s s' := s.db.core.Advance s'.db.core

variable {env : Env}

section Rules

variable {p : ℕ} {call : Call} {s : World} {α : Type}

theorem backing_keeps {op : Op} (h : op.role ≠ .reserve) : (backing env).Keeps p call op := by
  intro s i hI _
  have hcore := (perform_core env p i s op).backed hI fun j k request hop => by
    rw [hop] at h
    exact absurd rfl h
  exact ⟨hcore.1, fun _ _ => hcore.2⟩

/-- A program without admissions keeps the contract. -/
theorem safe_of_within {ρ : Role} {δ : Duty} (hρ : ρ ≠ .reserve) {prog : Service α}
    (h : prog.All (Op.Inside ρ δ)) :
    (backing env).Safe p call (fun _ _ => True) prog s := by
  refine Contract.safe_of_all (Prog.all_mono (fun op hop => backing_keeps ?_) h)
    (fun _ _ => trivial) fun _ _ => trivial
  exact hop.1.role_ne hρ (by decide) (by decide)

/-- A plain statement, and the rest of the program after it. -/
theorem safe_exec_bind {Q : Except Exn α → World → Prop} {op : Op} {f : op.Ret → Service α}
    (hop : op.role = .plain) (herr : ∀ e s, Q (.error e) s)
    (hk : ∀ s₁ i r, s.db.core.Advance s₁.db.core → s₁.db.core.Backed →
      (op.perform env p i s₁).2 = .ok r →
      (backing env).Safe p call Q (f r) (op.perform env p i s₁).1) :
    (backing env).Safe p call Q (exec op >>= f) s := by
  have hne : op.role ≠ .reserve := by
    rw [hop]
    decide
  refine Contract.Safe.perform_bind (fun s₁ i _ hI hm => backing_keeps hne s₁ i hI hm)
    (fun _ _ => trivial) (fun e s _ => herr e s) ?_
  exact fun s₁ i r hR hI _ _ hr => hk s₁ i r hR hI hr

theorem safe_refresh {j : JobId} {loaded : Option Job}
    (h : ∀ job, loaded = some job → s.db.core.SnapshotOk j job) :
    (backing env).Safe p call (fun r s => ∀ job, r = .ok job → s.db.core.SnapshotOk j job)
      (refresh j loaded) s := by
  cases loaded with
  | some job =>
      intro job' heq
      cases heq
      exact h _ rfl
  | none =>
      refine safe_exec_bind rfl (fun e s job heq => by cases heq) ?_
      intro s₁ i r _ hI hr
      cases hr
      cases hj : s₁.db.jobs.lookup j with
      | none =>
          intro job heq
          cases heq
      | some row =>
          intro job heq
          cases heq
          exact hI.snapshotOk hj

/-- The checks of the scheduler leave the snapshot good, and pass only for a waiting job. -/
theorem safe_recheck {j : JobId} {job : Job} (h : s.db.core.SnapshotOk j job) :
    (backing env).Safe p call
      (fun r s => r = .ok none → job.status = .queued ∧ s.db.core.SnapshotOk j job)
      (recheck j job) s := by
  refine safe_exec_bind rfl (fun e s heq => by cases heq) ?_
  intro s₁ i row hR _ _
  have h₁ := h.advance hR
  split
  · intro heq
    cases heq
  rename_i hpass
  have hs : job.status = .queued := by
    by_contra hne
    exact hpass (Or.inr (Or.inl hne))
  refine safe_exec_bind rfl (fun e s heq => by cases heq) ?_
  intro s₂ i now hR₂ _ _
  have h₂ := h₁.advance hR₂
  split
  · intro heq
    cases heq
  refine safe_exec_bind rfl (fun e s heq => by cases heq) ?_
  intro s₃ i reserved hR₃ _ _
  exact fun _ => ⟨hs, h₂.advance hR₃⟩

/-- **An admission on a good snapshot of a waiting job.** -/
theorem safe_reserve {j : JobId} {job : Job} {request : Resources Json}
    (hs : job.status = .queued) (h : s.db.core.SnapshotOk j job) :
    (backing env).Safe p call (fun _ _ => True) (reserve j job request) s := by
  refine Contract.Safe.perform_bind (fun s₁ i hR hI _ => ?_) (fun _ _ => trivial)
    (fun _ _ _ => trivial) ?_
  · have hcore := (perform_core env p i s₁ (.reserve j (job.attemptNumber + 1) request)).backed hI
      fun j' k' request' heq => by
        cases heq
        exact ⟨job, h.advance hR, hs, rfl⟩
    exact ⟨hcore.1, fun _ _ => hcore.2⟩
  · intro s₁ i reserved _ _ _ _ _
    cases reserved with
    | true => trivial
    | false =>
        have hρ : Role.plain ≠ .reserve := by decide
        refine safe_of_within (δ := .any) hρ
          (Prog.all_perform_bind.mpr ⟨inside_plain rfl rfl, fun cap => ?_⟩)
        exact Prog.all_bind (all_found _ _) fun reason => trivial

theorem safe_tryAdmit {j : JobId} {loaded : Option Job}
    (h : ∀ job, loaded = some job → s.db.core.SnapshotOk j job) :
    (backing env).Safe p call (fun _ _ => True) (tryAdmit env j loaded) s := by
  have hρ : Role.plain ≠ .reserve := by decide
  refine (safe_refresh h).bind (fun job s hjob => ?_) fun _ _ _ => trivial
  have hsnap := hjob job rfl
  cases resourceRequest env.settings job with
  | none => exact trivial
  | some request =>
      refine (safe_recheck hsnap).bind (fun rejected s hrej => ?_) fun _ _ _ => trivial
      cases rejected with
      | some reason => exact safe_of_within (δ := .any) hρ (all_recordDecision env j job request _)
      | none =>
          obtain ⟨hs, hsnap⟩ := hrej rfl
          refine (safe_reserve hs hsnap).bind (fun rejected s _ => ?_) fun _ _ _ => trivial
          exact safe_of_within (δ := .any) hρ (all_recordDecision env j job request _)

/-- The loop of a pass, once its objects are expired. -/
theorem safe_admitAll {items : List (JobId × Option Job)} (h : ∀ r ∈ items, r.2 = none)
    (admitted waiting : ℕ) :
    (backing env).Safe p call (fun _ _ => True) (admitAll env items admitted waiting) s := by
  induction items generalizing admitted waiting s with
  | nil => trivial
  | cons item rest ih =>
      have hrest : ∀ r ∈ rest, r.2 = none := fun r hr => h r (List.mem_cons_of_mem _ hr)
      unfold admitAll
      split
      · exact ih hrest _ _
      · refine (safe_tryAdmit fun job heq => ?_).bind (fun ok s _ => ?_) fun _ _ _ => trivial
        · rw [h item List.mem_cons_self] at heq
          cases heq
        · cases ok with
          | true => exact ih hrest _ _
          | false => exact ih hrest _ _

/-- The loop of a pass over a listing: the first object carries a good snapshot. -/
theorem safe_admitListed {candidates : List (JobId × Job)}
    (h : ∀ r ∈ candidates, s.db.core.SnapshotOk r.1 r.2) (admitted waiting : ℕ) :
    (backing env).Safe p call (fun _ _ => True)
      (admitAll env (loadedOnce candidates) admitted waiting) s := by
  cases candidates with
  | nil => trivial
  | cons first rest =>
      have hrest : ∀ r ∈ rest.map fun r => ((r.1, none) : JobId × Option Job), r.2 = none := by
        intro r hr
        obtain ⟨row, _, rfl⟩ := List.mem_map.mp hr
        rfl
      simp only [loadedOnce, admitAll]
      split
      · exact safe_admitAll hrest _ _
      · refine (safe_tryAdmit fun job heq => ?_).bind (fun ok s _ => ?_) fun _ _ _ => trivial
        · cases heq
          exact h first List.mem_cons_self
        · cases ok with
          | true => exact safe_admitAll hrest _ _
          | false => exact safe_admitAll hrest _ _

/-- The ranking returns good snapshots. -/
theorem safe_rankCandidates :
    (backing env).Safe p call
      (fun r s => ∀ ranked, r = .ok ranked → ∀ x ∈ ranked, s.db.core.SnapshotOk x.2.1 x.2.2)
      (rankCandidates env) s := by
  refine safe_exec_bind rfl (fun e s ranked heq => by cases heq) ?_
  intro s₁ i now _ _ _
  refine safe_exec_bind rfl (fun e s ranked heq => by cases heq) ?_
  intro s₂ i candidates _ hI hr ranked heq x hx
  cases hr
  cases heq
  rw [List.mem_insertionSort] at hx
  obtain ⟨row, hrow, rfl⟩ := List.mem_map.mp hx
  exact hI.snapshotOk (Table.mem_rows.mp (List.mem_filter.mp hrow).1)

theorem safe_schedulerRunOnce :
    (backing env).Safe p call (fun _ _ => True) (schedulerRunOnce env) s := by
  refine safe_rankCandidates.bind (fun ranked s h => ?_) fun _ _ _ => trivial
  refine safe_admitListed (fun row hrow => ?_) 0 0
  obtain ⟨x, hx, rfl⟩ := List.mem_map.mp hrow
  exact h ranked rfl x hx

end Rules

/-! ### Every run -/

theorem Core.Backed.heartbeat {c : Core} (h : c.Backed) {j : JobId} {job : Job} {w : WorkerId}
    {k : ℕ} {t : Time} (hj : c.jobs.lookup j = some job) (hown : job.OwnedBy w k) :
    (c.putJob j { job with leaseExpiresAt := some t }).Backed ∧
      c.Advance (c.putJob j { job with leaseExpiresAt := some t }) := by
  have hb := h.job j job hj
  refine h.putJob hj ⟨hb.granted, hb.bounded, hb.recent, hb.exclusive, hb.waiting, hb.live,
    hb.leaseOk, fun _ => ?_⟩ (le_refl _)
  have howner : job.leaseOwner = some w := hown.2.1
  simp [howner]

theorem backing_beat (s : World) (p : ℕ) (now : Time) (h : s.db.core.Backed) :
    (s.beat env p now).db.core.Backed ∧ s.db.core.Advance (s.beat env p now).db.core := by
  obtain heq | ⟨j, job, w, k, t, hj, hown, heq⟩ := beat_core env s p now
  · rw [heq]
    exact ⟨h, .refl _⟩
  · rw [heq]
    exact h.heartbeat hj hown

/-- **The platform keeps the contract.** -/
theorem backing_sound (env : Env) : (backing env).Sound where
  rely_refl _ _ := .refl _
  rely_trans _ _ _ _ h h' := h.trans h'
  ambient a s h := by
    obtain ⟨hb, hadv⟩ := backing_beat s a.1 a.2 h
    exact ⟨hb, fun _ => hadv⟩
  halt _ s h := ⟨h, fun _ _ => .refl _⟩
  idle_stable _ _ _ _ _ := trivial
  post_stable _ _ _ _ _ _ _ _ := trivial
  safe p call s _ _ _ := by
    by_cases hrole : call.role = .reserve
    · cases call with
      | schedulerRunOnce =>
          exact safe_schedulerRunOnce.bind (fun _ _ _ => trivial) fun _ _ _ => trivial
      | _ => simp [Call.role] at hrole
    · exact safe_of_within hrole (inside_program env call)

theorem World.Initial.backed {s : World} (h : s.Initial) : s.db.core.Backed := by
  have hdb := h.db
  refine ⟨fun j job hj => ?_, fun j _ k => ?_⟩
  · rw [hdb] at hj
    cases hj
  · rw [hdb]
    rfl

theorem backing_start {s : World} (h : s.Initial) :
    (backing env).Valid ({ shared := s } : System env) :=
  Contract.valid_of_unstarted h.backed fun _ => trivial

/-- The contract covers every run. -/
theorem backing_allows (c : System env) (es : List (SysEvent env)) :
    Runs.Always Config.step (backing env).Allows c es :=
  Runs.always_of_forall (Contract.allows_of_forall (fun _ => trivial) (fun _ _ _ => trivial)
    fun _ _ => trivial) c es

/-- **In every reachable configuration jobs are backed.** -/
theorem backed_of_reaches {s : World} {es : List (SysEvent env)} {c : System env}
    (h : Reaches s es c) : c.shared.db.core.Backed :=
  (Contract.valid_run (backing_sound env) (backing_start h.1) (backing_allows _ _) h.2).1

/-- **Invariants of the core in runs whose statements meet a condition.**  The step lemma is about
one statement, and may use that jobs are backed; a heartbeat only moves a lease. -/
theorem core_invariant_of_reaches {K : Core → Prop} {φ : Op → Input → Core → Prop}
    (hstep : ∀ c c' i op, c.Backed → K c → φ op i c → CoreStep env c i op c' → K c')
    (hbeat : ∀ (c : Core) j job w k t, K c → c.jobs.lookup j = some job → job.OwnedBy w k →
      K (c.putJob j { job with leaseExpiresAt := some t }))
    {s : World} {es : List (SysEvent env)} {c : System env} (h : Reaches s es c)
    (h0 : K s.db.core)
    (hφ : Runs.Always Config.step (Meets fun op i db => φ op i db.core) ({ shared := s } : System env)
      es) : K c.shared.db.core := by
  refine Contract.invariant_run (K := fun s => K s.db.core) (backing_sound env) ?_ ?_ ?_
    (backing_start h.1) h0 (backing_allows _ _) hφ h.2
  · exact fun p i call op s hb hK hop => hstep _ _ i op hb hK hop (perform_core env p i s op)
  · exact fun p s hK => hK
  · intro a s _ hK
    obtain heq | ⟨j, job, w, k, t, hj, hown, heq⟩ := beat_core env s a.1 a.2
    · simpa only [platform, heq] using hK
    · simpa only [platform, heq] using hbeat _ j job w k t hK hj hown

end PosttrainPlatform
