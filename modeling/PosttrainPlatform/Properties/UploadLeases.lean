import PosttrainPlatform.Lib.Ledger
import PosttrainPlatform.Properties.Backoff
import PosttrainPlatform.Properties.Past
import PosttrainPlatform.Properties.Records
import PosttrainPlatform.Properties.Roles

/-!
# Upload leases

An uploader holds a lease on the pending artifact, the sweep acts on artifacts whose lease it has
found lapsed, and a later claim is meant to shut an earlier upload out.  What the rows say of leases
and uploaders is what the last claim or renewal has left there, so both laws are read off the ledger
of the run.
-/

namespace PosttrainPlatform

open Programs Service

/-! ### Statements that lease an artifact -/

/-- The artifact whose upload lease a statement has taken or renewed. -/
def leased : Done Op Op.Ret Exn → Option ArtifactId
  | ⟨.claimUploadLease a _, .ok (some _)⟩ => some a
  | ⟨.renewUploadLease a _, .ok (some _)⟩ => some a
  | _ => none

/-- The artifact that a statement has claimed, and for whom. -/
def claimed : Done Op Op.Ret Exn → Option (ArtifactId × WorkerId)
  | ⟨.claimUploadLease a u, .ok (some _)⟩ => some (a, u)
  | _ => none

/-- The time of the last claim or renewal of the artifact. -/
def lastLease {env : Env} (a : ArtifactId) (L : Ledger (platform env)) : Option Time :=
  L.findSome? fun e => if leased e.done = some a then e.input.map Input.now else none

/-- The uploader of the last claim of the artifact. -/
def lastClaimer {env : Env} (a : ArtifactId) (L : Ledger (platform env)) : Option WorkerId :=
  L.findSome? fun e =>
    match claimed e.done with
    | some (a', u) => if a' = a then some u else none
    | none => none

/-- The listing of the abandoned uploads. -/
def Op.isListing : Op → Bool
  | .listReconcilable => true
  | _ => false

/-- What has been executed since thread `p` listed the abandoned uploads. -/
def sinceListing {env : Env} (p : ℕ) (L : Ledger (platform env)) : Ledger (platform env) :=
  L.takeWhile fun e => e.thread != p || !e.done.1.isListing

/-! ### What statements make of artifacts -/

/-- What an executed statement makes of an artifact that exists. -/
inductive ArtifactMove (env : Env) (i : Input) (a : ArtifactId) (row : Artifact) :
    Done Op Op.Ret Exn → Artifact → Prop
  | idle {d : Done Op Op.Ret Exn} (hleased : leased d ≠ some a)
      (hclaimed : ∀ u, claimed d ≠ some (a, u)) : ArtifactMove env i a row d row
  | claim {u : WorkerId} {r : Artifact} : ArtifactMove env i a row
      ⟨.claimUploadLease a u, .ok (some r)⟩
      { row with
        uploaderId := some u
        uploadLeaseExpiresAt := some (i.now + env.settings.uploadLeaseDurationSeconds) }
  | renew {u : WorkerId} {r : Artifact} : ArtifactMove env i a row
      ⟨.renewUploadLease a u, .ok (some r)⟩
      { row with
        uploadLeaseExpiresAt := some (i.now + env.settings.uploadLeaseDurationSeconds) }
  | settle {d : Done Op Op.Ret Exn} {status : ArtifactStatus} (hne : status ≠ .pending)
      (hclaimed : ∀ u, claimed d ≠ some (a, u)) :
      ArtifactMove env i a row d { row with status, uploadLeaseExpiresAt := none }

section Moves

variable {env : Env} {p : ℕ} {i : Input} {s : World} {a : ArtifactId} {row : Artifact}

/-- An artifact that no update has in view stays as it is. -/
theorem perform_artifact_of_unsettled {op : Op} (hop : op.settles = none)
    (hrow : s.db.artifacts.lookup a = some row) :
    (op.perform env p i s).1.db.artifacts.lookup a = some row := by
  show (op.perform env p i s).1.db.records.artifacts.lookup a = some row
  have hstep := perform_records env p i s op
  generalize (op.perform env p i s).1.db.records = c at hstep
  cases hstep with
  | @createPending _ b hfree =>
      have hne : a ≠ b := by
        intro h
        rw [← h, hrow] at hfree
        cases hfree
      exact (AList.lookup_insert_ne hne).trans hrow
  | artifact hold hpending hhash hsettles =>
      rw [hop] at hsettles
      cases hsettles
  | _ => exact hrow

/-- An update of one artifact, seen from another. -/
theorem updateWhere_lookup_ne (db : Db) {b : ArtifactId} (cond : Artifact → Prop)
    [DecidablePred cond] (set : Artifact → Artifact) (hne : a ≠ b) :
    (ArtifactsRepo.updateWhere db b cond set).1.artifacts.lookup a = db.artifacts.lookup a := by
  obtain ⟨row, hrow, _, h⟩ | ⟨_, h⟩ := updateWhere_cases db b cond set
  · rw [h]
    exact AList.lookup_insert_ne hne
  · rw [h]

/-- **One statement, seen from an artifact.** -/
theorem perform_artifact (op : Op) (hrow : s.db.artifacts.lookup a = some row) :
    ∃ row', (op.perform env p i s).1.db.artifacts.lookup a = some row' ∧
      ArtifactMove env i a row ⟨op, (op.perform env p i s).2⟩ row' := by
  by_cases hsettles : op.settles = none
  · refine ⟨row, perform_artifact_of_unsettled hsettles hrow, .idle ?_ fun u => ?_⟩ <;>
      cases op <;> simp [Op.settles, leased, claimed] at hsettles ⊢
  -- an update of another artifact, or one that matches nothing, leaves this one alone
  have hupdate : ∀ {b : ArtifactId} {cond : Artifact → Prop} [DecidablePred cond]
      {set : Artifact → Artifact} {d : Done Op Op.Ret Exn},
      (ArtifactsRepo.updateWhere s.db b cond set).2 = none ∨ b ≠ a →
        ArtifactMove env i a row d row →
          ∃ row', (ArtifactsRepo.updateWhere s.db b cond set).1.artifacts.lookup a = some row' ∧
            ArtifactMove env i a row d row' := by
    intro b cond _ set d hb hmove
    refine ⟨row, ?_, hmove⟩
    obtain hnone | hne := hb
    · obtain ⟨row', _, _, h⟩ | ⟨_, h⟩ := updateWhere_cases s.db b cond set
      · rw [h] at hnone
        cases hnone
      · rw [h]
        exact hrow
    · exact (updateWhere_lookup_ne s.db cond set (Ne.symm hne)).trans hrow
  have hhit : ∀ {b : ArtifactId} {cond : Artifact → Prop} [DecidablePred cond]
      {set : Artifact → Artifact}, b = a →
      (∃ r, (ArtifactsRepo.updateWhere s.db b cond set).2 = some r) →
        (ArtifactsRepo.updateWhere s.db b cond set).1.artifacts.lookup a = some (set row) := by
    intro b cond _ set hb hsome
    subst hb
    obtain ⟨row', hrow', _, h⟩ | ⟨_, h⟩ := updateWhere_cases s.db b cond set
    · rw [hrow] at hrow'
      cases hrow'
      rw [h]
      exact AList.lookup_insert _
    · rw [h] at hsome
      obtain ⟨r, hr⟩ := hsome
      cases hr
  cases op <;> simp [Op.settles] at hsettles
  case claimUploadLease b u =>
      simp only [Op.perform, World.write]
      cases hr : (ArtifactsRepo.claimUploadLease s.db b u i.now
          env.settings.uploadLeaseDurationSeconds).2 with
      | none => exact hupdate (Or.inl hr) (.idle (by simp [leased]) (by simp [claimed]))
      | some r =>
          by_cases hb : b = a
          · subst hb
            exact ⟨_, hhit rfl ⟨r, hr⟩, .claim⟩
          · exact hupdate (Or.inr hb) (.idle (by simp [leased, hb]) (by simp [claimed, hb]))
  case renewUploadLease b u =>
      simp only [Op.perform, World.write]
      cases hr : (ArtifactsRepo.renewUploadLease s.db b u i.now
          env.settings.uploadLeaseDurationSeconds).2 with
      | none => exact hupdate (Or.inl hr) (.idle (by simp [leased]) (by simp [claimed]))
      | some r =>
          by_cases hb : b = a
          · subst hb
            exact ⟨_, hhit rfl ⟨r, hr⟩, .renew⟩
          · exact hupdate (Or.inr hb) (.idle (by simp [leased, hb]) (by simp [claimed]))
  case markUploaded b u =>
      simp only [Op.perform, World.write]
      cases hr : (ArtifactsRepo.markUploaded s.db b u).2 with
      | none => exact hupdate (Or.inl hr) (.idle (by simp [leased]) (by simp [claimed]))
      | some r =>
          by_cases hb : b = a
          · subst hb
            exact ⟨_, hhit rfl ⟨r, hr⟩, .settle (by decide) (by simp [claimed])⟩
          · exact hupdate (Or.inr hb) (.idle (by simp [leased]) (by simp [claimed]))
  case reconcileToUploaded b =>
      simp only [Op.perform, World.write]
      cases hr : (ArtifactsRepo.reconcileToUploaded s.db b).2 with
      | none => exact hupdate (Or.inl hr) (.idle (by simp [leased]) (by simp [claimed]))
      | some r =>
          by_cases hb : b = a
          · subst hb
            exact ⟨_, hhit rfl ⟨r, hr⟩, .settle (by decide) (by simp [claimed])⟩
          · exact hupdate (Or.inr hb) (.idle (by simp [leased]) (by simp [claimed]))
  case reconcileToFailed b =>
      simp only [Op.perform, World.write]
      cases hr : (ArtifactsRepo.reconcileToFailed s.db b).2 with
      | none => exact hupdate (Or.inl hr) (.idle (by simp [leased]) (by simp [claimed]))
      | some r =>
          by_cases hb : b = a
          · subst hb
            exact ⟨_, hhit rfl ⟨r, hr⟩, .settle (by decide) (by simp [claimed])⟩
          · exact hupdate (Or.inr hb) (.idle (by simp [leased]) (by simp [claimed]))

end Moves

/-! ### What the sweep has listed -/

/-- The artifact that the sweep acts on by the statement. -/
def Op.sweeps : Op → Option ArtifactId
  | .reconcileToUploaded a | .reconcileToFailed a => some a
  | _ => none

/-- The last listing of the call has the artifact. -/
def Past.Lists (h : Past) (a : ArtifactId) : Prop :=
  ∃ newer rows older row, h = newer ++ ⟨.listReconcilable, .ok rows⟩ :: older ∧
    (∀ d ∈ newer, d.1.isListing = false) ∧ (a, row) ∈ rows

/-- The sweep acts on what it has listed. -/
def Past.Sweeps (h : Past) (op : Op) : Prop := ∀ a, op.sweeps = some a → h.Lists a

theorem Past.Lists.cons {h : Past} {a : ArtifactId} (hh : h.Lists a) {d : Done Op Op.Ret Exn}
    (hd : d.1.isListing = false) : Past.Lists (d :: h) a := by
  obtain ⟨newer, rows, older, row, rfl, hnewer, hmem⟩ := hh
  refine ⟨d :: newer, rows, older, row, rfl, ?_, hmem⟩
  intro e he
  obtain rfl | he := List.mem_cons.mp he
  · exact hd
  · exact hnewer e he

/-- Only the sweep acts on what it has listed. -/
theorem unswept_of_inside {ρ : Role} {δ : Duty} {op : Op} (hop : op.Inside ρ δ)
    (hρ : ρ ≠ .registry) : op.sweeps = none := by
  have hrole : op.role ≠ .registry := hop.1.role_ne hρ (by decide) (by decide)
  cases op <;> simp [Op.role] at hrole <;> rfl

/-- The loop of the sweep keeps to its listing. -/
theorem sweeps_reconcileAll (rows : List (ArtifactId × Artifact)) (healed failed : ℕ) {h : Past}
    (hrows : ∀ r ∈ rows, h.Lists r.1) :
    (reconcileAll rows healed failed).Justified Past.Sweeps h fun _ _ => True := by
  induction rows generalizing h healed failed with
  | nil => trivial
  | cons item rest ih =>
      obtain ⟨a, row⟩ := item
      refine Prog.justified_bind (Q := fun _ m => ∀ r ∈ (a, row) :: rest, Past.Lists m r.1) ?_
        (fun counts m hm => ih _ _ fun r hr => hm r (List.mem_cons_of_mem _ hr))
        fun _ _ _ => trivial
      -- every statement of the round is one of the sweep's own, or none, and no listing
      have hall : (reconcile a row).All fun op =>
          (op.sweeps = none ∨ op.sweeps = some a) ∧ op.isListing = false := by
        refine Prog.all_bind (all_objectExistsWithHash ⟨Or.inl rfl, rfl⟩) fun intact => ?_
        cases intact with
        | true =>
            refine Prog.all_perform_bind.mpr ⟨⟨Or.inl rfl, rfl⟩, fun size => ?_⟩
            exact Prog.all_perform_bind.mpr ⟨⟨Or.inr rfl, rfl⟩, fun result => trivial⟩
        | false => exact Prog.all_perform_bind.mpr ⟨⟨Or.inr rfl, rfl⟩, fun result => trivial⟩
      refine (Prog.justified_of_all
        (I := fun m : Past => ∀ r ∈ (a, row) :: rest, Past.Lists m r.1) ?_ hall hrows).mono
          fun _ _ hm => hm
      intro m op hm hop
      refine ⟨fun b hb => ?_, fun _ r hr => (hm r hr).cons hop.2⟩
      obtain hnone | hsome := hop.1
      · rw [hnone] at hb
        cases hb
      · rw [hsome, Option.some.injEq] at hb
        subst hb
        exact hm _ List.mem_cons_self

/-- **Every call keeps to what it has listed.** -/
theorem sweeps_program (env : Env) (call : Call) :
    (call.program env).Justified Past.Sweeps [] fun _ _ => True := by
  have hunswept : ∀ {α : Type} {prog : Service α}, (prog.All fun op => op.sweeps = none) →
      prog.Justified Past.Sweeps [] fun _ _ => True := by
    intro α prog hprog
    refine (Prog.justified_of_all (I := fun _ => True) ?_ hprog trivial).mono fun _ _ _ => trivial
    intro m op _ hop
    refine ⟨fun a ha => ?_, fun _ => trivial⟩
    rw [hop] at ha
    cases ha
  have hupload : ∀ data uploader, (uploadArtifact env data uploader).All
      fun op => op.sweeps = none := fun data uploader =>
    Prog.all_mono (fun op hop => unswept_of_inside hop (by decide))
      (all_uploadArtifact (δ := .any) env data uploader)
  cases call with
  | reconcileOnce =>
      have hsweep : reconcilePendingArtifacts.Justified Past.Sweeps [] fun _ _ => True := by
        refine ⟨fun a ha => (by cases ha), fun answer => ?_⟩
        cases answer with
        | error e => trivial
        | ok rows =>
            refine sweeps_reconcileAll rows 0 0 fun r hr => ?_
            exact ⟨[], rows, [], r.2, rfl, fun d hd => (by cases hd), hr⟩
      exact Prog.justified_bind hsweep (fun _ _ _ => trivial) fun _ _ _ => trivial
  | createDatasetVersion d data uploader =>
      refine hunswept (Prog.all_bind ?_ fun _ => trivial)
      refine Prog.all_perform_bind.mpr ⟨rfl, fun known => ?_⟩
      refine Prog.all_bind (all_check _ _) fun _ => ?_
      refine Prog.all_bind (hupload data uploader) fun uploaded => ?_
      refine Prog.all_bind (all_check _ _) fun _ => ?_
      refine Prog.all_perform_bind.mpr ⟨rfl, fun n => ?_⟩
      exact Prog.all_perform_bind.mpr ⟨rfl, fun _ => trivial⟩
  | registerVersion m a runId =>
      refine hunswept (Prog.all_bind ?_ fun _ => trivial)
      refine Prog.all_perform_bind.mpr ⟨rfl, fun known => ?_⟩
      refine Prog.all_bind (all_check _ _) fun _ => ?_
      refine Prog.all_perform_bind.mpr ⟨rfl, fun artifact => ?_⟩
      refine Prog.all_bind (all_found _ _) fun artifact => ?_
      refine Prog.all_bind (all_check _ _) fun _ => ?_
      refine Prog.all_perform_bind.mpr ⟨rfl, fun existing => ?_⟩
      refine Prog.all_bind (all_check _ _) fun _ => ?_
      refine Prog.all_perform_bind.mpr ⟨rfl, fun n => ?_⟩
      exact Prog.all_perform_bind.mpr ⟨rfl, fun _ => trivial⟩
  | createJob | createTrainingRun | createEvaluation | updateJob | cancelJob | deleteJob
  | schedulerRunOnce | recoveryRunOnce | relayOnce | processJobMessage | workerRunOnce
  | uploadArtifact | renewUploadLease | createDataset | createModel | evaluateQualityGate =>
      exact hunswept (Prog.all_mono (fun op hop => unswept_of_inside hop (by simp [Call.role]))
        (inside_program env _))

/-! ### The sweep and the leases -/

/-- What the ledger tells of a listed artifact that is still PENDING: it is abandoned as of the
listing, or was claimed or renewed since then. -/
structure SweepKnows (env : Env) (s : World) (L : Ledger (platform env)) : Prop where
  listed : ∀ newer p i rows older, L = newer ++ ⟨p, some i, ⟨.listReconcilable, .ok rows⟩⟩ :: older →
    ∀ a row₀, (a, row₀) ∈ rows → ∃ row, s.db.artifacts.lookup a = some row ∧
      (row.status = .pending →
        (lastLease a newer = none → ArtifactsRepo.Abandoned row i.now
          env.settings.artifactPendingGracePeriodSeconds) ∧
        ∀ t, lastLease a newer = some t →
          row.uploadLeaseExpiresAt = some (t + env.settings.uploadLeaseDurationSeconds))

section Sweep

variable {env : Env} {a : ArtifactId} {L : Ledger (platform env)}

theorem lastLease_cons_of_ne {e : Entry (platform env)} (he : leased e.done ≠ some a) :
    lastLease a (e :: L) = lastLease a L := by
  simp [lastLease, he]

theorem lastLease_cons_of_eq {p : ℕ} {i : Input} {d : Done Op Op.Ret Exn}
    (hd : leased d = some a) : lastLease a (⟨p, some i, d⟩ :: L) = some i.now := by
  simp [lastLease, hd]

/-- The sweep's knowledge of one row, after a move of the row. -/
theorem ArtifactMove.known {i i₀ : Input} {p : ℕ} {row row' : Artifact} {d : Done Op Op.Ret Exn}
    (hmove : ArtifactMove env i a row d row')
    (hrow : row.status = .pending →
      (lastLease a L = none → ArtifactsRepo.Abandoned row i₀.now
        env.settings.artifactPendingGracePeriodSeconds) ∧
      ∀ t, lastLease a L = some t →
        row.uploadLeaseExpiresAt = some (t + env.settings.uploadLeaseDurationSeconds))
    (hpending : row'.status = .pending) :
    (lastLease a (⟨p, some i, d⟩ :: L) = none → ArtifactsRepo.Abandoned row' i₀.now
        env.settings.artifactPendingGracePeriodSeconds) ∧
      ∀ t, lastLease a (⟨p, some i, d⟩ :: L) = some t →
        row'.uploadLeaseExpiresAt = some (t + env.settings.uploadLeaseDurationSeconds) := by
  cases hmove with
  | idle hleased =>
      rw [lastLease_cons_of_ne hleased]
      exact hrow hpending
  | claim =>
      rw [lastLease_cons_of_eq rfl]
      exact ⟨fun h => (by cases h), fun t ht => by rw [← Option.some.inj ht]⟩
  | renew =>
      rw [lastLease_cons_of_eq rfl]
      exact ⟨fun h => (by cases h), fun t ht => by rw [← Option.some.inj ht]⟩
  | settle hne => exact absurd hpending hne

theorem sweepKnows_invariant (env : Env) :
    LedgerInvariant (M := platform env) Past.Sweeps (SweepKnows env) where
  perform p i call op s L hJ hop := by
    refine ⟨fun newer q i₀ rows older hL b row₀ hmem => ?_⟩
    cases newer with
    | nil =>
        obtain ⟨hentry, rfl⟩ := List.cons.inj hL
        obtain ⟨rfl, hi, hdone⟩ := Entry.mk.inj hentry
        cases Option.some.inj hi
        obtain ⟨rfl, hr⟩ := Sigma.mk.inj hdone
        have hrows : rows = ArtifactsRepo.listReconcilable s.db i.now
            env.settings.artifactPendingGracePeriodSeconds := (Except.ok.inj (eq_of_heq hr)).symm
        rw [hrows] at hmem
        obtain ⟨hin, habandoned⟩ := List.mem_filter.mp hmem
        refine ⟨row₀, Table.mem_rows.mp hin, fun _ => ⟨fun _ => of_decide_eq_true habandoned, ?_⟩⟩
        intro t ht
        cases ht
    | cons e newer =>
        obtain ⟨rfl, hrest⟩ := List.cons.inj hL
        obtain ⟨row, hrow, hknown⟩ := hJ.listed newer q i₀ rows older hrest b row₀ hmem
        obtain ⟨row', hrow', hmove⟩ := @perform_artifact env p i s _ _ op hrow
        exact ⟨row', hrow', hmove.known hknown⟩
  fault p e op s L hJ hop := by
    refine ⟨fun newer q i₀ rows older hL b row₀ hmem => ?_⟩
    cases newer with
    | nil =>
        obtain ⟨hentry, _⟩ := List.cons.inj hL
        obtain ⟨_, hi, _⟩ := Entry.mk.inj hentry
        cases hi
    | cons e' newer =>
        obtain ⟨rfl, hrest⟩ := List.cons.inj hL
        have hquiet : leased (⟨op, .error e⟩ : Done Op Op.Ret Exn) ≠ some b := by
          cases op <;> simp [leased]
        rw [lastLease_cons_of_ne hquiet]
        exact hJ.listed newer q i₀ rows older hrest b row₀ hmem
  halt p s L hJ := ⟨hJ.listed⟩
  ambient b s L hJ := by
    refine ⟨fun newer q i₀ rows older hL a row₀ hmem => ?_⟩
    have hframe : (s.beat env b.1 b.2).db.artifacts = s.db.artifacts := by
      rw [beat_frame]
    show ∃ row, (s.beat env b.1 b.2).db.artifacts.lookup a = some row ∧ _
    rw [hframe]
    exact hJ.listed newer q i₀ rows older hL a row₀ hmem

/-- The part of the ledger that is newer than the last listing of a thread. -/
theorem sinceListing_eq {p : ℕ} {i : Option Input} {new old : Ledger (platform env)}
    {d : Done Op Op.Ret Exn} (hnew : ∀ e ∈ Ledger.history new p, e.1.isListing = false)
    (hd : d.1.isListing = true) : sinceListing p (new ++ ⟨p, i, d⟩ :: old) = new := by
  unfold sinceListing
  have hall : ∀ e ∈ new, (e.thread != p || !e.done.1.isListing) = true := by
    intro e he
    by_cases hp : e.thread = p
    · have hmem : e.done ∈ Ledger.history new p :=
        Ledger.mem_history.mpr ⟨e.input, by rw [← hp]; exact he⟩
      simp [hnew e.done hmem]
    · simp [hp]
  rw [List.takeWhile_append_of_pos hall, List.takeWhile_cons_of_neg (by simp [hd]),
    List.append_nil]

/-- A clock reading of the run is no later than that of the next event. -/
theorem now_le_of_entry {s : World} {es : List (SysEvent env)} {c : System env} {p : ℕ} {i : Input}
    (hrun : Runs.runFrom Config.step ({ shared := s } : System env) es = some c)
    (hclock : MonotoneClock (es ++ [.step p i])) {e : Entry (platform env)}
    (he : e ∈ ledger (platform env) s es) {i₀ : Input} (hi : e.input = some i₀) :
    i₀.now ≤ i.now := by
  have hstep := step_of_entry hrun he hi
  unfold MonotoneClock at hclock
  rw [List.filterMap_append] at hclock
  have hreading : i₀.now ∈ es.filterMap clockReading := List.mem_filterMap.mpr ⟨_, hstep, rfl⟩
  exact (List.pairwise_append.mp hclock).2.2 i₀.now hreading i.now List.mem_cons_self

theorem sweepKnows_of_reaches {s : World} {es : List (SysEvent env)} {c : System env}
    (h : Reaches s es c) : SweepKnows env c.shared (ledger (platform env) s es) := by
  refine (sweepKnows_invariant env).run (sweeps_program env) ⟨?_⟩ h.2
  intro newer p i rows older hL
  simp at hL

/-- **The reconciler acts on a lapsed lease exactly if the last claim or renewal of the row since its
listing, if there is one, has lapsed as well.** -/
theorem sweep_finds_lapsed_iff {s : World} {es : List (SysEvent env)} {c : System env} {p : ℕ}
    {i : Input} {call : Call} {op : Op} {k : Except Exn op.Ret → Service Reply} {row : Artifact}
    (h : Reaches s es c) (hclock : MonotoneClock (es ++ [.step p i])) (hat : c.AtOp p call op k)
    (hop : op = .reconcileToUploaded a ∨ op = .reconcileToFailed a)
    (hrow : c.shared.db.artifacts.lookup a = some row) (hpending : row.status = .pending) :
    ((row.uploadLeaseExpiresAt = none ∧
        row.createdAt < i.now - env.settings.artifactPendingGracePeriodSeconds) ∨
      ∃ t ∈ row.uploadLeaseExpiresAt, t < i.now) ↔
    ∀ t ∈ lastLease a (sinceListing p (ledger (platform env) s es)),
      t + env.settings.uploadLeaseDurationSeconds < i.now := by
  have hlists : Past.Lists ((ledger (platform env) s es).history p) a := by
    rw [history_ledger h.2 p]
    refine ((disciplined_of_run (sweeps_program env) h.2).justified hat).1 a ?_
    obtain rfl | rfl := hop <;> rfl
  obtain ⟨newer, rows, older, row₀, hhistory, hnewer, hmem⟩ := hlists
  obtain ⟨new, old, i₀, hL, hnew, _⟩ := Ledger.split_history hhistory
  obtain ⟨i₁, rfl⟩ : ∃ i₁, i₀ = some i₁ := by
    obtain ⟨fs, ev, gs, m, m', _, _, hstep, hentry, _⟩ := moment_of_entry h.2 hL
    obtain ⟨i₁, _, _, _, hi, _⟩ := Config.entry_eq_some_ok hstep hentry
    exact ⟨i₁, hi⟩
  have hsince : sinceListing p (ledger (platform env) s es) = new := by
    rw [hL]
    exact sinceListing_eq (hnew ▸ hnewer) rfl
  obtain ⟨row', hrow', hknown⟩ := (sweepKnows_of_reaches h).listed new p i₁ rows old hL a row₀ hmem
  rw [hrow] at hrow'
  cases hrow'
  obtain ⟨hnone, hsome⟩ := hknown hpending
  have hlisting : (⟨p, some i₁, ⟨.listReconcilable, .ok rows⟩⟩ : Entry (platform env)) ∈
      ledger (platform env) s es := by
    rw [hL]
    simp
  have hnow : i₁.now ≤ i.now := now_le_of_entry h.2 hclock hlisting rfl
  rw [hsince]
  cases hlast : lastLease a new with
  | none =>
      refine iff_of_true ?_ fun t ht => by cases ht
      obtain ⟨_, ⟨hlease, hcreated⟩ | ⟨t, ht, hlapsed⟩⟩ := hnone hlast
      · exact Or.inl ⟨hlease, by linarith⟩
      · exact Or.inr ⟨t, ht, lt_of_lt_of_le hlapsed hnow⟩
  | some t =>
      rw [hsome t hlast]
      simp

end Sweep

/-- A lapsed upload is listed by the sweep, claimed again, and then swept all the same. -/
def claimedInBetween : List (SysEvent Env.standard) :=
  session 0 (.uploadArtifact [1, 2] 7) 2 { uuid := 1 } ++
    session 1 .reconcileOnce 2 { now := 1000 } ++
    session 2 (.uploadArtifact [1, 2] 8) 2 { now := 1000 }

/-- **The reconciler fails a row under a live upload lease.** -/
theorem live_upload_swept : ∃ c : System Env.standard, Reaches World.fresh claimedInBetween c ∧
    MonotoneClock (claimedInBetween ++ [.step 1 { now := 1000 }]) ∧
    (∃ row ∈ c.shared.db.artifacts.lookup 1, row.status = .pending ∧
      row.uploadLeaseExpiresAt = some 1060) ∧
    ∃ c' ∈ c.step (.step 1 { now := 1000 }), ∃ row ∈ c'.shared.db.artifacts.lookup 1,
      row.status = .failed :=
  exists_reaches World.fresh_initial _ (by decide +kernel)

/-- An upload that nobody claims again is lapsed when the sweep acts on it. -/
theorem abandoned_upload_swept : ∃ c : System Env.standard, ∃ row,
    c.shared.db.artifacts.lookup 1 = some row ∧
      ((row.uploadLeaseExpiresAt = none ∧ row.createdAt < 1000 - 300) ∨
        ∃ t ∈ row.uploadLeaseExpiresAt, t < 1000) := by
  obtain ⟨c, hc, hp, row, hrow, hs⟩ := exists_reaches World.fresh_initial
    (session 0 (.uploadArtifact [1, 2] 7) 3 { uuid := 1 } ++
      session 1 .reconcileOnce 2 { now := 1000 })
    (P := fun c : System .standard => (∃ op ∈ c.pending 1, op.sweeps = some 1) ∧
      ∃ row ∈ c.shared.db.artifacts.lookup 1, row.status = .pending) (by decide +kernel)
  obtain ⟨op, hop, hsweeps⟩ := hp
  obtain ⟨call, k, hat⟩ := Config.pending_eq_some.mp hop
  refine ⟨c, row, hrow, (sweep_finds_lapsed_iff (i := { now := 1000 }) hc (by decide +kernel) hat
    ?_ hrow hs).mpr (by decide +kernel)⟩
  cases op <;> simp_all [Op.sweeps]

/-! ### A superseded upload -/

/-- The uploader of an artifact is the one that has claimed it last. -/
def ClaimedLast (env : Env) (s : World) (L : Ledger (platform env)) : Prop :=
  ∀ a u, lastClaimer a L = some u →
    ∃ row, s.db.artifacts.lookup a = some row ∧ row.uploaderId = some u

section Claims

variable {env : Env} {a : ArtifactId} {L : Ledger (platform env)}

theorem lastClaimer_cons_of_ne {e : Entry (platform env)}
    (he : ∀ u, claimed e.done ≠ some (a, u)) : lastClaimer a (e :: L) = lastClaimer a L := by
  unfold lastClaimer
  rw [List.findSome?_cons]
  cases hc : claimed e.done with
  | none => rfl
  | some b =>
      obtain ⟨b, u⟩ := b
      have hne : b ≠ a := by
        intro hb
        subst hb
        exact he u hc
      simp [hne]

theorem lastClaimer_cons_of_eq {p : ℕ} {i : Option Input} {d : Done Op Op.Ret Exn} {u : WorkerId}
    (hd : claimed d = some (a, u)) : lastClaimer a (⟨p, i, d⟩ :: L) = some u := by
  simp [lastClaimer, hd]

theorem claimed_eq_some {d : Done Op Op.Ret Exn} {u : WorkerId} (hd : claimed d = some (a, u)) :
    ∃ r, d = ⟨.claimUploadLease a u, .ok (some r)⟩ := by
  unfold claimed at hd
  split at hd
  · cases hd
    exact ⟨_, rfl⟩
  · cases hd

/-- A claim creates no artifact. -/
theorem exists_of_claimed {p : ℕ} {i : Input} {s : World} {op : Op} {u : WorkerId}
    (hop : claimed ⟨op, (op.perform env p i s).2⟩ = some (a, u)) :
    ∃ row, s.db.artifacts.lookup a = some row := by
  obtain ⟨r, hd⟩ := claimed_eq_some hop
  obtain ⟨rfl, hr⟩ := Sigma.mk.inj hd
  obtain ⟨row, hrow, _⟩ | ⟨_, hnone⟩ := updateWhere_cases s.db a
    (fun row => row.status = .pending ∧ ∀ t ∈ row.uploadLeaseExpiresAt, t < i.now) fun row =>
      { row with
        uploaderId := some u
        uploadLeaseExpiresAt := some (i.now + env.settings.uploadLeaseDurationSeconds) }
  · exact ⟨row, hrow⟩
  · have hr := eq_of_heq hr
    simp only [Op.perform, World.write, ArtifactsRepo.claimUploadLease, hnone] at hr
    cases hr

theorem claimedLast_invariant (env : Env) :
    LedgerInvariant (M := platform env) Past.Sweeps (ClaimedLast env) where
  perform p i call op s L hJ hop := by
    intro a u hlast
    have hold : lastClaimer a L = some u ∨
        ∃ row, s.db.artifacts.lookup a = some row := by
      by_cases hclaimed : ∃ w, claimed ⟨op, (op.perform env p i s).2⟩ = some (a, w)
      · obtain ⟨w, hw⟩ := hclaimed
        exact Or.inr (exists_of_claimed hw)
      · push Not at hclaimed
        rw [lastClaimer_cons_of_ne hclaimed] at hlast
        exact Or.inl hlast
    have hrow : ∃ row, s.db.artifacts.lookup a = some row := by
      obtain hlast | hrow := hold
      · obtain ⟨row, hrow, _⟩ := hJ a u hlast
        exact ⟨row, hrow⟩
      · exact hrow
    obtain ⟨row, hrow⟩ := hrow
    obtain ⟨row', hrow', hmove⟩ := @perform_artifact env p i s _ _ op hrow
    refine ⟨row', hrow', ?_⟩
    -- unless the statement is a claim of this artifact, the uploader stays
    have hkept : lastClaimer a L = some u → row.uploaderId = some u := by
      intro hlast
      obtain ⟨row₀, hrow₀, hu⟩ := hJ a u hlast
      rw [hrow] at hrow₀
      cases hrow₀
      exact hu
    generalize (op.perform env p i s).2 = r at hmove hlast
    cases hmove with
    | idle _ hclaimed =>
        rw [lastClaimer_cons_of_ne hclaimed] at hlast
        exact hkept hlast
    | claim =>
        rw [lastClaimer_cons_of_eq rfl] at hlast
        exact hlast
    | renew =>
        rw [lastClaimer_cons_of_ne (by simp [claimed])] at hlast
        exact hkept hlast
    | settle _ hclaimed =>
        rw [lastClaimer_cons_of_ne hclaimed] at hlast
        exact hkept hlast
  fault p e op s L hJ hop := by
    intro a u hlast
    rw [lastClaimer_cons_of_ne (by cases op <;> simp [claimed])] at hlast
    exact hJ a u hlast
  halt p s L hJ := hJ
  ambient b s L hJ := by
    intro a u hlast
    obtain ⟨row, hrow, hu⟩ := hJ a u hlast
    have hframe : (s.beat env b.1 b.2).db.artifacts = s.db.artifacts := by
      rw [beat_frame]
    exact ⟨row, hframe ▸ hrow, hu⟩

/-- An artifact that was claimed has a last claimer. -/
theorem lastClaimer_isSome {p : ℕ} {i : Option Input} {u : WorkerId} {r : Artifact}
    {newer older : Ledger (platform env)} :
    ∃ v, lastClaimer a (newer ++ ⟨p, i, ⟨.claimUploadLease a u, .ok (some r)⟩⟩ :: older) =
      some v := by
  rw [← Option.isSome_iff_exists]
  unfold lastClaimer
  rw [List.findSome?_append, List.findSome?_cons]
  simp [claimed]

/-- **A superseded upload is refused exactly if the last claim of the artifact was made under another
id, or the artifact is no longer PENDING.**  Upload A claims the artifact, then upload B does; later
A renews its lease or marks the artifact. -/
theorem superseded_upload_refused_iff {s : World} {es : List (SysEvent env)} {c : System env}
    (h : Reaches s es c) {p q : ℕ} {iA iB : Option Input} {uA uB : WorkerId} {rA rB : Artifact}
    {newer between older : Ledger (platform env)}
    (hclaims : ledger (platform env) s es =
      newer ++ ⟨q, iB, ⟨.claimUploadLease a uB, .ok (some rB)⟩⟩ :: between ++
        ⟨p, iA, ⟨.claimUploadLease a uA, .ok (some rA)⟩⟩ :: older) (i : Input) :
    (((Op.renewUploadLease a uA).perform env p i c.shared).2 = .ok none ∧
      ((Op.markUploaded a uA).perform env p i c.shared).2 = .ok none) ↔
    lastClaimer a (ledger (platform env) s es) ≠ some uA ∨
      ∀ row ∈ c.shared.db.artifacts.lookup a, row.status ≠ .pending := by
  have hlast : ClaimedLast env c.shared (ledger (platform env) s es) :=
    (claimedLast_invariant env).run (sweeps_program env)
      (fun a u hu => by simp [lastClaimer] at hu) h.2
  obtain ⟨v, hv⟩ : ∃ v, lastClaimer a (ledger (platform env) s es) = some v := by
    rw [hclaims, List.append_assoc, List.cons_append]
    exact lastClaimer_isSome
  obtain ⟨row, hrow, hu⟩ := hlast a v hv
  -- both statements match the row under the same condition
  have hrefused : ∀ set : Artifact → Artifact,
      (ArtifactsRepo.updateWhere c.shared.db a
        (fun row => row.status = .pending ∧ row.uploaderId = some uA) set).2 = none ↔
      ¬ (row.status = .pending ∧ row.uploaderId = some uA) := by
    intro set
    obtain ⟨row', hrow', hcond, heq⟩ | ⟨hcond, heq⟩ := updateWhere_cases c.shared.db a
      (fun row => row.status = .pending ∧ row.uploaderId = some uA) set
    · rw [hrow] at hrow'
      cases hrow'
      rw [heq]
      exact iff_of_false (by simp) (not_not.mpr hcond)
    · rw [heq]
      exact iff_of_true rfl (hcond row hrow)
  have hboth : (((Op.renewUploadLease a uA).perform env p i c.shared).2 = .ok none ∧
      ((Op.markUploaded a uA).perform env p i c.shared).2 = .ok none) ↔
      ¬ (row.status = .pending ∧ row.uploaderId = some uA) := by
    simp only [Op.perform, World.write, Except.ok.injEq, ArtifactsRepo.renewUploadLease,
      ArtifactsRepo.markUploaded, hrefused, and_self]
  rw [hboth, hv, hu, hrow]
  simp only [Option.mem_def, Option.some.injEq, forall_eq', ne_eq]
  tauto

end Claims

/-- Two uploads of the same bytes under one id: the lease of the first lapses, and the second claims
it. -/
def sameUploader : List (SysEvent Env.standard) :=
  session 0 (.uploadArtifact [1, 2] 7) 4 { uuid := 1 } ++
    session 1 (.uploadArtifact [1, 2] 7) 2 { now := 100 }

/-- **A superseded upload still finishes**: both uploads of artifact 1 carry the same id. -/
theorem superseded_upload_finishes : ∃ c : System Env.standard,
    Reaches World.fresh sameUploader c ∧
      (ledger (platform Env.standard) World.fresh sameUploader).map
        (fun e => (e.thread, claimed e.done)) =
        [(1, some (1, 7)), (1, none), (0, none), (0, some (1, 7)), (0, none), (0, none)] ∧
      (ArtifactsRepo.renewUploadLease c.shared.db 1 7 100 60).2.isSome = true ∧
      (ArtifactsRepo.markUploaded c.shared.db 1 7).2.isSome = true ∧
      ∃ c' ∈ Runs.runFrom Config.step c (proceed 0 2 { now := 100 }),
        c'.result 0 = some (.ok .ok) ∧
          ∃ row ∈ c'.shared.db.artifacts.lookup 1, row.status = .uploaded :=
  exists_reaches World.fresh_initial _ (by decide +kernel)

/-- Two uploads of the same bytes under two ids. -/
def twoUploaders : List (SysEvent Env.standard) :=
  session 0 (.uploadArtifact [1, 2] 7) 4 { uuid := 1 } ++
    session 1 (.uploadArtifact [1, 2] 8) 2 { now := 100 }

/-- An entry that shows a claim. -/
theorem entry_of_claimed {env : Env} {e : Entry (platform env)} {p : ℕ} {a : ArtifactId}
    {u : WorkerId} (h : (e.thread, claimed e.done) = (p, some (a, u))) :
    ∃ i r, e = ⟨p, i, ⟨.claimUploadLease a u, .ok (some r)⟩⟩ := by
  obtain ⟨q, i, d⟩ := e
  obtain ⟨rfl, hd⟩ := Prod.mk.inj h
  obtain ⟨r, rfl⟩ := claimed_eq_some hd
  exact ⟨i, r, rfl⟩

/-- A superseded upload under an id of its own is refused. -/
theorem superseded_upload_refused : ∃ c : System Env.standard,
    Reaches World.fresh twoUploaders c ∧
      ((Op.renewUploadLease 1 7).perform Env.standard 0 {} c.shared).2 = .ok none ∧
      ((Op.markUploaded 1 7).perform Env.standard 0 {} c.shared).2 = .ok none := by
  obtain ⟨c, hc, hlast, hclaims⟩ := exists_reaches World.fresh_initial twoUploaders
    (P := fun _ => lastClaimer 1 (ledger (platform Env.standard) World.fresh twoUploaders) ≠ some 7 ∧
      (ledger (platform Env.standard) World.fresh twoUploaders).map
        (fun e => (e.thread, claimed e.done)) =
        [(1, some (1, 8)), (1, none), (0, none), (0, some (1, 7)), (0, none), (0, none)])
    (by decide +kernel)
  obtain ⟨eB, L₁, hL, hB, hclaims⟩ := List.map_eq_cons_iff.mp hclaims
  obtain ⟨e₁, L₂, rfl, _, hclaims⟩ := List.map_eq_cons_iff.mp hclaims
  obtain ⟨e₂, L₃, rfl, _, hclaims⟩ := List.map_eq_cons_iff.mp hclaims
  obtain ⟨eA, older, rfl, hA, _⟩ := List.map_eq_cons_iff.mp hclaims
  obtain ⟨iB, rB, rfl⟩ := entry_of_claimed hB
  obtain ⟨iA, rA, rfl⟩ := entry_of_claimed hA
  have hsplit : ledger (platform Env.standard) World.fresh twoUploaders =
      [] ++ ⟨1, iB, ⟨.claimUploadLease 1 8, .ok (some rB)⟩⟩ :: [e₁, e₂] ++
        ⟨0, iA, ⟨.claimUploadLease 1 7, .ok (some rA)⟩⟩ :: older := hL
  exact ⟨c, hc, (superseded_upload_refused_iff hc hsplit {}).mpr (Or.inl hlast)⟩

end PosttrainPlatform
