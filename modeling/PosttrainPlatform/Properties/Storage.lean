import PosttrainPlatform.Properties.Knows

/-!
# The artifacts and their objects

An artifact goes from PENDING to UPLOADED or FAILED and no further.  Whoever marks it UPLOADED has
seen an object with its content at its key, objects are only ever replaced by objects with the same
digest, and whoever refers to an artifact has seen it UPLOADED.
-/

namespace PosttrainPlatform

open Programs

/-- There is an object at the key, and its digest is the key. -/
def Store.Intact (env : Env) (store : Store) (key : Hash) : Prop :=
  ∃ data, store.lookup key = some data ∧ env.sha256 data = key

/-- A dataset version, a model version, a checkpoint or an output refers to the artifact. -/
inductive Records.References (c : Records) (a : ArtifactId) : Prop
  | datasetVersion {v : VersionRef} (h : c.datasetVersions.lookup v = some a)
  | modelVersion {v : VersionRef} {row : ModelVersion} (h : c.modelVersions.lookup v = some row)
      (ha : row.artifactId = a)
  | checkpoint {key : RunId × ℕ × ℤ} {row : Checkpoint} (h : c.checkpoints.lookup key = some row)
      (ha : row.artifactId = a)
  | output {run : RunId} {row : TrainingRunOutput} (h : c.trainingRunOutputs.lookup run = some row)
      (ha : row.finalArtifactId = a)

/-- The artifact is UPLOADED. -/
def Db.Uploaded (db : Db) (a : ArtifactId) : Prop :=
  ∃ row, db.artifacts.lookup a = some row ∧ row.status = .uploaded

/-- **Uploaded artifacts have their objects, and only uploaded artifacts are referred to.** -/
structure World.Stocked (env : Env) (s : World) : Prop where
  intact : ∀ a row, s.db.artifacts.lookup a = some row → row.status = .uploaded →
    s.store.Intact env row.contentHash
  uploaded : ∀ a, s.db.records.References a → s.db.Uploaded a

/-- The registries are empty. -/
theorem World.fresh_stocked (env : Env) : World.fresh.Stocked env where
  intact a row hrow := by cases hrow
  uploaded a ha := by
    cases ha with
    | datasetVersion h | modelVersion h | checkpoint h | output h => cases h

section Step

variable {env : Env} {p : ℕ} {s s' : World} {h h' : Pasts}

/-- What became of an uploaded artifact. -/
theorem World.Grows.uploaded (hgrow : s.Grows s') {a : ArtifactId} (ha : s.db.Uploaded a) :
    s'.db.Uploaded a := by
  obtain ⟨row, hrow, hs⟩ := ha
  obtain ⟨row', hrow', _, hstatus⟩ := hgrow.records.artifacts a row hrow
  exact ⟨row', hrow', (hstatus (by rw [hs]; decide)).trans hs⟩

/-- An artifact that a thread saw as UPLOADED is. -/
theorem Knows.uploaded (hk : Knows env s h) {a : ArtifactId}
    (ha : Past.SawUploaded (h p) a) : s.db.Uploaded a := by
  have hcontinues : ∀ {row : Artifact}, row.status = .uploaded → s.Continues a row →
      s.db.Uploaded a := by
    rintro row hs ⟨row', hrow', _, hstatus⟩
    exact ⟨row', hrow', (hstatus (by rw [hs]; decide)).trans hs⟩
  obtain ⟨row, hs, hread | ⟨u, hmarked⟩ | ⟨hash, hfound⟩⟩ := ha
  · exact hcontinues hs (hk.told p _ _ hread row rfl)
  · exact hcontinues hs (hk.told p _ _ hmarked row rfl).2
  · exact hcontinues hs (hk.told p _ _ hfound a row rfl).2

/-- The artifact of some data has its digest. -/
theorem Knows.contentHash (hk : Knows env s h) {data : Bytes} {a : ArtifactId} {row : Artifact}
    (ha : Past.Holds env (h p) data a) (hrow : s.Continues a row) :
    row.contentHash = env.sha256 data := by
  obtain ⟨row', hrow', hhash, _⟩ := hrow
  obtain ⟨row₀, hfound⟩ | hcreated := ha
  · obtain ⟨hhash₀, row₁, hrow₁, hbecomes⟩ := hk.told p _ _ hfound a row₀ rfl
    rw [hrow'] at hrow₁
    cases hrow₁
    rw [← hhash, hbecomes.1, hhash₀]
  · obtain ⟨row₁, hrow₁, hhash₁⟩ := hk.told p _ _ hcreated
    rw [hrow'] at hrow₁
    cases hrow₁
    rw [← hhash, hhash₁]

/-- **Only content with the right digest is uploaded.** -/
theorem Knows.upload (hk : Knows env s h) {key : Hash} {data : Bytes}
    (hop : Past.Justifies env (h p) (.upload key data)) : env.sha256 data = key := by
  obtain ⟨a, u, row, hholds, hclaimed, rfl⟩ := hop
  exact (hk.contentHash hholds (hk.told p _ _ hclaimed row rfl)).symm

/-- An intact object stays intact. -/
theorem Store.Intact.perform (hk : Knows env s h) {op : Op} (hop : Past.Justifies env (h p) op)
    (i : Input) {key : Hash} (hkey : s.store.Intact env key) :
    (op.perform env p i s).1.store.Intact env key := by
  by_cases hupload : ∃ key' data, op = .upload key' data
  · obtain ⟨key', data, rfl⟩ := hupload
    have hsound := hk.upload hop
    obtain ⟨old, hold, holdhash⟩ := hkey
    by_cases hkey' : key = key'
    · subst hkey'
      exact ⟨data, AList.lookup_insert _, hsound⟩
    · exact ⟨old, (AList.lookup_insert_ne hkey').trans hold, holdhash⟩
  · push Not at hupload
    rwa [perform_store env p i s fun key' data => hupload key' data]

/-- **An object that was found with its digest is still there**, as it was or replaced by one with the
same digest. -/
theorem checked_perform (hk : Knows env s h) {op : Op} (hop : Past.Justifies env (h p) op) (i : Input)
    (hchecked : ∀ q key, (h q).Answered (.objectExistsWithHash key key) true →
      s.store.Intact env key) {q : ℕ} {key : Hash}
    (ha : (h.add p ⟨op, (op.perform env p i s).2⟩ q).Answered (.objectExistsWithHash key key) true) :
    (op.perform env p i s).1.store.Intact env key := by
  obtain ⟨_, heq⟩ | ha := Histories.mem_add.mp ha
  · obtain ⟨rfl, heq⟩ := Sigma.mk.inj_iff.mp heq
    have hanswer : s.store.objectExistsWithHash env key key = true :=
      (Except.ok.inj (eq_of_heq heq)).symm
    unfold Store.objectExistsWithHash at hanswer
    split at hanswer
    · cases hanswer
    · rename_i data hdata
      exact ⟨data, hdata, eq_of_beq hanswer⟩
  · exact Store.Intact.perform hk hop i (hchecked q key ha)

/-- The invariant: soundness, and the checks that have found an object with its own digest. -/
structure Stored (env : Env) (s : World) (h : Pasts) : Prop where
  sound : s.Stocked env
  checked : ∀ p key, (h p).Answered (.objectExistsWithHash key key) true → s.store.Intact env key

/-- Whoever marks an artifact as uploaded has checked its object. -/
theorem Stored.settled (hst : Stored env s h) (hk : Knows env s h) {op : Op}
    (hop : Past.Justifies env (h p) op) {a : ArtifactId} {row : Artifact}
    (hsettles : op.settles = some (a, .uploaded)) (hrow : s.db.artifacts.lookup a = some row) :
    s.store.Intact env row.contentHash := by
  have hsame : ∀ {row₀ : Artifact}, s.Continues a row₀ → row.contentHash = row₀.contentHash := by
    rintro row₀ ⟨row', hrow', hhash, _⟩
    rw [hrow] at hrow'
    cases hrow'
    exact hhash
  cases op <;> simp [Op.settles] at hsettles
  case markUploaded a' u =>
      subst hsettles
      obtain ⟨row₀, data, hholds, hclaimed, hexists⟩ := hop
      have hcontinues := hk.told p _ _ hclaimed row₀ rfl
      rw [← hk.contentHash hholds hcontinues] at hexists
      rw [hsame hcontinues]
      exact hst.checked p _ hexists
  case reconcileToUploaded a' =>
      subst hsettles
      obtain ⟨rows, row₀, hrows, hmem, hexists⟩ := hop
      rw [hsame (hk.told p _ _ hrows (_, row₀) hmem)]
      exact hst.checked p _ hexists

/-- The statement makes something refer to the artifact. -/
def Op.RefersTo (a : ArtifactId) : Op → Prop
  | .createDatasetVersion _ a' | .registerCheckpoint _ _ _ _ _ a' _ | .registerOutput _ _ _ _ a' =>
      a' = a
  | .createModelVersion _ row => row.artifactId = a
  | _ => False

/-- Who refers to an artifact after a statement. -/
theorem RecordStep.references {db : Db} {i : Input} {op : Op} {c : Records}
    (hstep : RecordStep env db i op c) {a : ArtifactId} (ha : c.References a) :
    db.records.References a ∨ op.RefersTo a := by
  cases hstep with
  | skip => exact Or.inl ha
  | createDatasetVersion hfree =>
      cases ha with
      | datasetVersion h =>
          obtain ⟨_, rfl⟩ | h := lookup_insert_cases h
          · exact Or.inr rfl
          · exact Or.inl (.datasetVersion h)
      | modelVersion h ha => exact Or.inl (.modelVersion h ha)
      | checkpoint h ha => exact Or.inl (.checkpoint h ha)
      | output h ha => exact Or.inl (.output h ha)
  | createModelVersion hfree _ _ =>
      cases ha with
      | datasetVersion h => exact Or.inl (.datasetVersion h)
      | modelVersion h ha =>
          obtain ⟨_, rfl⟩ | h := lookup_insert_cases h
          · exact Or.inr ha
          · exact Or.inl (.modelVersion h ha)
      | checkpoint h ha => exact Or.inl (.checkpoint h ha)
      | output h ha => exact Or.inl (.output h ha)
  | registerCheckpoint howns hn hfree hrow hnew =>
      cases ha with
      | datasetVersion h => exact Or.inl (.datasetVersion h)
      | modelVersion h ha => exact Or.inl (.modelVersion h ha)
      | checkpoint h ha =>
          obtain ⟨_, rfl⟩ | h := lookup_insert_cases h
          · exact Or.inr (hrow.symm.trans ha)
          · exact Or.inl (.checkpoint h ha)
      | output h ha => exact Or.inl (.output h ha)
  | registerOutput howns hfree =>
      cases ha with
      | datasetVersion h => exact Or.inl (.datasetVersion h)
      | modelVersion h ha => exact Or.inl (.modelVersion h ha)
      | checkpoint h ha => exact Or.inl (.checkpoint h ha)
      | output h ha =>
          obtain ⟨_, rfl⟩ | h := lookup_insert_cases h
          · exact Or.inr ha
          · exact Or.inl (.output h ha)
  | createTrainingRun | createEvaluationRun | createPending | artifact | recordMetric
  | recordResumeDecision | markRunStatus | recordResult | recordEvaluationMetric
  | recordGateResult =>
      refine Or.inl ?_
      cases ha with
      | datasetVersion h => exact .datasetVersion h
      | modelVersion h ha => exact .modelVersion h ha
      | checkpoint h ha => exact .checkpoint h ha
      | output h ha => exact .output h ha

/-- Whoever refers to an artifact has seen it as UPLOADED. -/
theorem Past.Justifies.sawUploaded {m : Past} {op : Op} (hop : m.Justifies env op) {a : ArtifactId}
    (ha : op.RefersTo a) : m.SawUploaded a := by
  cases op <;> simp only [Op.RefersTo] at ha
  case createDatasetVersion => exact ha ▸ hop
  case createModelVersion => exact ha ▸ hop
  case registerCheckpoint =>
      obtain ⟨event, ⟨_, data, _, _, huploaded⟩, _⟩ := hop
      exact ha ▸ huploaded
  case registerOutput =>
      obtain ⟨event, ⟨_, data, _, _, huploaded⟩, _⟩ := hop
      exact ha ▸ huploaded

/-- The artifacts after a statement: the old ones, pending ones, and those that it settles. -/
theorem RecordStep.artifacts {db : Db} {i : Input} {op : Op} {c : Records}
    (hstep : RecordStep env db i op c) {a : ArtifactId} {row : Artifact}
    (hrow : c.artifacts.lookup a = some row) (hs : row.status ≠ .pending) :
    db.artifacts.lookup a = some row ∨ ∃ row₀, db.artifacts.lookup a = some row₀ ∧
      row.contentHash = row₀.contentHash ∧ op.settles = some (a, row.status) := by
  cases hstep with
  | createPending hfree =>
      obtain ⟨_, rfl⟩ | hrow := lookup_insert_cases hrow
      · exact absurd rfl hs
      · exact Or.inl hrow
  | artifact hold hpending hhash hsettles =>
      obtain ⟨rfl, rfl⟩ | hrow := lookup_insert_cases hrow
      · exact Or.inr ⟨_, hold, hhash, hsettles⟩
      · exact Or.inl hrow
  | _ => exact Or.inl hrow

/-- **Every statement keeps the artifacts sound.** -/
theorem Stored.perform (hst : Stored env s h) (hk : Knows env s h) {op : Op}
    (hop : Past.Justifies env (h p) op) (i : Input) :
    Stored env (op.perform env p i s).1 (h.add p ⟨op, (op.perform env p i s).2⟩) where
  sound := by
    refine ⟨fun a row hrow hs => Store.Intact.perform hk hop i ?_, fun a ha => ?_⟩
    · obtain hold | ⟨row₀, hrow₀, hhash, hsettles⟩ :=
        (perform_records env p i s op).artifacts hrow (by rw [hs]; decide)
      · exact hst.sound.intact a row hold hs
      · rw [hs] at hsettles
        rw [hhash]
        exact hst.settled hk hop hsettles hrow₀
    · refine (perform_grows env p i s op).uploaded ?_
      obtain hold | hrefers := (perform_records env p i s op).references ha
      · exact hst.sound.uploaded a hold
      · exact hk.uploaded (hop.sawUploaded hrefers)
  checked q key ha := checked_perform hk hop i hst.checked ha

/-- A change that leaves the artifacts and their objects alone. -/
theorem Stored.frame (hst : Stored env s h) (hrecords : s'.db.records = s.db.records)
    (hstore : s'.store = s.store) (hanswers : ∀ q key,
      (h' q).Answered (.objectExistsWithHash key key) true →
        (h q).Answered (.objectExistsWithHash key key) true) : Stored env s' h' := by
  have hartifacts : s'.db.artifacts = s.db.artifacts := congrArg Records.artifacts hrecords
  refine ⟨⟨fun a row hrow hs => ?_, fun a ha => ?_⟩, fun q key ha => ?_⟩
  · rw [hstore]
    exact hst.sound.intact a row (hartifacts ▸ hrow) hs
  · rw [hrecords] at ha
    obtain ⟨row, hrow, hs⟩ := hst.sound.uploaded a ha
    exact ⟨row, hartifacts.symm ▸ hrow, hs⟩
  · rw [hstore]
    exact hst.checked q key (hanswers q key ha)

theorem stored_invariant (env : Env) :
    HistoryInvariant (M := platform env) (Past.Disciplined env) (Stored env) (Knows env)
      fun _ _ _ => True where
  perform _ i _ _ _ _ hk hst hop _ := hst.perform hk hop.2 i
  fault p e op s h _ hst _ := by
    exact hst.frame rfl rfl fun q key ha => Histories.answered_of_fault ha
  halt p s h _ hst := hst.frame rfl rfl fun _ _ ha => ha
  ambient a s h _ hst := by
    refine hst.frame ?_ ?_ fun _ _ ha => ha
    · show (s.beat env a.1 a.2).db.records = _
      rw [beat_frame]
      rfl
    · show (s.beat env a.1 a.2).store = _
      rw [beat_frame]

end Step

/-! ### Every run -/

/-- What persists from state to state persists along a run. -/
theorem records_grow {env : Env} {c c' : System env} {es : List (SysEvent env)}
    (hrun : Runs.runFrom Config.step c es = some c') {a : ArtifactId} {row : Artifact}
    (hrow : c.shared.db.artifacts.lookup a = some row) :
    ∃ row', c'.shared.db.artifacts.lookup a = some row' ∧ row.Becomes row' := by
  refine Runs.run_invariant (I := fun m : System env => m.shared.Continues a row)
    (fun m e m' hm hstep => ?_) (World.continues_of_lookup hrow) hrun
  obtain ⟨row₁, hrow₁, hbecomes⟩ := hm
  have hgrow : ∀ {s'}, m.shared.Grows s' → s'.Continues a row := by
    intro s' hgrow
    obtain ⟨row₂, hrow₂, hbecomes'⟩ := hgrow.records.artifacts a row₁ hrow₁
    exact ⟨row₂, hrow₂, hbecomes.trans hbecomes'⟩
  exact Config.shared_of_step (I := fun s => World.Continues s a row) ⟨row₁, hrow₁, hbecomes⟩
    (fun p i call op k _ _ => hgrow (perform_grows env p i m.shared op))
    (fun p => hgrow (m.shared.stopHeartbeat_grows p))
    (fun beat : ℕ × Time => hgrow (beat_grows env m.shared beat.1 beat.2)) hstep

theorem stored_of_reaches {env : Env} {s : World} {es : List (SysEvent env)} {c : System env}
    (h : Reaches s es c) (hs : s.Stocked env) : Stored env c.shared (pasts env s es) :=
  (stored_invariant env).run (disciplined_program env) ⟨hs, fun _ _ ha => by cases ha⟩
    (fun fs m hfs hm => knows_of_reaches ⟨h.1, hm⟩)
    (Runs.always_of_forall (Config.atStep_of_forall fun _ _ _ => trivial) _ es) h.2

/-- **Artifact soundness**: in every state that is reached, each UPLOADED artifact has an object with
its digest, each artifact that is referred to is UPLOADED, and an artifact that is UPLOADED or FAILED
remains so. -/
theorem artifacts_sound {env : Env} {s : World} {es : List (SysEvent env)} {c : System env}
    (h : Reaches s es c) (hs : s.Stocked env) :
    c.shared.Stocked env ∧ ∀ es' c', Runs.runFrom Config.step c es' = some c' → ∀ a row,
      c.shared.db.artifacts.lookup a = some row → row.status ≠ .pending →
        ∃ row', c'.shared.db.artifacts.lookup a = some row' ∧ row'.status = row.status := by
  refine ⟨(stored_of_reaches h hs).sound, fun es' c' hrun a row hrow hne => ?_⟩
  obtain ⟨row', hrow', _, hstatus⟩ := records_grow hrun hrow
  exact ⟨row', hrow', hstatus hne⟩

/-- An upload in an empty platform. -/
theorem upload_sound : ∃ c : System Env.standard,
    Reaches World.fresh (session 0 (.uploadArtifact [1, 2] 7) 6 { uuid := 1 }) c ∧
      c.shared.Stocked Env.standard ∧ c.shared.db.Uploaded 1 := by
  obtain ⟨c, hc, row, hrow, hs⟩ := exists_reaches World.fresh_initial
    (session 0 (.uploadArtifact [1, 2] 7) 6 { uuid := 1 })
    (P := fun c : System .standard => ∃ row ∈ c.shared.db.artifacts.lookup 1, row.status = .uploaded)
    (by decide +kernel)
  exact ⟨c, hc, (artifacts_sound hc (World.fresh_stocked _)).1, row, hrow, hs⟩

end PosttrainPlatform
