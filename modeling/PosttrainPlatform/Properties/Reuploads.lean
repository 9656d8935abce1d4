import PosttrainPlatform.Properties.Storage

/-!
# Uploading content again

The artifact of some content is found by its hash, so an upload of content that was uploaded before
takes over the row that the earlier uploads and sweeps have left.  It gets to UPLOADED from a pending
row and from an uploaded one; a row that a sweep has failed stays FAILED for every later upload.
-/

namespace PosttrainPlatform

open Programs Service

/-! ### One upload -/

/-- An input of an upload that nothing stands in the way of: generated ids are new, and no lease on
the artifact of the content is in force. -/
def Undisturbed (s : World) (hash : Hash) (i : Input) : Prop :=
  s.db.artifacts.lookup i.uuid = none ∧
    ∀ a row, ArtifactsRepo.getByHash s.db hash = some (a, row) →
      ∀ t ∈ row.uploadLeaseExpiresAt, t < i.now

/-- The upload has returned an artifact of the content that is UPLOADED. -/
def ReturnsUploaded (hash : Hash) (r : Except Exn (ArtifactId × Artifact)) (s' : World) : Prop :=
  ∃ a row, r = .ok (a, row) ∧ row.contentHash = hash ∧ row.status = .uploaded ∧
    s'.db.artifacts.lookup a = some row

/-- An artifact that is found by its hash is a row with this hash. -/
theorem getByHash_eq_some {db : Db} {hash : Hash} {a : ArtifactId} {row : Artifact}
    (h : ArtifactsRepo.getByHash db hash = some (a, row)) :
    db.artifacts.lookup a = some row ∧ row.contentHash = hash := by
  refine ⟨Table.mem_rows.mp (List.mem_of_find?_eq_some h), ?_⟩
  have hfound := List.find?_some h
  exact of_decide_eq_true (by simpa using hfound)

section Upload

variable {env : Env} {p : ℕ} {s s' : World} {ok : Input → Prop} {data : Bytes} {a : ArtifactId}
  {row : Artifact} {u : WorkerId} {r : Except Exn (ArtifactId × Artifact)}

/-- The database with another row for the artifact. -/
def Db.setArtifact (db : Db) (a : ArtifactId) (row : Artifact) : Db :=
  { db with artifacts := db.artifacts.insert a row }

@[simp] theorem Db.setArtifact_lookup (db : Db) (a : ArtifactId) (row : Artifact) :
    (db.setArtifact a row).artifacts.lookup a = some row := AList.lookup_insert _

/-- The artifact under a lease. -/
def Artifact.leasedTo (row : Artifact) (u : WorkerId) (t : Time) : Artifact :=
  { row with uploaderId := some u, uploadLeaseExpiresAt := some t }

/-- An update that meets its row. -/
theorem updateWhere_hit {db : Db} {cond : Artifact → Prop} [DecidablePred cond]
    {set : Artifact → Artifact} (hrow : db.artifacts.lookup a = some row) (hcond : cond row) :
    ArtifactsRepo.updateWhere db a cond set = (db.setArtifact a (set row), some (set row)) := by
  simp [ArtifactsRepo.updateWhere, Db.setArtifact, hrow, hcond]

/-- A look at the store that does not fail. -/
theorem ends_objectExistsWithHash_bind {α : Type} {key expected : Hash} {b : Bool}
    {f : Bool → Service α} {r : Except Exn α}
    (ha : ∀ i, ((Op.objectExistsWithHash key expected).perform env p i s).2 = .ok b)
    (hend : Prog.Ends (Op.alone env p) ok (objectExistsWithHash key expected >>= f) s r s') :
    ∃ i, ok i ∧ Prog.Ends (Op.alone env p) ok (f b)
      ((Op.objectExistsWithHash key expected).perform env p i s).1 r s' := by
  obtain ⟨i, hi, hend⟩ := Prog.ends_call.mp hend
  have hanswer : (Op.alone env p (.objectExistsWithHash key expected) i s).2 = .ok b := ha i
  rw [hanswer] at hend
  exact ⟨i, hi, hend⟩

/-- The statements of an upload behind its claim. -/
theorem ends_finishUpload {claimed : Artifact} (hrow : s.db.artifacts.lookup a = some claimed)
    (hpending : claimed.status = .pending) (howner : claimed.uploaderId = some u)
    (hhash : claimed.contentHash = env.sha256 data)
    (hend : Prog.Ends (Op.alone env p) ok (do
      exec (.upload claimed.contentHash data)
      let verified ← objectExistsWithHash claimed.contentHash (env.sha256 data)
      check (.http 502) verified
      let finalized ← found (.http 409) (← exec (.markUploaded a u))
      pure (a, finalized)) s r s') : ReturnsUploaded (env.sha256 data) r s' := by
  obtain ⟨_, _, hend⟩ := Prog.ends_answer (fun _ => rfl) hend
  -- the object that has just been written has the digest that is expected
  have hexists : ∀ i : Input, ((Op.objectExistsWithHash claimed.contentHash
      (env.sha256 data)).perform env p i
      { s with store := s.store.insert claimed.contentHash data }).2 = .ok true := by
    intro i
    simp [Op.perform, World.read, Store.objectExistsWithHash]
  obtain ⟨_, _, hend⟩ := ends_objectExistsWithHash_bind hexists hend
  have hmark : ArtifactsRepo.markUploaded s.db a u = (s.db.setArtifact a
      { claimed with status := .uploaded, uploadLeaseExpiresAt := none },
      some { claimed with status := .uploaded, uploadLeaseExpiresAt := none }) :=
    updateWhere_hit hrow ⟨hpending, howner⟩
  obtain ⟨_, _, hend⟩ := Prog.ends_answer
    (fun _ => congrArg (fun r : Db × Option Artifact => Except.ok r.2) hmark) hend
  obtain ⟨rfl, rfl⟩ := Prog.ends_ret.mp hend
  refine ⟨a, _, rfl, hhash, rfl, ?_⟩
  show (ArtifactsRepo.markUploaded s.db a u).1.artifacts.lookup a = _
  rw [hmark, Db.setArtifact_lookup]

/-- **An upload to a pending row whose lease has lapsed goes through.** -/
theorem ends_uploadTo (hrow : s.db.artifacts.lookup a = some row) (hpending : row.status = .pending)
    (hhash : row.contentHash = env.sha256 data)
    (hlapsed : ∀ i, ok i → ∀ t ∈ row.uploadLeaseExpiresAt, t < i.now)
    (hend : Prog.Ends (Op.alone env p) ok (uploadTo data (env.sha256 data) a u) s r s') :
    ReturnsUploaded (env.sha256 data) r s' := by
  have hclaim : ∀ i, ok i → ArtifactsRepo.claimUploadLease s.db a u i.now
      env.settings.uploadLeaseDurationSeconds =
        (s.db.setArtifact a (row.leasedTo u (i.now + env.settings.uploadLeaseDurationSeconds)),
          some (row.leasedTo u (i.now + env.settings.uploadLeaseDurationSeconds))) :=
    fun i hi => updateWhere_hit hrow ⟨hpending, hlapsed i hi⟩
  obtain ⟨i, hi, hend⟩ := Prog.ends_answer_of
    (fun i hi => congrArg (fun r : Db × Option Artifact => Except.ok r.2) (hclaim i hi)) hend
  refine ends_finishUpload ?_ ?_ ?_ ?_ hend
  · show (ArtifactsRepo.claimUploadLease s.db a u i.now _).1.artifacts.lookup a = _
    rw [hclaim i hi, Db.setArtifact_lookup]
  · exact hpending
  · rfl
  · exact hhash

/-- **An upload that nothing stands in the way of returns an UPLOADED artifact of the content exactly
if the artifact that is found for the content is not FAILED.** -/
theorem returnsUploaded_iff
    (hend : Prog.Ends (Op.alone env p) (Undisturbed s (env.sha256 data))
      (uploadArtifact env data u) s r s') :
    ReturnsUploaded (env.sha256 data) r s' ↔
      ∀ a row, ArtifactsRepo.getByHash s.db (env.sha256 data) = some (a, row) →
        row.status ≠ .failed := by
  cases hfound : ArtifactsRepo.getByHash s.db (env.sha256 data) with
  | none =>
      refine iff_of_true ?_ fun a row h => by cases h
      obtain ⟨_, _, hend⟩ := Prog.ends_answer (fun _ => congrArg Except.ok hfound) hend
      have hcreate : ∀ i, Undisturbed s (env.sha256 data) i →
          ArtifactsRepo.createPending s.db i.uuid (env.sha256 data) i.now =
            some (s.db.setArtifact i.uuid
              { contentHash := env.sha256 data, createdAt := i.now }) := by
        intro i hi
        have hnew : s.db.artifacts.insertNew i.uuid
            { contentHash := env.sha256 data, createdAt := i.now } = some _ :=
          Table.insertNew_eq_some.mpr ⟨hi.1, rfl⟩
        simp only [ArtifactsRepo.createPending, hfound, hnew]
        rfl
      have hanswer : ∀ i, Undisturbed s (env.sha256 data) i →
          ((Op.createPending (env.sha256 data)).perform env p i s).2 = .ok i.uuid := by
        intro i hi
        simp only [Op.perform, hcreate i hi]
        rfl
      obtain ⟨i, hi, hend⟩ := Prog.ends_answer_of hanswer hend
      have hrow : ((Op.createPending (env.sha256 data)).perform env p i s).1.db.artifacts.lookup
          i.uuid = some { contentHash := env.sha256 data, createdAt := i.now } := ?_
      · exact ends_uploadTo hrow rfl rfl (fun _ _ t ht => by cases ht) hend
      show ((Op.createPending (env.sha256 data)).perform env p i s).1.db.artifacts.lookup i.uuid = _
      simp only [Op.perform, hcreate i hi]
      exact Db.setArtifact_lookup _ _ _
  | some found =>
      obtain ⟨a, row⟩ := found
      obtain ⟨hrow, hhash⟩ := getByHash_eq_some hfound
      obtain ⟨_, _, hend⟩ := Prog.ends_answer (fun _ => congrArg Except.ok hfound) hend
      cases hs : row.status with
      | uploaded =>
          refine iff_of_true ?_ fun b row' h => ?_
          · simp only [hs, if_true] at hend
            obtain ⟨rfl, rfl⟩ := Prog.ends_ret.mp hend
            exact ⟨a, row, rfl, hhash, hs, hrow⟩
          · cases h
            simp [hs]
      | pending =>
          refine iff_of_true ?_ fun b row' h => ?_
          · simp only [hs, reduceCtorEq, if_false] at hend
            exact ends_uploadTo hrow hs hhash (fun i hi => hi.2 a row hfound) hend
          · cases h
            simp [hs]
      | failed =>
          refine iff_of_false ?_ fun h => h a row rfl hs
          simp only [hs, reduceCtorEq, if_false] at hend
          have hclaim : ∀ i : Input, ((Op.claimUploadLease a u).perform env p i s).2 = .ok none := by
            intro i
            simp [Op.perform, World.write, ArtifactsRepo.claimUploadLease,
              ArtifactsRepo.updateWhere, hrow, hs]
          obtain ⟨_, _, hend⟩ := Prog.ends_answer hclaim hend
          obtain ⟨rfl, _⟩ := Prog.ends_raise.mp hend
          intro h
          obtain ⟨_, _, hr, _⟩ := h
          cases hr

end Upload

/-! ### What earlier uploads and sweeps leave behind -/

/-- The unique constraint on the content hash. -/
def Db.HashesUnique (db : Db) : Prop :=
  ∀ a b row row', db.artifacts.lookup a = some row → db.artifacts.lookup b = some row' →
    row.contentHash = row'.contentHash → a = b

/-- No artifact of the content is FAILED. -/
def Db.NotFailed (db : Db) (hash : Hash) : Prop :=
  ∀ a row, db.artifacts.lookup a = some row → row.contentHash = hash → row.status ≠ .failed

/-- The statement is not a `reconcile_to_failed` that takes effect on the artifact of the content. -/
def SparesContent (hash : Hash) (op : Op) (_ : Input) (db : Db) : Prop :=
  ∀ a row, op = .reconcileToFailed a → db.artifacts.lookup a = some row →
    row.contentHash = hash → row.status ≠ .pending

def SparesContent.check (hash : Hash) (db : Db) : Op → Bool
  | .reconcileToFailed a => decide (∀ row ∈ db.artifacts.lookup a, row.contentHash = hash →
      row.status ≠ .pending)
  | _ => true

theorem SparesContent.check_iff {hash : Hash} {op : Op} {i : Input} {db : Db} :
    check hash db op = true ↔ SparesContent hash op i db := by
  cases op
  case reconcileToFailed a =>
      refine decide_eq_true_iff.trans ⟨?_, fun h row hrow => h a row rfl hrow⟩
      intro h b row heq hrow
      cases heq
      exact h row hrow
  all_goals exact iff_of_true rfl fun _ _ h => by cases h

instance (hash : Hash) (op : Op) (i : Input) (db : Db) : Decidable (SparesContent hash op i db) :=
  decidable_of_iff _ SparesContent.check_iff

section Runs

variable {env : Env} {p : ℕ} {i : Input} {s : World} {hash : Hash}

/-- Every statement keeps the hashes unique. -/
theorem Db.HashesUnique.perform (h : s.db.HashesUnique) (op : Op) :
    (op.perform env p i s).1.db.HashesUnique := by
  -- every row that is there continues an old one with its hash, or is the new one of the statement
  have hrows : ∀ a row, (op.perform env p i s).1.db.artifacts.lookup a = some row →
      (∃ row₀, s.db.artifacts.lookup a = some row₀ ∧ row.contentHash = row₀.contentHash) ∨
        (a = i.uuid ∧ ArtifactsRepo.getByHash s.db row.contentHash = none) := by
    intro a row hrow
    by_cases hop : ∃ new, op = .createPending new
    · obtain ⟨new, rfl⟩ := hop
      simp only [Op.perform] at hrow
      cases hnew : ArtifactsRepo.createPending s.db i.uuid new i.now with
      | none =>
          rw [hnew] at hrow
          exact Or.inl ⟨row, hrow, rfl⟩
      | some db =>
          rw [hnew] at hrow
          obtain ⟨hfound, _, rfl⟩ := createPending_cases hnew
          obtain ⟨rfl, rfl⟩ | hold := lookup_insert_cases hrow
          · exact Or.inr ⟨rfl, hfound⟩
          · exact Or.inl ⟨row, hold, rfl⟩
    · have hstep := perform_records env p i s op
      have hrow : (op.perform env p i s).1.db.records.artifacts.lookup a = some row := hrow
      generalize (op.perform env p i s).1.db.records = c at hstep hrow
      cases hstep with
      | createPending hfree => exact absurd ⟨_, rfl⟩ hop
      | artifact hold hpending hhash hsettles =>
          obtain ⟨rfl, rfl⟩ | hrow := lookup_insert_cases hrow
          · exact Or.inl ⟨_, hold, hhash⟩
          · exact Or.inl ⟨row, hrow, rfl⟩
      | _ => exact Or.inl ⟨row, hrow, rfl⟩
  -- a hash that is not found belongs to no row
  have hnone : ∀ {a row}, s.db.artifacts.lookup a = some row →
      ArtifactsRepo.getByHash s.db row.contentHash ≠ none := by
    intro a row hrow hfound
    have hne := List.find?_eq_none.mp hfound (a, row) (Table.mem_rows.mpr hrow)
    simp at hne
  intro a b row row' hrow hrow' heq
  obtain ⟨row₀, hrow₀, hhash⟩ | ⟨ha, hfree⟩ := hrows a row hrow
  · obtain ⟨row₀', hrow₀', hhash'⟩ | ⟨_, hfree'⟩ := hrows b row' hrow'
    · exact h a b row₀ row₀' hrow₀ hrow₀' (by rw [← hhash, ← hhash', heq])
    · rw [← heq, hhash] at hfree'
      exact absurd hfree' (hnone hrow₀)
  · obtain ⟨row₀', hrow₀', hhash'⟩ | ⟨hb, _⟩ := hrows b row' hrow'
    · rw [heq, hhash'] at hfree
      exact absurd hfree (hnone hrow₀')
    · rw [ha, hb]

/-- **A statement fails the artifact of the content, or spares it.** -/
theorem Db.NotFailed.perform_iff (h : s.db.NotFailed hash) (op : Op) :
    (op.perform env p i s).1.db.NotFailed hash ↔ SparesContent hash op i s.db := by
  constructor
  · intro hkept a row hop hrow hhash hpending
    subst hop
    have hlookup : (ArtifactsRepo.reconcileToFailed s.db a).1.artifacts.lookup a =
        some { row with status := .failed, uploadLeaseExpiresAt := none } := by
      rw [ArtifactsRepo.reconcileToFailed, updateWhere_hit hrow hpending, Db.setArtifact_lookup]
    exact hkept a _ hlookup hhash rfl
  · intro hspares a row hrow hhash hfailed
    have hstep := perform_records env p i s op
    have hrow : (op.perform env p i s).1.db.records.artifacts.lookup a = some row := hrow
    generalize (op.perform env p i s).1.db.records = c at hstep hrow
    cases hstep with
    | createPending hfree =>
        obtain ⟨rfl, rfl⟩ | hrow := lookup_insert_cases hrow
        · cases hfailed
        · exact h a row hrow hhash hfailed
    | @artifact _ a' row₀ row₁ hold hpending hsame hsettles =>
        obtain ⟨rfl, rfl⟩ | hrow := lookup_insert_cases hrow
        · have hop : op = .reconcileToFailed a := by
            rw [hfailed] at hsettles
            cases op <;> simp [Op.settles] at hsettles
            rw [hsettles]
          exact hspares a row₀ hop hold (hsame ▸ hhash) hpending
        · exact h a row hrow hhash hfailed
    | _ => exact h a row hrow hhash hfailed

theorem notFailed_iff_always {c : System env} {es : List (SysEvent env)} (h : Reaches s es c)
    (hs : s.db.NotFailed hash) : c.shared.db.NotFailed hash ↔
      Runs.Always Config.step (Meets (SparesContent hash)) ({ shared := s } : System env) es := by
  have hbeat : ∀ (b : ℕ × Time) (s : World), (s.beat env b.1 b.2).db.artifacts = s.db.artifacts := by
    intro b s
    rw [beat_frame]
  rw [← Runs.invariant_iff_always (I := fun c : System env => c.shared.db.NotFailed hash) ?_ hs h.2]
  · constructor
    · intro hc fs m hfs hm a row hrow hhash hfailed
      obtain ⟨gs, rfl⟩ := hfs
      obtain ⟨m', hm', hgs⟩ := Runs.runFrom_append.mp h.2
      rw [hm, Option.some.injEq] at hm'
      subst hm'
      obtain ⟨row', hrow', hsame, hstatus⟩ := records_grow hgs hrow
      have hfinal := hstatus (by rw [hfailed]; decide)
      exact hc a row' hrow' (hsame.trans hhash) (hfinal.trans hfailed)
    · exact fun hall => hall es c (List.prefix_refl es) h.2
  · intro m e m' hm hstep
    refine Config.atStep_iff (I := fun s : World => s.db.NotFailed hash)
      (φ := fun op i (s : World) => SparesContent hash op i s.db) hm
      (fun p i call op => hm.perform_iff op) (fun _ => hm) (fun b => ?_) hstep
    intro a row hrow
    exact hm a row ((hbeat b m.shared) ▸ hrow)

theorem hashesUnique_of_reaches {c : System env} {es : List (SysEvent env)} (h : Reaches s es c)
    (hs : s.db.HashesUnique) : c.shared.db.HashesUnique := by
  refine Runs.run_invariant (I := fun c : System env => c.shared.db.HashesUnique) ?_ hs h.2
  intro m e m' hm hstep
  refine Config.shared_of_step (I := fun s : World => s.db.HashesUnique) hm
    (fun p i call op k _ _ => hm.perform op) (fun _ => hm) (fun b : ℕ × Time => ?_) hstep
  show (m.shared.beat env b.1 b.2).db.HashesUnique
  rw [beat_frame]
  exact hm

/-- **Content can be uploaded again exactly as long as no sweep has failed its artifact**: an upload
of the content that runs by itself when no lease on the artifact is in force returns an UPLOADED
artifact exactly if every `reconcile_to_failed` of the run has spared the artifact of the content. -/
theorem content_uploads_again_iff {c : System env} {es : List (SysEvent env)} (h : Reaches s es c)
    (hunique : s.db.HashesUnique) {data : Bytes} (hs : s.db.NotFailed (env.sha256 data))
    {u : WorkerId} {r : Except Exn (ArtifactId × Artifact)} {s' : World}
    (hend : Prog.Ends (Op.alone env p) (Undisturbed c.shared (env.sha256 data))
      (uploadArtifact env data u) c.shared r s') :
    ReturnsUploaded (env.sha256 data) r s' ↔
      Runs.Always Config.step (Meets (SparesContent (env.sha256 data)))
        ({ shared := s } : System env) es := by
  rw [← notFailed_iff_always h hs, returnsUploaded_iff hend]
  constructor
  · intro hfound a row hrow hhash hfailed
    cases hget : ArtifactsRepo.getByHash c.shared.db (env.sha256 data) with
    | none =>
        have hne := List.find?_eq_none.mp hget (a, row) (Table.mem_rows.mpr hrow)
        simp [hhash] at hne
    | some found =>
        obtain ⟨b, row'⟩ := found
        obtain ⟨hrow', hhash'⟩ := getByHash_eq_some hget
        have hsame := hashesUnique_of_reaches h hunique a b row row' hrow hrow'
          (hhash.trans hhash'.symm)
        subst hsame
        rw [hrow] at hrow'
        cases hrow'
        exact hfound a row hget hfailed
  · intro hnot a row hget
    obtain ⟨hrow, hhash⟩ := getByHash_eq_some hget
    exact hnot a row hrow hhash

end Runs

/-- An upload of some bytes is cut off after it has created their artifact, and the sweep finds no
object. -/
def failedContent : List (SysEvent Env.standard) :=
  session 0 (.uploadArtifact [1, 2] 7) 2 { uuid := 1 } ++
    session 1 .reconcileOnce 3 { now := 1000 }

/-- **The content cannot be uploaded any more**: however a later upload of the same bytes runs, it
returns no UPLOADED artifact. -/
theorem failed_content_stays_failed : ∃ c : System Env.standard,
    Reaches World.fresh failedContent c ∧
      (∃ r s', Prog.Ends (Op.alone Env.standard 2) (Undisturbed c.shared (Env.standard.sha256 [1, 2]))
        (uploadArtifact Env.standard [1, 2] 7) c.shared r s') ∧
      ∀ r s', Prog.Ends (Op.alone Env.standard 2) (Undisturbed c.shared (Env.standard.sha256 [1, 2]))
        (uploadArtifact Env.standard [1, 2] 7) c.shared r s' →
          ¬ ReturnsUploaded (Env.standard.sha256 [1, 2]) r s' := by
  obtain ⟨c, hc, hfree, ⟨a, row⟩, hget, hfailed, hlease⟩ := exists_reaches World.fresh_initial
    failedContent
    (P := fun c => c.shared.db.artifacts.lookup 2 = none ∧
      ∃ found ∈ ArtifactsRepo.getByHash c.shared.db (Env.standard.sha256 [1, 2]),
        found.2.status = .failed ∧ found.2.uploadLeaseExpiresAt = none) (by decide +kernel)
  refine ⟨c, hc, ?_, fun r s' hend hreturns => ?_⟩
  · have hi : Undisturbed c.shared (Env.standard.sha256 [1, 2]) { uuid := 2 } := by
      refine ⟨hfree, fun b row' hget' t ht => ?_⟩
      cases hget.symm.trans hget'
      rw [hlease] at ht
      cases ht
    exact ⟨_, _, Prog.ends_eval hi _ _⟩
  · exact (returnsUploaded_iff hend).mp hreturns a row hget hfailed

/-- Content whose first upload was cut off is uploaded again. -/
theorem abandoned_content_uploads_again : ∃ (c : System Env.standard)
    (r : Except Exn (ArtifactId × Artifact)) (s' : World),
    Reaches World.fresh (session 0 (.uploadArtifact [1, 2] 7) 2 { uuid := 1 }) c ∧
      ReturnsUploaded (Env.standard.sha256 [1, 2]) r s' := by
  obtain ⟨c, hc, hfree, ⟨a, row⟩, hget, hlease⟩ := exists_reaches World.fresh_initial
    (session 0 (.uploadArtifact [1, 2] 7) 2 { uuid := 1 })
    (P := fun c : System .standard => c.shared.db.artifacts.lookup 2 = none ∧
      ∃ found ∈ ArtifactsRepo.getByHash c.shared.db (Env.standard.sha256 [1, 2]),
        found.2.uploadLeaseExpiresAt = none) (by decide +kernel)
  have hi : Undisturbed c.shared (Env.standard.sha256 [1, 2]) { uuid := 2 } := by
    refine ⟨hfree, fun b row' hget' t ht => ?_⟩
    cases hget.symm.trans hget'
    rw [hlease] at ht
    cases ht
  obtain ⟨r, s', hend⟩ : ∃ r s', Prog.Ends (Op.alone Env.standard 2)
      (Undisturbed c.shared (Env.standard.sha256 [1, 2])) (uploadArtifact Env.standard [1, 2] 7)
      c.shared r s' := ⟨_, _, Prog.ends_eval hi _ _⟩
  refine ⟨c, _, _, hc, (content_uploads_again_iff hc ?_ ?_ hend).mpr (by decide +kernel)⟩
  · intro a b row row' hrow
    cases hrow
  · intro a row hrow
    cases hrow

end PosttrainPlatform
