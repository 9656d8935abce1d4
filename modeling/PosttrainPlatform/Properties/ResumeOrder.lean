import PosttrainPlatform.Properties.Searches

/-!
# Resuming does not go backwards

A resume decision names the step of a checkpoint that stays compatible: checkpoints are not taken back,
an UPLOADED artifact remains so, and its object keeps its digest.  An attempt searches after the row of
its attempt was inserted, when no earlier attempt can record a decision any more.  So it does not pass
over the checkpoint of an earlier decision, unless the object store fails it.
-/

namespace PosttrainPlatform

open Programs

/-- NULL is below every step. -/
def StepLe (x y : Option ℤ) : Prop := ∀ n ∈ x, ∃ m ∈ y, n ≤ m

/-- **The resume decisions of a run do not go backwards**, from attempt to attempt. -/
def Db.ResumesForward (db : Db) : Prop :=
  ∀ runId a b x y, a < b → db.attemptResumeDecisions.lookup (runId, a) = some x →
    db.attemptResumeDecisions.lookup (runId, b) = some y → StepLe x y

/-! ### A checkpoint that stands -/

/-- The checkpoint is stored, its artifact is UPLOADED, and its object is intact at the key. -/
structure World.Stands (env : Env) (s : World) (c : ResumeCandidate) (key : Hash) : Prop where
  stored : s.db.checkpoints.lookup c.1 = some c.2
  uploaded : ∃ artifact, s.db.artifacts.lookup c.2.artifactId = some artifact ∧
    artifact.status = .uploaded ∧ artifact.contentHash = key
  intact : s.store.Intact env key

theorem World.Stands.grow {env : Env} {s s' : World} {c : ResumeCandidate} {key : Hash}
    (hc : s.Stands env c key) (hgrow : s.Grows s')
    (hstore : s.store.Intact env key → s'.store.Intact env key) : s'.Stands env c key := by
  refine ⟨hgrow.records.checkpoints c.1 c.2 hc.stored, ?_, hstore hc.intact⟩
  obtain ⟨artifact, hartifact, hs, hkey⟩ := hc.uploaded
  obtain ⟨artifact', hartifact', hhash, hstatus⟩ := hgrow.records.artifacts _ artifact hartifact
  exact ⟨artifact', hartifact', (hstatus (by rw [hs]; decide)).trans hs, hhash.trans hkey⟩

/-- The answer does justice to the checkpoint. -/
def Op.Fair (c : ResumeCandidate) (key : Hash) : (op : Op) → op.Ret → Prop
  | .listCheckpoints runId, candidates => runId = c.1.1 → c ∈ candidates
  | .getArtifact a, r => a = c.2.artifactId →
      ∃ artifact ∈ r, artifact.status = .uploaded ∧ artifact.contentHash = key
  | .objectExistsWithHash key' expected, b => key' = key → expected = key → b = true
  | _, _ => True

theorem fair_of_not_search {c : ResumeCandidate} {key : Hash} {op : Op} (hop : op.isSearch = false)
    (a : op.Ret) : op.Fair c key a := by
  cases op <;> trivial

/-- **Every answer does justice to a checkpoint that stands.** -/
theorem fair_perform {env : Env} {p : ℕ} {i : Input} {s : World} {c : ResumeCandidate} {key : Hash}
    (hc : s.Stands env c key) {op : Op} {a : op.Ret} (ha : (op.perform env p i s).2 = .ok a) :
    op.Fair c key a := by
  cases op
  case listCheckpoints runId =>
      intro hrun
      have hanswer : (s.db.checkpoints.rows.filter fun r => r.1.1 = runId) = a := Except.ok.inj ha
      rw [← hanswer, List.mem_filter]
      exact ⟨Table.mem_rows.mpr hc.stored, decide_eq_true hrun.symm⟩
  case getArtifact b =>
      rintro rfl
      have hanswer : s.db.artifacts.lookup c.2.artifactId = a := Except.ok.inj ha
      obtain ⟨artifact, hartifact, hs, hkey⟩ := hc.uploaded
      rw [← hanswer]
      exact ⟨artifact, hartifact, hs, hkey⟩
  case objectExistsWithHash key' expected =>
      intro hkey hexpected
      have hanswer : s.store.objectExistsWithHash env key' expected = a := Except.ok.inj ha
      rw [hkey, hexpected] at hanswer
      rw [← hanswer]
      exact objectExistsWithHash_iff.mpr hc.intact
  all_goals trivial

/-- The attempts of the job after attempt `a` have been told of the checkpoint. -/
def Heeded (h : Pasts) (j : JobId) (a : ℕ) (c : ResumeCandidate) (key : Hash) : Prop :=
  ∀ p b, a < b → (h p).Answered (.insertAttempt j b) () →
    ∀ op r, (h p).Answered op r → op.Fair c key r

/-- Whoever has been told of the checkpoint has not missed it. -/
theorem not_misses_of_fair {m : Past} {c : ResumeCandidate} {key : Hash}
    (hfair : ∀ op r, m.Answered op r → op.Fair c key r) : ¬ m.Misses c.2 := by
  intro hmisses
  cases hmisses with
  | status hread hs =>
      obtain ⟨artifact, hartifact, huploaded, _⟩ := hfair _ _ hread rfl
      exact hs artifact hartifact huploaded
  | content hread hlost =>
      obtain ⟨artifact, hartifact, _, hkey⟩ := hfair _ _ hread rfl
      cases hartifact
      cases hfair _ _ hlost hkey hkey

/-- **The decision stands on a checkpoint** that is compatible, and that later attempts see. -/
def Grounded (env : Env) (s : World) (h : Pasts) (runId : RunId) (a : ℕ) (n : ℤ) : Prop :=
  ∃ run c key, s.db.trainingRuns.lookup runId = some run ∧ c.1.1 = runId ∧ c.1.2.2 = n ∧
    c.2.baseModel = run.baseModel ∧
    c.2.checkpointFormatVersion = supportedCheckpointFormatVersion ∧ s.Stands env c key ∧
    Heeded h run.jobId a c key

/-- The objects that were found with their digests are there. -/
def Checked (env : Env) (s : World) (h : Pasts) : Prop :=
  ∀ p key, (h p).Answered (.objectExistsWithHash key key) true → s.store.Intact env key

/-- Every decision stands on its checkpoint, and the decisions are in order. -/
structure Forward (env : Env) (s : World) (h : Pasts) : Prop where
  grounded : ∀ runId a n, s.db.attemptResumeDecisions.lookup (runId, a) = some (some n) →
    Grounded env s h runId a n
  ordered : s.db.ResumesForward

/-! ### One statement -/

section Step

variable {env : Env} {p : ℕ} {s s' : World} {h h' : Pasts}

theorem Grounded.grow {runId : RunId} {a : ℕ} {n : ℤ} (hg : Grounded env s h runId a n)
    (hgrow : s.Grows s') (hstore : ∀ key, s.store.Intact env key → s'.store.Intact env key)
    (hheeded : ∀ j c key, s.Stands env c key → Heeded h j a c key → Heeded h' j a c key) :
    Grounded env s' h' runId a n := by
  obtain ⟨run, c, key, hrun, hown, hstep, hbase, hformat, hstands, hc⟩ := hg
  exact ⟨run, c, key, hgrow.records.trainingRuns runId run hrun, hown, hstep, hbase, hformat,
    hstands.grow hgrow (hstore key), hheeded run.jobId c key hstands hc⟩

/-- A statement answers fairly, and an attempt does not search before its row. -/
theorem Heeded.perform {j : JobId} {a : ℕ} {c : ResumeCandidate} {key : Hash} (hc : Heeded h j a c key)
    (hstands : s.Stands env c key) {op : Op} (hop : Past.Searches (h p) op) (i : Input) :
    Heeded (h.add p ⟨op, (op.perform env p i s).2⟩) j a c key := by
  intro q b hab hinsert op' r hr
  obtain ⟨_, heq⟩ | hold := Histories.mem_add.mp hr
  · obtain ⟨rfl, heq⟩ := Sigma.mk.inj_iff.mp heq
    exact fair_perform hstands (eq_of_heq heq).symm
  · obtain ⟨rfl, heq⟩ | hinserted := Histories.mem_add.mp hinsert
    · obtain ⟨rfl, _⟩ := Sigma.mk.inj_iff.mp heq
      exact fair_of_not_search (hop ⟨op', .ok r⟩ hold) r
    · exact hc q b hab hinserted op' r hold

/-- What a statement does to the resume decisions. -/
theorem RecordStep.decisions {db : Db} {i : Input} {op : Op} {c : Records}
    (hstep : RecordStep env db i op c) :
    c.attemptResumeDecisions = db.attemptResumeDecisions ∨
      ∃ j w run k step, op = .recordResumeDecision j w run k step ∧ db.Owns j w k ∧
        c.attemptResumeDecisions = db.attemptResumeDecisions.insert (run, k) step := by
  cases hstep with
  | recordResumeDecision howns hfree => exact Or.inr ⟨_, _, _, _, _, rfl, howns, rfl⟩
  | _ => exact Or.inl rfl

/-- The attempt whose row was inserted has begun. -/
theorem Knows.attempted_of_insert (hk : Knows env s h) {j : JobId} {b : ℕ}
    (hinsert : (h p).Answered (.insertAttempt j b) ()) : s.db.Attempted j b := by
  obtain ⟨w, job, _, hread, hnumber⟩ := hk.justified (.of_answered hinsert)
  subst hnumber
  exact hk.told p _ _ hread job rfl

/-- While an attempt is live no later one has begun. -/
theorem not_attempted_of_owns {j : JobId} {w : WorkerId} {k b : ℕ} (howns : s.db.Owns j w k)
    (hkb : k < b) : ¬ s.db.Attempted j b := by
  rintro ⟨job, hjob, hle⟩
  obtain ⟨job', hjob', howned⟩ := howns
  rw [hjob] at hjob'
  cases hjob'
  have hnumber : job.attemptNumber = k := howned.2.2
  omega

/-- **A new decision is not behind an earlier one.** -/
theorem Grounded.le_decision (hk : Knows env s h) {runId : RunId} {a b : ℕ} {n : ℤ}
    (hg : Grounded env s h runId a n) (hab : a < b) {j : JobId} {w : WorkerId} {step : Option ℤ}
    (hop : Past.Justifies env (h p) (.recordResumeDecision j w runId b step))
    (hsearch : Past.Searches (h p) (.recordResumeDecision j w runId b step))
    (hstore : ¬ Past.StoreFailed (h p)) : ∃ m ∈ step, n ≤ m := by
  obtain ⟨run, c, key, hrun, hown, hstep, hbase, hformat, hstands, hheeded⟩ := hg
  obtain ⟨run', candidates, hfind, hlist, hfound⟩ := hsearch
  obtain ⟨row, resumed, htrains, _⟩ := hop
  obtain ⟨hj, hrun'⟩ := hk.told p _ _ hfind runId run' rfl
  rw [hrun] at hrun'
  cases hrun'
  have hinsert : (h p).Answered (.insertAttempt run.jobId b) () := by
    rw [hj]
    exact htrains.attempts.inserted
  have hfair := hheeded p b hab hinsert
  have hmem : c ∈ candidates := hfair _ _ hlist hown.symm
  by_contra hless
  push Not at hless
  obtain hmisses | hfailed | hne | hne := hfound.refused c hmem fun m hm => hstep ▸ hless m hm
  · exact not_misses_of_fair hfair hmisses
  · exact hstore hfailed
  · exact hne hbase
  · exact hne hformat

/-- **A decision that is recorded stands on the checkpoint that was found.** -/
theorem grounded_of_search (hk : Knows env s h) (hchecked : Checked env s h) {j : JobId} {w : WorkerId}
    {runId : RunId} {k : ℕ} {n : ℤ} (howns : s.db.Owns j w k)
    (hsearch : Past.Searches (h p) (.recordResumeDecision j w runId k (some n))) :
    Grounded env s h runId k n := by
  obtain ⟨run, candidates, hfind, hlist, hfound⟩ := hsearch
  obtain ⟨hj, hrun⟩ := hk.told p _ _ hfind runId run rfl
  obtain ⟨c, hmem, hstep, ⟨artifact, hread, hs, hexists⟩, hbase, hformat⟩ := hfound.accepted n rfl
  obtain ⟨hown, hstored⟩ := hk.told p _ _ hlist c hmem
  obtain ⟨artifact', hartifact', hhash, hstatus⟩ := hk.told p _ _ hread artifact rfl
  refine ⟨run, c, artifact.contentHash, hrun, hown, hstep, hbase, hformat,
    ⟨hstored, ⟨artifact', hartifact', ?_, hhash⟩, hchecked p _ hexists⟩, ?_⟩
  · rw [hstatus (by rw [hs]; decide), hs]
  · intro q b hkb hinsert
    rw [hj] at hinsert
    exact absurd (hk.attempted_of_insert hinsert) (not_attempted_of_owns howns hkb)

/-- **Every statement keeps the decisions in order.** -/
theorem Forward.perform (hf : Forward env s h) (hk : Knows env s h) (hchecked : Checked env s h)
    {op : Op} (hop : Past.Disciplined env (h p) op) (hsearch : Past.Searches (h p) op)
    (hstore : ∀ q, ¬ Past.StoreFailed (h q)) (i : Input) :
    Forward env (op.perform env p i s).1 (h.add p ⟨op, (op.perform env p i s).2⟩) := by
  have hgrounded : ∀ {runId a n}, Grounded env s h runId a n →
      Grounded env (op.perform env p i s).1 (h.add p ⟨op, (op.perform env p i s).2⟩) runId a n := by
    intro runId a n hg
    refine hg.grow (perform_grows env p i s op) (fun key => Store.Intact.perform hk hop.2 i) ?_
    exact fun j c key hstands hc => hc.perform hstands hsearch i
  have hdecisions : (op.perform env p i s).1.db.attemptResumeDecisions = s.db.attemptResumeDecisions ∨
      ∃ j w run k step, op = .recordResumeDecision j w run k step ∧ s.db.Owns j w k ∧
        (op.perform env p i s).1.db.attemptResumeDecisions =
          s.db.attemptResumeDecisions.insert (run, k) step :=
    (perform_records env p i s op).decisions
  obtain hsame | ⟨j, w, run, k, step, rfl, howns, hinsert⟩ := hdecisions
  · refine ⟨fun runId a n hn => hgrounded (hf.grounded runId a n (hsame ▸ hn)), ?_⟩
    unfold Db.ResumesForward
    rw [hsame]
    exact hf.ordered
  · refine ⟨fun runId a n hn => hgrounded ?_, fun runId a b x y hab hx hy n hn => ?_⟩
    · rw [hinsert] at hn
      obtain ⟨hkey, hstep⟩ | hold := lookup_insert_cases hn
      · cases hkey
        subst hstep
        exact grounded_of_search hk hchecked howns hsearch
      · exact hf.grounded runId a n hold
    · rw [hinsert] at hx hy
      obtain ⟨hkey, hstep⟩ | hold := lookup_insert_cases hy
      · -- the later decision is the new one
        cases hkey
        subst hstep
        obtain ⟨hkey, _⟩ | hearlier := lookup_insert_cases hx
        · cases hkey
          omega
        · rw [show x = some n from hn] at hearlier
          exact (hf.grounded _ a n hearlier).le_decision hk hab hop.2 hsearch (hstore p)
      · obtain ⟨hkey, _⟩ | hearlier := lookup_insert_cases hx
        · -- an earlier attempt is not live any more
          cases hkey
          obtain ⟨q, j', w', hexecuted⟩ := hk.sources.decisions run b y hold
          obtain ⟨row', _, htrains', _⟩ := hk.justified hexecuted
          obtain ⟨row, _, htrains, _⟩ := hop.2
          obtain ⟨hj, hrow⟩ := hk.told p _ _ htrains.found run row rfl
          obtain ⟨hj', hrow'⟩ := hk.told q _ _ htrains'.found run row' rfl
          rw [hrow] at hrow'
          cases hrow'
          cases hj.symm.trans hj'
          exact absurd (hk.attempted htrains'.attempts) (not_attempted_of_owns howns hab)
        · exact hf.ordered runId a b x y hab hearlier hold n hn

/-- A change that leaves the records and the objects alone, and adds no answer. -/
theorem Forward.frame (hf : Forward env s h) (hgrow : s.Grows s')
    (hdecisions : s'.db.attemptResumeDecisions = s.db.attemptResumeDecisions)
    (hstore : s'.store = s.store)
    (hanswers : ∀ q op (a : op.Ret), (h' q).Answered op a → (h q).Answered op a) :
    Forward env s' h' := by
  refine ⟨fun runId a n hn => ?_, ?_⟩
  · refine (hf.grounded runId a n (hdecisions ▸ hn)).grow hgrow (fun key hkey => hstore ▸ hkey) ?_
    exact fun j c key _ hc q b hab hinsert op r hr =>
      hc q b hab (hanswers q _ _ hinsert) op r (hanswers q op r hr)
  · unfold Db.ResumesForward
    rw [hdecisions]
    exact hf.ordered

end Step

/-! ### Every run -/

/-- The failure is not that of a look at the object store. -/
def Op.storeAnswers : Op → Exn → Bool
  | .objectExistsWithHash .., .clientError => false
  | _, _ => true

/-- The object store answers whenever the run looks for an object. -/
def StoreAnswers {env : Env} (s : World) (es : List (SysEvent env)) : Prop :=
  Runs.Always Config.step (Config.AtException fun op x => op.storeAnswers x = true)
    ({ shared := s } : System env) es

instance decidableStoreAnswers {env : Env} (s : World) (es : List (SysEvent env)) :
    Decidable (StoreAnswers s es) := Runs.decidableAlways _ _

theorem checked_invariant (env : Env) :
    HistoryInvariant (M := platform env) (Past.Disciplined env) (Checked env) (Knows env)
      fun _ _ _ => True where
  perform _ i _ _ _ _ hk hchecked hop _ := fun _ _ ha => checked_perform hk hop.2 i hchecked ha
  fault _ _ _ _ _ _ hchecked _ := fun q key ha => hchecked q key (Histories.answered_of_fault ha)
  halt _ _ _ _ hchecked := hchecked
  ambient a s _ _ hchecked := fun q key ha => by
    show (s.beat env a.1 a.2).store.Intact env key
    rw [beat_frame]
    exact hchecked q key ha

theorem forward_invariant (env : Env) :
    HistoryInvariant (M := platform env)
      (fun h op => Past.Disciplined env h op ∧ Past.Searches h op)
      (fun s h => (∀ p, ¬ Past.StoreFailed (h p)) → Forward env s h)
      (fun s h => Knows env s h ∧ Checked env s h) fun _ _ _ => True where
  perform p i _ op s h hk hf hop _ hstore := by
    have hbefore : ∀ q, ¬ Past.StoreFailed (h q) :=
      fun q hfailed => hstore q (hfailed.mono (Histories.subset_add h p q _))
    exact (hf hbefore).perform hk.1 hk.2 hop.1 hop.2 hbefore i
  fault p e op s h _ hf _ hstore := by
    have hbefore : ∀ q, ¬ Past.StoreFailed (h q) :=
      fun q hfailed => hstore q (hfailed.mono (Histories.subset_add h p q _))
    exact (hf hbefore).frame (.refl s) rfl rfl fun q _ _ ha => Histories.answered_of_fault ha
  halt p s h _ hf hstore := (hf hstore).frame (s.stopHeartbeat_grows p) rfl rfl fun _ _ _ => id
  ambient a s h _ hf hstore := by
    refine (hf hstore).frame (beat_grows env s a.1 a.2) ?_ ?_ fun _ _ _ => id
    · show (s.beat env a.1 a.2).db.attemptResumeDecisions = _
      rw [beat_frame]
    · show (s.beat env a.1 a.2).store = _
      rw [beat_frame]

/-- **The decisions that a run records are in order.** -/
theorem forward_of_reaches {env : Env} {s : World} {es : List (SysEvent env)} {c : System env}
    (h : Reaches s es c) (hstore : StoreAnswers s es) :
    Forward env c.shared (pasts env s es) := by
  have hprog : ∀ call : Call, (call.program env).Justified
      (fun h op => Past.Disciplined env h op ∧ Past.Searches h op) [] fun _ _ => True := fun call =>
    ((disciplined_program env call).and (searches_program env call)).mono fun _ _ _ => trivial
  have hchecked : ∀ {fs m}, Reaches s fs m → Checked env m.shared (pasts env s fs) := fun hm =>
    (checked_invariant env).run (disciplined_program env) (fun _ _ ha => by cases ha)
      (fun fs m _ hfs => knows_of_reaches ⟨h.1, hfs⟩)
      (Runs.always_of_forall (Config.atStep_of_forall fun _ _ _ => trivial) _ _) hm.2
  refine (forward_invariant env).run hprog (fun _ => ?_)
    (fun fs m _ hm => ⟨knows_of_reaches ⟨h.1, hm⟩, hchecked ⟨h.1, hm⟩⟩)
    (Runs.always_of_forall (Config.atStep_of_forall fun _ _ _ => trivial) _ es) h.2 ?_
  · have hempty : s.db.attemptResumeDecisions = ∅ := by
      rw [h.1.db]
    refine ⟨fun runId a n hn => ?_, fun runId a b x y _ hx => ?_⟩
    · rw [hempty] at hn
      cases hn
    · rw [hempty] at hx
      cases hx
  · rintro p ⟨key, expected, hfailed⟩
    -- no look at the store fails by itself
    have hanswers : ∀ p (call : Call) (op : Op) i s e,
        (op.perform env p i s).2 = .error e → op.storeAnswers e = true := by
      intro p call op i s e he
      cases op <;> first | rfl | cases he
    cases exceptions_of_run (M := platform env) hanswers hstore h.2 hfailed

/-- **Discovery finds the greatest compatible checkpoint of the run**, or none where there is none. -/
def DiscoveryOptimal (env : Env) (p : ℕ) (supply : Supply) (s : World) (runId : RunId)
    (run : TrainingRun) : Prop :=
  ∃ found : Option ResumeCandidate,
    evalAlone env p supply (findResumeCheckpoint runId run) s =
      (.ok (found.map fun c => (c.1.2.2, c.2)), s) ∧
    (∀ c, found = some c ↔ Resumable env s runId run c ∧
      ∀ c', Resumable env s runId run c' → c'.place ≤ c.place) ∧
    (found = none ↔ ∀ c, ¬ Resumable env s runId run c)

/-- **Discovery is optimal, and resuming does not go backwards** while the object store answers. -/
theorem resume_sound (env : Env) :
    (∀ p supply s runId run, DiscoveryOptimal env p supply s runId run) ∧
    ∀ (s : World) (es : List (SysEvent env)) (c : System env), Reaches s es c →
      StoreAnswers s es → c.shared.db.ResumesForward :=
  ⟨fun _ _ _ _ _ => ⟨_, findResumeCheckpoint_alone, fun _ => resumeCheckpoint_eq_some,
    resumeCheckpoint_eq_none⟩, fun _ _ _ h hstore => (forward_of_reaches h hstore).ordered⟩

/-! ### Attempts that resume -/

/-- The subprocess reports a checkpoint of this step. -/
def checkpointReported (step : ℤ) : Input where
  uuid := 9
  lines := [.json (.obj [("event", .str "checkpoint"), ("local_path", .str "c"),
    ("step", .num step)])]
  file := some [1]

/-- An attempt registers a checkpoint and dies, recovery takes the job back, and the next attempt
records its resume decision. -/
def resumedAttempt (step : ℤ) : List (SysEvent Env.standard) :=
  session 0 (.createTrainingRun trainingPayload) 3 { uuid := 1 } ++ session 1 .schedulerRunOnce 8 {} ++
    session 2 (.processJobMessage 1 7) 19 (checkpointReported step) ++ [.crash 2] ++
    session 3 .recoveryRunOnce 4 { now := 100 } ++ session 4 .schedulerRunOnce 8 { now := 200 } ++
    session 5 (.processJobMessage 1 8) 13 { now := 200 }

/-- **An attempt resumes** from the step of the one before. -/
theorem second_attempt_resumes : ∃ c : System Env.standard,
    Reaches World.registry (resumedAttempt 1) c ∧ c.shared.db.ResumesForward ∧
      c.shared.db.attemptResumeDecisions.lookup (1, 1) = some none ∧
      c.shared.db.attemptResumeDecisions.lookup (1, 2) = some (some 1) := by
  obtain ⟨c, hc, hfirst, hsecond⟩ := exists_reaches World.registry_initial (resumedAttempt 1)
    (P := fun c => c.shared.db.attemptResumeDecisions.lookup (1, 1) = some none ∧
      c.shared.db.attemptResumeDecisions.lookup (1, 2) = some (some 1)) (by decide +kernel)
  have hforward := (resume_sound Env.standard).2 World.registry (resumedAttempt 1) c hc
    (by decide +kernel)
  exact ⟨c, hc, hforward, hfirst, hsecond⟩

/-- The decisions of a run are in order where NULL counts as 0. -/
def Db.ResumesForwardFromZero (db : Db) : Prop :=
  ∀ runId a b x y, a < b → db.attemptResumeDecisions.lookup (runId, a) = some x →
    db.attemptResumeDecisions.lookup (runId, b) = some y → x.getD 0 ≤ y.getD 0

/-- Every object has its digest for its key. -/
def Store.Uncorrupted (env : Env) (store : Store) : Prop :=
  ∀ e ∈ store.entries, env.sha256 e.2 = e.1

instance decidableUncorrupted (env : Env) (store : Store) : Decidable (store.Uncorrupted env) :=
  inferInstanceAs (Decidable (∀ e ∈ store.entries, env.sha256 e.2 = e.1))

/-- The third attempt looks for the object of the checkpoint in vain, because the store fails. -/
def failingStore : List (SysEvent Env.standard) :=
  resumedAttempt 1 ++ [.crash 5] ++
    session 6 .recoveryRunOnce 4 { now := 300 } ++ session 7 .schedulerRunOnce 8 { now := 400 } ++
    session 8 (.processJobMessage 1 9) 9 { now := 400 } ++ [.fault 8 .clientError] ++
    proceed 8 1 { now := 400 }

/-- **NULL is not 0, and the store may fail**: the second attempt resumes from step -5 after a first
one that resumed from nothing; and an attempt resumes from nothing after one that resumed from step 1,
though no object is corrupted and no step negative. -/
theorem resumed_backwards :
    (∃ c : System Env.standard, Reaches World.registry (resumedAttempt (-5)) c ∧
      StoreAnswers World.registry (resumedAttempt (-5)) ∧
      c.shared.store.Uncorrupted Env.standard ∧ ¬ c.shared.db.ResumesForwardFromZero) ∧
    ∃ c : System Env.standard, Reaches World.registry failingStore c ∧
      (∀ r ∈ c.shared.db.checkpoints.rows, 0 ≤ r.1.2.2) ∧
      c.shared.store.Uncorrupted Env.standard ∧ ¬ c.shared.db.ResumesForwardFromZero := by
  constructor
  · obtain ⟨c, hc, hstore, hfirst, hsecond⟩ := exists_reaches World.registry_initial
      (resumedAttempt (-5)) (P := fun c => c.shared.store.Uncorrupted Env.standard ∧
        c.shared.db.attemptResumeDecisions.lookup (1, 1) = some none ∧
        c.shared.db.attemptResumeDecisions.lookup (1, 2) = some (some (-5))) (by decide +kernel)
    refine ⟨c, hc, by decide +kernel, hstore, fun h => ?_⟩
    have hle := h 1 1 2 none (some (-5)) (by decide) hfirst hsecond
    simp at hle
  · obtain ⟨c, hc, hsteps, hstore, hsecond, hthird⟩ := exists_reaches World.registry_initial
      failingStore (P := fun c => (∀ r ∈ c.shared.db.checkpoints.rows, 0 ≤ r.1.2.2) ∧
        c.shared.store.Uncorrupted Env.standard ∧
        c.shared.db.attemptResumeDecisions.lookup (1, 2) = some (some 1) ∧
        c.shared.db.attemptResumeDecisions.lookup (1, 3) = some none) (by decide +kernel)
    refine ⟨c, hc, hsteps, hstore, fun h => ?_⟩
    have hle := h 1 2 3 (some 1) none (by decide) hsecond hthird
    simp at hle

end PosttrainPlatform
