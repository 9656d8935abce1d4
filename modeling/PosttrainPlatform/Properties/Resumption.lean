import PosttrainPlatform.Properties.ResumeOrder
import PosttrainPlatform.Properties.ToyTrainings

/-!
# Resuming does not change a training

A worker is killed, the job is taken back, and the next attempt resumes from a checkpoint.  For the toy
trainer the file of a checkpoint holds the state that a training from scratch has at its step, whichever
attempt has written it; so every attempt goes on where the training from scratch would be
(`Resumed.perform`), and the run ends with the same model.
-/

namespace PosttrainPlatform

open Programs Process ToyTrainer

/-- The run trains with the toy trainer, and leaves it to the platform where to resume from. -/
structure TrainingRun.IsToy (run : TrainingRun) : Prop where
  entrypoint : run.trainingConfig.getD "training_entrypoint" toyTrainerEntrypoint =
    toyTrainerEntrypoint
  unresumed : run.trainingConfig.get? "resume_from" = none

/-! ### The context of an attempt -/

section Context

variable {t : Ticket} {run : TrainingRun} {resources : Dict} {resumed : Option (ℤ × Bytes)}

theorem lookup_filter_ne {key other : String} (h : key ≠ other) (d : Dict) :
    (d.filter fun kv => kv.1 ≠ other).lookup key = d.lookup key := by
  induction d with
  | nil => rfl
  | cons kv d ih =>
      obtain ⟨key', v⟩ := kv
      by_cases hother : key' = other
      · subst hother
        rw [List.filter_cons_of_neg (by simp), List.lookup_cons, beq_false_of_ne h, ih]
      · rw [List.filter_cons_of_pos (by simpa using hother), List.lookup_cons, List.lookup_cons, ih]

theorem lookup_filter_self (key : String) (d : Dict) :
    (d.filter fun kv => kv.1 ≠ key).lookup key = none := by
  refine List.lookup_eq_none_iff.mpr fun kv hkv => ?_
  have hne : kv.1 ≠ key := by simpa using (List.mem_filter.mp hkv).2
  simpa using hne.symm

/-- What the supervisor adds to a context. -/
def supervisorKeys : List String :=
  ["training_run_id", "attempt_number", "work_dir", "required_gpu", "required_memory_mb",
    "training_entrypoint", "resume_from"]

/-- The other keys are those of the configuration. -/
theorem get?_trainingContext {key : String} (hkey : key ∉ supervisorKeys) :
    (trainingContext t run resources resumed).get? key = run.trainingConfig.get? key := by
  have hne : ∀ other ∈ supervisorKeys, key ≠ other := fun other hmem heq => hkey (heq ▸ hmem)
  unfold trainingContext Dict.get?
  rw [List.lookup_append, lookup_filter_ne (hne _ (by simp [supervisorKeys]))]
  have hnone : ∀ d : Dict, (∀ kv ∈ d, kv.1 ∈ supervisorKeys) → d.lookup key = none := by
    refine fun d hd => List.lookup_eq_none_iff.mpr fun kv hkv => ?_
    simpa using hne _ (hd kv hkv)
  refine (congrArg _ (hnone _ ?_)).trans Option.or_none
  simp [supervisorKeys]

theorem getD_trainingContext {key : String} (hkey : key ∉ supervisorKeys) (dflt : Json) :
    (trainingContext t run resources resumed).getD key dflt = run.trainingConfig.getD key dflt := by
  unfold Dict.getD
  rw [get?_trainingContext hkey]

theorem TrainingRun.IsToy.entrypoint_context (h : run.IsToy) :
    (trainingContext t run resources resumed).get? "training_entrypoint" =
      some toyTrainerEntrypoint := by
  unfold trainingContext Dict.get?
  rw [List.lookup_append, lookup_filter_self]
  exact congrArg some h.entrypoint

theorem TrainingRun.IsToy.resumeFrom_context (h : run.IsToy) :
    (trainingContext t run resources resumed).getD "resume_from" .null = resumeFrom t resumed := by
  have hnone : run.trainingConfig.lookup "resume_from" = none := h.unresumed
  unfold trainingContext Dict.getD Dict.get?
  rw [List.lookup_append, lookup_filter_ne (by decide), hnone]
  rfl

/-- The states of a training are those of its configuration. -/
theorem stateAt_trainingContext (m : ℕ) :
    stateAt (trainingContext t run resources resumed) m = stateAt run.trainingConfig m := by
  unfold stateAt
  rw [getD_trainingContext (by decide), getD_trainingContext (by decide)]

end Context

/-! ### Where an attempt begins -/

/-- The step is below the maximum of the configuration. -/
def BelowMax (py : Python) (config : Dict) (m : ℕ) : Prop :=
  ∃ v, config.get? "max_steps" = some v ∧ pyLess py (.num m) v = some true

/-- The trainer of the attempt begins after `m` steps, and these are the ones of its decision. -/
structure Past.BeginsAfter (h : Past) (py : Python) (t : Ticket) (run : TrainingRun) (context : Dict)
    (files : List (String × Bytes)) (m : ℕ) : Prop where
  decided : ∃ (step : Option ℤ) (b : Bool), h.Answered
    (.recordResumeDecision t.jobId t.workerId t.runId t.attemptNumber step) b ∧ step.getD 0 = m
  begins : ∀ host, BeginsAt py host files context m
  below : m = 0 ∨ BelowMax py run.trainingConfig m

/-- **Every toy training begins after the steps of its decision.** -/
def Resumed (py : Python) (h : Pasts) : Prop :=
  ∀ p context files lines, (h p).Answered (.spawn .training context files) lines →
    ∃ (t : Ticket) (run : TrainingRun), Past.Trains (h p) t run ∧
      (∃ resources resumed, context = trainingContext t run resources resumed) ∧
      (run.IsToy → ∃ m, Past.BeginsAfter (h p) py t run context files m)

/-- No file that was read has the digest of another that was downloaded. -/
def CollisionFree (env : Env) (h : Pasts) : Prop :=
  ∀ p q path key data data', (h p).Answered (.readFile path) data →
    (h q).Answered (.download key) data' → env.sha256 data = env.sha256 data' → data = data'

/-! ### What was downloaded -/

/-- The objects and what was downloaded of them have their keys for digests. -/
structure Authentic (env : Env) (s : World) (h : Pasts) : Prop where
  store : ∀ key data, s.store.lookup key = some data → env.sha256 data = key
  downloads : ∀ p key data, (h p).Answered (.download key) data → env.sha256 data = key

section Authentic

variable {env : Env} {p : ℕ} {s s' : World} {h h' : Pasts}

theorem Authentic.perform (ha : Authentic env s h) (hk : Knows env s h) {op : Op}
    (hop : Past.Justifies env (h p) op) (i : Input) :
    Authentic env (op.perform env p i s).1 (h.add p ⟨op, (op.perform env p i s).2⟩) := by
  refine ⟨fun key data hdata => ?_, fun q key data hdownload => ?_⟩
  · by_cases hupload : ∃ key' data', op = .upload key' data'
    · obtain ⟨key', data', rfl⟩ := hupload
      have hinsert : (s.store.insert key' data').lookup key = some data := hdata
      obtain heq | hne := eq_or_ne key key'
      · rw [heq, AList.lookup_insert] at hinsert
        cases hinsert
        rw [heq]
        exact hk.upload hop
      · exact ha.store key data ((AList.lookup_insert_ne hne).symm.trans hinsert)
    · push Not at hupload
      rw [perform_store env p i s fun key' data' => hupload key' data'] at hdata
      exact ha.store key data hdata
  · obtain ⟨rfl, hnew⟩ | hold := Histories.answered_add hdownload
    · obtain ⟨rfl, hanswer⟩ := Sigma.mk.inj_iff.mp hnew
      have hread := (eq_of_heq hanswer).symm
      simp only [Op.perform] at hread
      split at hread
      · rename_i data' hdata
        cases hread
        exact ha.store key _ hdata
      · cases hread
    · exact ha.downloads q key data hold

/-- A change that leaves the objects alone, and adds no answer. -/
theorem Authentic.frame (ha : Authentic env s h) (hstore : s'.store = s.store)
    (hanswers : ∀ q op (a : op.Ret), (h' q).Answered op a → (h q).Answered op a) :
    Authentic env s' h' :=
  ⟨fun key data hdata => ha.store key data (hstore ▸ hdata),
    fun q key data hdownload => ha.downloads q key data (hanswers q _ _ hdownload)⟩

theorem authentic_invariant (env : Env) :
    HistoryInvariant (M := platform env) (Past.Disciplined env) (Authentic env) (Knows env)
      fun _ _ _ => True where
  perform _ i _ _ _ _ hk ha hop _ := ha.perform hk hop.2 i
  fault _ _ _ _ _ _ ha _ := ha.frame rfl fun _ _ _ => Histories.answered_of_fault
  halt _ _ _ _ ha := ha.frame rfl fun _ _ _ => id
  ambient a s _ _ ha := by
    refine ha.frame ?_ fun _ _ _ => id
    show (s.beat env a.1 a.2).store = s.store
    rw [beat_frame]

theorem authentic_of_reaches {es : List (SysEvent env)} {c : System env} (h : Reaches s es c)
    (hs : s.store.Uncorrupted env) : Authentic env c.shared (pasts env s es) := by
  refine (authentic_invariant env).run (disciplined_program env) ⟨fun key data hdata => ?_, ?_⟩
    (fun fs m _ hm => knows_of_reaches ⟨h.1, hm⟩)
    (Runs.always_of_forall (Config.atStep_of_forall fun _ _ _ => trivial) _ es) h.2
  · exact hs ⟨key, data⟩ (AList.mem_lookup_iff.mp hdata)
  · exact fun _ _ _ ha => by cases ha

end Authentic

/-! ### The events of a toy trainer -/

/-- The configuration of a trainer is that of the run. -/
structure TrainsBy (run : TrainingRun) (c : ToyTrainer.Config) : Prop where
  maxSteps : run.trainingConfig.get? "max_steps" = some c.maxSteps
  learningRate : run.trainingConfig.get? "learning_rate" = some c.learningRate
  targetValue : c.targetValue = run.trainingConfig.getD "target_value" (.num 1)

theorem TrainsBy.of_reads {t : Ticket} {run : TrainingRun} {resources : Dict}
    {resumed : Option (ℤ × Bytes)} {c : ToyTrainer.Config}
    (h : c.Reads (trainingContext t run resources resumed)) : TrainsBy run c := by
  refine ⟨?_, ?_, ?_⟩
  · rw [← h.maxSteps, get?_trainingContext (by decide)]
  · rw [← h.learningRate, get?_trainingContext (by decide)]
  · rw [h.targetValue, getD_trainingContext (by decide)]

theorem TrainsBy.stateAt {run : TrainingRun} {c : ToyTrainer.Config} (h : TrainsBy run c) (m : ℕ) :
    stateAt run.trainingConfig m = (c.paramAt m, .num m) := by
  unfold ToyTrainer.stateAt Config.paramAt
  rw [Dict.getD_of_get? h.learningRate, ← h.targetValue]

/-- **An event of a toy trainer**: where it has begun, what it has reported before was handled, and the
files that it has written before are those that were read. -/
structure Past.ToyEvent (env : Env) (py : Python) (h : Past) (t : Ticket) (run : TrainingRun)
    (event : Dict) (c : ToyTrainer.Config) (m : ℕ) (acts : List Action) : Prop where
  config : TrainsBy run c
  begins : ∃ context files, h.BeginsAfter py t run context files m
  does : c.Does env py m acts (.report event)
  handled : ∀ e, .report e ∈ acts → h.HandledTraining t e
  metrics : ∀ e, .report e ∈ acts → e.get? "event" = some (.str "metric") →
    ∃ earlier, c.Does env py m earlier (.report e)
  files : ∀ path data, .write path data ∈ acts →
    (∀ earlier data', c.Does env py m earlier (.write path data') → data' = data) →
      ∀ data', h.Answered (.readFile (.str path)) data' → data' = data

section ToyEvent

variable {env : Env} {py : Python} {s : World} {h : Pasts} {q : ℕ} {t : Ticket} {event : Dict}
  {run : TrainingRun}

/-- A thread has one attempt and one training run. -/
theorem Knows.trains_unique (hk : Knows env s h) {t' : Ticket} {run' : TrainingRun}
    (ht : Past.Trains (h q) t run) (ht' : Past.Trains (h q) t' run') : t' = t ∧ run' = run := by
  have horder := hk.inOrder q
  obtain ⟨hj, hw, hn⟩ := Past.Attempts.unique horder ht'.attempts ht.attempts
  have hfound := Past.InOrder.unique horder ht'.found ht.found rfl (by simp [Op.rank])
  obtain ⟨j, w, k, runId⟩ := t
  obtain ⟨j', w', k', runId'⟩ := t'
  simp only at hj hw hn
  subst hj hw hn
  obtain ⟨_, hanswer⟩ := Sigma.mk.inj_iff.mp hfound
  obtain ⟨rfl, rfl⟩ := Prod.mk.inj (Option.some.inj (Except.ok.inj (eq_of_heq hanswer)))
  exact ⟨rfl, rfl⟩

/-- **What is known of a reported event** of a run that trains with the toy trainer. -/
theorem Resumed.toyEvent (hr : Resumed py h) (hk : Knows env s h) (ho : Opened env py s h)
    (hevent : Past.TrainingEvent (h q) t event)
    (hrun : s.db.trainingRuns.lookup t.runId = some run) (htoy : run.IsToy) {kind : String}
    (hkind : event.get? "event" = some (.str kind)) (hkinds : kind ∉ framingKinds) :
    ∃ c m acts, Past.ToyEvent env py (h q) t run event c m acts := by
  obtain ⟨run', context, files, hstart, before, after, hspawn, hhandled⟩ := hevent
  obtain ⟨t', run'', htrains, ⟨resources, resumed, rfl⟩, hbegins⟩ := hr q _ _ _ hspawn
  obtain ⟨rfl, rfl⟩ := hk.trains_unique hstart.trains htrains
  -- the run that the attempt has found is the stored one
  obtain ⟨_, hrun'⟩ := hk.told q _ _ hstart.trains.found _ _ rfl
  obtain rfl : run'' = run := Option.some.inj (hrun'.symm.trans hrun)
  obtain ⟨m, hbegins⟩ := hbegins htoy
  obtain ⟨i, hruns, hlines, _, hreads⟩ := ho q _ _ _ _ hspawn
  obtain ⟨c, acts, hc, hdoes, hbefore, hfiles⟩ :=
    (hruns htoy.entrypoint_context).event hbegins.begins hlines hkind hkinds
  refine ⟨c, m, acts, .of_reads hc, ⟨_, _, hbegins⟩, hdoes, fun e he => ?_, fun e he => ?_, ?_⟩
  · exact hhandled e (hbefore e he).1
  · exact (hbefore e he).2
  · exact fun path data hwrite hsame data' hread =>
      hreads path data data' (hfiles path data hwrite hsame) hread

/-- **A checkpoint event**, with its step and the content of its file. -/
theorem Past.ToyEvent.checkpoint {h : Past} {c : ToyTrainer.Config} {m : ℕ} {acts : List Action}
    (hstr : Function.Injective fun n : ℕ => env.pyStr (.num n))
    (he : h.ToyEvent env py t run event c m acts)
    (hkind : event.get? "event" = some (.str "checkpoint")) :
    ∃ n, m < n ∧ c.Below py n ∧ c.Measured acts m n ∧ event.get? "step" = some (.num n) ∧
      ∀ data, h.Delivers event data → data = py.dumps (c.checkpointFile (c.paramAt n) (.num n)) := by
  obtain ⟨n, hm, hbelow, hmeasured, hsaved, rfl⟩ := he.does.checkpoint_event hkind
  refine ⟨n, hm, hbelow, hmeasured, rfl, fun data hdelivers => ?_⟩
  obtain ⟨path, hpath, hread⟩ := hdelivers
  obtain rfl : .str (c.checkpointPath env (.num n)) = path := Option.some.inj hpath
  exact he.files _ _ hsaved (fun _ _ hdoes => hdoes.content hstr) data hread

/-- A number of steps of the training of a run is what its trainer holds. -/
structure Saves (env : Env) (py : Python) (s : World) (h : Past) (run : TrainingRun)
    (c : ToyTrainer.Config) (m : ℕ) (a : ArtifactId) : Prop where
  config : TrainsBy run c
  below : c.Below py m
  read : ∃ path, h.Answered (.readFile path) (py.dumps (c.checkpointFile (c.paramAt m) (.num m)))
  artifact : ∀ artifact, s.Continues a artifact → artifact.contentHash =
    env.sha256 (py.dumps (c.checkpointFile (c.paramAt m) (.num m)))

/-- **Every checkpoint holds the state of the training from scratch at its step.** -/
theorem Resumed.saves (hr : Resumed py h) (hk : Knows env s h) (ho : Opened env py s h)
    (hstr : Function.Injective fun n : ℕ => env.pyStr (.num n)) {runId : RunId} {k : ℕ} {n : ℤ}
    {row : Checkpoint} (hrow : s.db.checkpoints.lookup (runId, k, n) = some row)
    (hrun : s.db.trainingRuns.lookup runId = some run) (htoy : run.IsToy) :
    ∃ q c, ∃ m : ℕ, n = m ∧ 0 < m ∧ Saves env py s (h q) run c m row.artifactId := by
  obtain ⟨q, j, w, step, base, hstep, hexecuted⟩ := hk.sources.checkpoints runId k n row hrow
  obtain ⟨event, ⟨hevent, data, hdelivers, hholds, _⟩, hkind, hstep'⟩ := hk.justified hexecuted
  obtain ⟨c, m₀, acts, he⟩ := hr.toyEvent hk ho hevent hrun htoy hkind (by decide)
  obtain ⟨m, hm, hbelow, _, hstep'', hdata⟩ := he.checkpoint hstr hkind
  obtain rfl : step = .num m := Option.some.inj (hstep'.symm.trans hstep'')
  obtain rfl := hdata data hdelivers
  obtain ⟨path, _, hread⟩ := hdelivers
  refine ⟨q, c, m, intColumn_natCast hstep, by omega, he.config, hbelow, ⟨path, hread⟩, ?_⟩
  exact fun artifact hartifact => hk.contentHash hholds hartifact

end ToyEvent

/-! ### Every attempt -/

section Resumed

variable {env : Env} {py : Python} {p : ℕ} {s : World} {h h' : Pasts}

theorem Past.BeginsAfter.mono {m m' : Past} (hsub : m ⊆ m') {t : Ticket} {run : TrainingRun}
    {context : Dict} {files : List (String × Bytes)} {n : ℕ}
    (hh : m.BeginsAfter py t run context files n) : m'.BeginsAfter py t run context files n := by
  obtain ⟨step, b, hdecided, hstep⟩ := hh.decided
  exact ⟨⟨step, b, hdecided.mono hsub, hstep⟩, hh.begins, hh.below⟩

theorem CollisionFree.of_subset (hfree : CollisionFree env h') (hsub : ∀ q, h q ⊆ h' q) :
    CollisionFree env h := fun p q path key data data' hread hdownload =>
  hfree p q path key data data' (hread.mono (hsub p)) (hdownload.mono (hsub q))

/-- **A training that is started goes on after the steps of its decision.** -/
theorem Resumed.begins (hr : Resumed py h) (hk : Knows env s h) (ho : Opened env py s h)
    (ha : Authentic env s h) (hfree : CollisionFree env h)
    (hstr : Function.Injective fun n : ℕ => env.pyStr (.num n)) {t : Ticket} {run : TrainingRun}
    {context : Dict} {files : List (String × Bytes)}
    (hstart : Past.StartsTraining (h p) t run context files) (htoy : run.IsToy) :
    ∃ m, Past.BeginsAfter (h p) py t run context files m := by
  obtain ⟨resources, resumed, b, hresumes, hdecided, rfl, rfl⟩ := hstart.prepared
  obtain _ | ⟨step, data⟩ := resumed
  · exact ⟨0, ⟨none, b, hdecided, rfl⟩, fun host => beginsAt_zero htoy.resumeFrom_context, Or.inl rfl⟩
  · obtain ⟨rows, key, checkpoint, artifact, hrows, hmem, rfl, hartifact, hdownload⟩ :=
      hresumes step data rfl
    obtain ⟨hown, hrow⟩ := hk.told p _ _ hrows _ hmem
    obtain ⟨_, hrun⟩ := hk.told p _ _ hstart.trains.found _ _ rfl
    obtain ⟨runId, k, n⟩ := key
    obtain rfl : runId = t.runId := hown
    obtain ⟨q, c, m, hn, _, hsaves⟩ := hr.saves hk ho hstr hrow hrun htoy
    -- what was downloaded is what the earlier attempt has written
    have hdigest := hsaves.artifact artifact (hk.told p _ _ hartifact artifact rfl)
    obtain ⟨path, hread⟩ := hsaves.read
    obtain rfl := hfree q p _ _ _ _ hread hdownload
      (hdigest.symm.trans (ha.downloads p _ _ hdownload).symm)
    refine ⟨m, ⟨some n, b, hdecided, hn⟩, fun host => ?_,
      Or.inr ⟨c.maxSteps, hsaves.config.maxSteps, hsaves.below⟩⟩
    refine beginsAt_of_file htoy.resumeFrom_context (List.lookup_cons_self) (py.loads_dumps _) ?_ ?_
    all_goals
      rw [stateAt_trainingContext, hsaves.config.stateAt]
      rfl

theorem Resumed.perform (hr : Resumed py h) (hk : Knows env s h) (ho : Opened env py s h)
    (ha : Authentic env s h) (hfree : CollisionFree env h)
    (hstr : Function.Injective fun n : ℕ => env.pyStr (.num n)) {op : Op}
    (hop : Past.Justifies env (h p) op) (r : Except Exn op.Ret) : Resumed py (h.add p ⟨op, r⟩) := by
  intro q context files lines hspawn
  have hsub := Histories.subset_add h p q ⟨op, r⟩
  obtain ⟨rfl, hnew⟩ | hold := Histories.answered_add hspawn
  · obtain ⟨rfl, _⟩ := Sigma.mk.inj_iff.mp hnew
    obtain ⟨t, run, hstart⟩ := hop.1 rfl
    obtain ⟨resources, resumed, _, _, _, hcontext, _⟩ := hstart.prepared
    refine ⟨t, run, hstart.trains.mono hsub, ⟨resources, resumed, hcontext⟩, fun htoy => ?_⟩
    obtain ⟨m, hbegins⟩ := hr.begins hk ho ha hfree hstr hstart htoy
    exact ⟨m, hbegins.mono hsub⟩
  · obtain ⟨t, run, htrains, hcontext, hbegins⟩ := hr q context files lines hold
    refine ⟨t, run, htrains.mono hsub, hcontext, fun htoy => ?_⟩
    obtain ⟨m, hbegins⟩ := hbegins htoy
    exact ⟨m, hbegins.mono hsub⟩

/-- A statement that fails starts no training. -/
theorem Resumed.fault (hr : Resumed py h) (op : Op) (e : Exn) :
    Resumed py (h.add p ⟨op, .error e⟩) := by
  intro q context files lines hspawn
  have hsub := Histories.subset_add h p q ⟨op, .error e⟩
  obtain ⟨t, run, htrains, hcontext, hbegins⟩ :=
    hr q context files lines (Histories.answered_of_fault hspawn)
  refine ⟨t, run, htrains.mono hsub, hcontext, fun htoy => ?_⟩
  obtain ⟨m, hbegins⟩ := hbegins htoy
  exact ⟨m, hbegins.mono hsub⟩

/-- What is known of a state with the histories that have led to it, in a run of the toy trainer. -/
structure Observed (env : Env) (py : Python) (s : World) (h : Pasts) : Prop where
  knows : Knows env s h
  opened : Opened env py s h
  authentic : Authentic env s h

theorem resumed_invariant (hstr : Function.Injective fun n : ℕ => env.pyStr (.num n)) :
    HistoryInvariant (M := platform env) (Past.Disciplined env)
      (fun _ h => CollisionFree env h → Resumed py h) (Observed env py) fun _ _ _ => True where
  perform p _ _ op _ h hk hr hop _ hfree := by
    have hfree' := hfree.of_subset fun q => Histories.subset_add h p q _
    exact (hr hfree').perform hk.knows hk.opened hk.authentic hfree' hstr hop.2 _
  fault p e op _ h _ hr _ hfree :=
    (hr (hfree.of_subset fun q => Histories.subset_add h p q _)).fault op e
  halt _ _ _ _ hr := hr
  ambient _ _ _ _ hr := hr

end Resumed

/-! ### Runs of the toy trainer -/

/-- A run whose trainings run the toy trainer, from a world whose objects are intact.  The digests of
its files do not collide, and different numbers have different texts. -/
structure ToyRun (env : Env) (py : Python) (s : World) (es : List (SysEvent env)) (c : System env) :
    Prop where
  reaches : Reaches s es c
  uncorrupted : s.store.Uncorrupted env
  toy : Runs.Always Config.step (Config.AtStep (RunsToyTrainer env py))
    ({ shared := s } : System env) es
  collisionFree : CollisionFree env (pasts env s es)
  texts : Function.Injective fun n : ℕ => env.pyStr (.num n)

section ToyRun

variable {env : Env} {py : Python} {s : World} {es fs : List (SysEvent env)} {c m : System env}

/-- The beginning of such a run is one. -/
theorem ToyRun.of_prefix (h : ToyRun env py s es c) (hfs : fs <+: es)
    (hm : Runs.runFrom Config.step ({ shared := s } : System env) fs = some m) :
    ToyRun env py s fs m := by
  refine ⟨⟨h.reaches.1, hm⟩, h.uncorrupted, ?_, ?_, h.texts⟩
  · obtain ⟨rest, rfl⟩ := hfs
    exact (Runs.always_append hm h.toy).1
  · exact h.collisionFree.of_subset (histories_subset hfs hm)

theorem ToyRun.observed (h : ToyRun env py s es c) : Observed env py c.shared (pasts env s es) :=
  ⟨knows_of_reaches h.reaches, opened_of_reaches h.reaches h.toy,
    authentic_of_reaches h.reaches h.uncorrupted⟩

/-- **Every toy training of a run begins after the steps of its decision.** -/
theorem ToyRun.resumed (h : ToyRun env py s es c) : Resumed py (pasts env s es) := by
  refine (resumed_invariant h.texts).run (disciplined_program env) (fun _ _ _ _ _ ha => by cases ha)
    (fun fs m hfs hm => (h.of_prefix hfs hm).observed)
    (Runs.always_of_forall (Config.atStep_of_forall fun _ _ _ => trivial) _ es) h.reaches.2
    h.collisionFree

/-- **An attempt goes on where a training from scratch would be**: whatever attempts came before it,
the trainer of an attempt begins in the state that the training from scratch has after the step of the
recorded decision, which is 0 where there is none. -/
theorem attempt_goes_on (h : ToyRun env py s es c) {p : ℕ} {t : Ticket} {run : TrainingRun}
    {context : Dict} {files : List (String × Bytes)} {lines : List Line}
    (hstart : Past.StartsTraining (pasts env s es p) t run context files)
    (hspawn : (pasts env s es p).Answered (.spawn .training context files) lines)
    (htoy : run.IsToy) :
    ∃ (m : ℕ) (step : Option ℤ) (b : Bool), (pasts env s es p).Answered
        (.recordResumeDecision t.jobId t.workerId t.runId t.attemptNumber step) b ∧
      step.getD 0 = m ∧ (m = 0 ∨ BelowMax py run.trainingConfig m) ∧
      ∀ host, (resume py host files context).result = .ok (stateAt run.trainingConfig m) := by
  obtain ⟨t', run', htrains, ⟨resources, resumed, rfl⟩, hbegins⟩ := h.resumed p _ _ _ hspawn
  obtain ⟨rfl, rfl⟩ := h.observed.knows.trains_unique hstart.trains htrains
  obtain ⟨m, ⟨step, b, hdecided, hstep⟩, hbegin, hbelow⟩ := hbegins htoy
  refine ⟨m, step, b, hdecided, hstep, hbelow, fun host => ?_⟩
  rw [← stateAt_trainingContext]
  exact hbegin host

/-- The artifact has the content, as far as its digest says. -/
def Db.HasContent (env : Env) (db : Db) (a : ArtifactId) (data : Bytes) : Prop :=
  ∃ artifact, db.artifacts.lookup a = some artifact ∧ artifact.status = .uploaded ∧
    artifact.contentHash = env.sha256 data

/-- **Every checkpoint holds the state of the training from scratch**: whichever attempt has registered
it, its artifact is the file of a trainer that has come to this step without an interruption. -/
theorem checkpoint_content (h : ToyRun env py s es c) {runId : RunId} {k : ℕ} {n : ℤ}
    {row : Checkpoint} {run : TrainingRun}
    (hrow : c.shared.db.checkpoints.lookup (runId, k, n) = some row)
    (hrun : c.shared.db.trainingRuns.lookup runId = some run) (htoy : run.IsToy) :
    ∃ (m : ℕ) (config : ToyTrainer.Config), n = m ∧ 0 < m ∧ BelowMax py run.trainingConfig m ∧
      c.shared.db.HasContent env row.artifactId (py.dumps (config.checkpointFile
        (stateAt run.trainingConfig m).1 (stateAt run.trainingConfig m).2)) := by
  have hk := h.observed.knows
  obtain ⟨q, config, m, hn, hpos, hsaves⟩ :=
    h.resumed.saves hk h.observed.opened h.texts hrow hrun htoy
  refine ⟨m, config, hn, hpos, ⟨_, hsaves.config.maxSteps, hsaves.below⟩, ?_⟩
  -- whoever registers a checkpoint has seen its artifact as uploaded
  obtain ⟨q', j, w, step, base, _, hexecuted⟩ := hk.sources.checkpoints runId k n row hrow
  obtain ⟨artifact, hartifact, huploaded⟩ := hk.uploaded ((hk.justified hexecuted).sawUploaded rfl)
  refine ⟨artifact, hartifact, huploaded, ?_⟩
  rw [hsaves.config.stateAt]
  exact hsaves.artifact artifact (World.continues_of_lookup hartifact)

end ToyRun

/-! ### A training that is interrupted -/

/-- A training of two steps, with a checkpoint after the first one. -/
def twoSteps : Dict :=
  [("max_steps", .num 2), ("checkpoint_every_n_steps", .num 1), ("learning_rate", .num (1 / 2))]

def twoStepRun : TrainingRun :=
  { jobId := 1, dataset := (1, 1), trainingConfig := twoSteps, baseModel := (none, none) }

/-- What the trainer of an attempt leaves behind after some of its actions. -/
def trainerInput (env : Env) (host : Host) (t : Ticket) (run : TrainingRun)
    (resumed : Option (ℤ × Bytes)) (n : ℕ) (i : Input) : Input :=
  let context := trainingContext t run [] resumed
  let files := trainingFiles t resumed
  let acts := (trainingMain host context
    (ToyTrainer.run env .standard host files context)).trace.take n
  { i with
    lines := (acts.filterMap Action.event?).map fun event => .json (.obj event)
    files := (acts.filterMap Action.file?).reverse }

/-- The first attempt is killed after its checkpoint. -/
def killedTraining : Input :=
  trainerInput .decimal (.steady 0) ⟨1, 7, 1, 1⟩ twoStepRun none 4 { uuid := 9 }

/-- The second one resumes from the file that the first one has written. -/
def resumedTraining : Input :=
  trainerInput .decimal (.steady 0) ⟨1, 8, 2, 1⟩ twoStepRun
    (killedTraining.files.head?.map fun file => (1, file.2)) 10 { uuid := 10, now := 200 }

/-- A worker dies in the middle of a training, recovery takes the job back, and another worker ends the
training. -/
def interruptedTraining : List (SysEvent Env.decimal) :=
  session 0 (.createTrainingRun { trainingPayload with trainingConfig := twoSteps }) 3 { uuid := 1 } ++
    session 1 .schedulerRunOnce 8 {} ++ session 2 (.processJobMessage 1 7) 22 killedTraining ++
    [.crash 2] ++ session 3 .recoveryRunOnce 4 { now := 100 } ++
    session 4 .schedulerRunOnce 8 { now := 200 } ++
    session 5 (.processJobMessage 1 8) 32 resumedTraining

/-- What the trainer of an attempt is given. -/
def trainerPass (t : Ticket) (run : TrainingRun) (resumed : Option (ℤ × Bytes)) : ToyTrainer.Pass :=
  { host := .steady 0, context := trainingContext t run [] resumed, files := trainingFiles t resumed }

theorem trainerInput_prints (env : Env) (t : Ticket) (run : TrainingRun)
    (resumed : Option (ℤ × Bytes)) (n : ℕ) (i : Input) :
    (trainerPass t run resumed).Prints env (trainerInput env (.steady 0) t run resumed n i) :=
  ⟨_, List.take_prefix _ _, rfl, rfl⟩

/-- What the trainers of the two attempts are given. -/
def interruptedPass (p : ℕ) : ToyTrainer.Pass :=
  if p = 2 then trainerPass ⟨1, 7, 1, 1⟩ twoStepRun none
  else trainerPass ⟨1, 8, 2, 1⟩ twoStepRun
    (killedTraining.files.head?.map fun file => (1, file.2))

theorem interruptedTraining_prints : ∀ e ∈ interruptedTraining,
    SuppliedWith (fun p i => (interruptedPass p).Prints .decimal i) e := by
  unfold interruptedTraining
  simp only [List.forall_mem_append, List.forall_mem_singleton]
  exact ⟨⟨⟨⟨⟨⟨suppliedWith_session (ToyTrainer.Pass.prints_nil rfl rfl),
    suppliedWith_session (ToyTrainer.Pass.prints_nil rfl rfl)⟩,
    suppliedWith_session (trainerInput_prints ..)⟩, trivial⟩,
    suppliedWith_session (ToyTrainer.Pass.prints_nil rfl rfl)⟩,
    suppliedWith_session (ToyTrainer.Pass.prints_nil rfl rfl)⟩,
    suppliedWith_session (trainerInput_prints ..)⟩

theorem interruptedTraining_toyRun {c : System .decimal}
    (hc : Reaches World.registry interruptedTraining c) :
    ToyRun .decimal .standard World.registry interruptedTraining c where
  reaches := hc
  uncorrupted := fun e he => by cases he
  toy := runsToyTrainer_of_check World.registry _ _ interruptedTraining_prints (by decide +kernel)
  collisionFree := fun _ _ _ _ _ _ _ _ heq => Codec.digest_injective heq
  texts := Env.decimal_texts

theorem isToy_of_twoSteps {run : TrainingRun} (h : run.trainingConfig = twoSteps) : run.IsToy := by
  refine ⟨?_, ?_⟩
  · rw [h]
    rfl
  · rw [h]
    rfl

/-- The one run has its checkpoint and its output. -/
theorem exists_interruptedTraining : ∃ c : System .decimal,
    Reaches World.registry interruptedTraining c ∧
      (∀ runId run, c.shared.db.trainingRuns.lookup runId = some run →
        run.trainingConfig = twoSteps) ∧
      (∃ run, c.shared.db.trainingRuns.lookup 1 = some run) ∧
      (∃ row, c.shared.db.checkpoints.lookup (1, 1, 1) = some row) ∧
      ∃ row, c.shared.db.trainingRunOutputs.lookup 1 = some row := by
  obtain ⟨c, hc, hconfig, hrun, hcheckpoint, houtput⟩ := exists_reaches World.registry_initial
    interruptedTraining (P := fun c : System .decimal =>
      (∀ r ∈ c.shared.db.trainingRuns.rows,
        Dict.same r.2.trainingConfig twoSteps = true) ∧
      (c.shared.db.trainingRuns.lookup 1).isSome ∧
      (c.shared.db.checkpoints.lookup (1, 1, 1)).isSome ∧
      (c.shared.db.trainingRunOutputs.lookup 1).isSome) (by decide +kernel)
  refine ⟨c, hc, fun runId run hrow => ?_, Option.isSome_iff_exists.mp hrun,
    Option.isSome_iff_exists.mp hcheckpoint, Option.isSome_iff_exists.mp houtput⟩
  exact Dict.eq_of_same (hconfig (runId, run) (Table.mem_rows.mpr hrow))

/-- The entry has started a training. -/
def spawnedEntry : Done Op Op.Ret Exn → Bool
  | ⟨.spawn .training _ _, .ok _⟩ => true
  | _ => false

/-- The entry has recorded the decision. -/
def decidedEntry (step : Option ℤ) : Done Op Op.Ret Exn → Bool
  | ⟨.recordResumeDecision _ _ _ _ step', .ok _⟩ => decide (step' = step)
  | _ => false

theorem answered_of_spawnedEntry {m : Past} (h : m.any spawnedEntry = true) :
    ∃ context files lines, m.Answered (.spawn .training context files) lines := by
  obtain ⟨d, hd, hentry⟩ := List.any_eq_true.mp h
  unfold spawnedEntry at hentry
  split at hentry
  · exact ⟨_, _, _, hd⟩
  · cases hentry

theorem answered_of_decidedEntry {m : Past} (step : Option ℤ) (h : m.any (decidedEntry step) = true) :
    ∃ (j : JobId) (w : WorkerId) (run : RunId) (k : ℕ) (b : Bool),
      m.Answered (.recordResumeDecision j w run k step) b := by
  obtain ⟨d, hd, hentry⟩ := List.any_eq_true.mp h
  unfold decidedEntry at hentry
  split at hentry
  · rw [← of_decide_eq_true hentry]
    exact ⟨_, _, _, _, _, hd⟩
  · cases hentry

/-- The second attempt of `interruptedTraining` goes on after the first step. -/
theorem second_attempt_goes_on : ∃ (t : Ticket) (run : TrainingRun) (context : Dict)
    (files : List (String × Bytes)),
    Past.StartsTraining (pasts .decimal World.registry interruptedTraining 5) t run context files ∧
      ∀ host, (resume .standard host files context).result = .ok (stateAt twoSteps 1) := by
  obtain ⟨c, hc, hconfig, _⟩ := exists_interruptedTraining
  have htoy := interruptedTraining_toyRun hc
  have hk := htoy.observed.knows
  obtain ⟨context, files, lines, hspawn⟩ := answered_of_spawnedEntry
    (m := pasts .decimal World.registry interruptedTraining 5) (by decide +kernel)
  obtain ⟨t, run, hstart⟩ := (hk.justified (.of_answered hspawn)).1 rfl
  obtain ⟨j, w, runId, k, b, hdecided⟩ := answered_of_decidedEntry
    (m := pasts .decimal World.registry interruptedTraining 5) (some 1) (by decide +kernel)
  have htwo := hconfig _ _ (hk.told 5 _ _ hstart.trains.found _ _ rfl).2
  obtain ⟨m, step, b', hdecided', hstep, _, hresume⟩ :=
    attempt_goes_on htoy hstart hspawn (isToy_of_twoSteps htwo)
  have hsame := Past.InOrder.unique (hk.inOrder 5) hdecided' hdecided rfl (by simp [Op.rank])
  obtain ⟨hop, _⟩ := Sigma.mk.inj_iff.mp hsame
  obtain rfl : step = some 1 := (Op.recordResumeDecision.inj hop).2.2.2.2
  obtain rfl : m = 1 := Int.ofNat_inj.mp hstep.symm
  rw [htwo] at hresume
  exact ⟨t, run, context, files, hstart, hresume⟩

/-- The checkpoint of `interruptedTraining` holds the state after the first step. -/
theorem first_checkpoint_content : ∃ (c : System .decimal) (row : Checkpoint)
    (config : ToyTrainer.Config), Reaches World.registry interruptedTraining c ∧
      c.shared.db.checkpoints.lookup (1, 1, 1) = some row ∧
      c.shared.db.HasContent .decimal row.artifactId
        (Codec.dumps (config.checkpointFile (.num (1 / 2)) (.num 1))) := by
  obtain ⟨c, hc, hconfig, ⟨run, hrun⟩, ⟨row, hrow⟩, _⟩ := exists_interruptedTraining
  have htwo := hconfig 1 run hrun
  obtain ⟨m, config, hm, _, _, hcontent⟩ :=
    checkpoint_content (interruptedTraining_toyRun hc) hrow hrun (isToy_of_twoSteps htwo)
  obtain rfl : m = 1 := Int.ofNat_inj.mp hm.symm
  have hstate : stateAt twoSteps 1 = (.num (1 / 2), .num 1) := by
    show (Json.num (0 + 1 / 2 * (1 - 0)), Json.num (1 : ℕ)) = _
    norm_num
  rw [htwo, hstate] at hcontent
  exact ⟨c, row, config, hc, hrow, hcontent⟩

end PosttrainPlatform
