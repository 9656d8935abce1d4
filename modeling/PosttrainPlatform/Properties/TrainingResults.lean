import PosttrainPlatform.Properties.Resumption

/-!
# The metrics and the final model of a training

An attempt reports the metric of every step before it saves a checkpoint or its final model, and it
begins with the step of a checkpoint.  So the metrics of a run have no gap up to any of its checkpoints,
and a run that has its output has those of all its steps (`Charted`), however often it was interrupted.
-/

namespace PosttrainPlatform

open Programs Process ToyTrainer

/-- The metrics of the steps up to `n` are stored. -/
def Db.Measures (db : Db) (runId : RunId) (n : ℕ) : Prop :=
  ∀ i : ℕ, 0 < i → i ≤ n → ∃ row ∈ db.trainingMetrics, row.trainingRunId = runId ∧ row.step = i

/-- The configuration counts the steps up to a number. -/
def TrainingRun.CountsTo (run : TrainingRun) (max : ℚ) : Prop :=
  ∃ v, run.trainingConfig.get? "max_steps" = some v ∧ CapacityRepo.pyNumber v = some max

/-- **There is no gap in the metrics** before a checkpoint, and none before the output. -/
structure Charted (s : World) : Prop where
  checkpoints : ∀ runId k (n : ℕ) row run, s.db.checkpoints.lookup (runId, k, (n : ℤ)) = some row →
    s.db.trainingRuns.lookup runId = some run → run.IsToy → s.db.Measures runId n
  outputs : ∀ runId row run max, s.db.trainingRunOutputs.lookup runId = some row →
    s.db.trainingRuns.lookup runId = some run → run.IsToy → run.CountsTo max →
      s.db.Measures runId ⌈max⌉₊

/-! ### One statement -/

section Step

variable {env : Env} {py : Python} {p q : ℕ} {s s' : World} {h : Pasts} {t : Ticket} {event : Dict}
  {run : TrainingRun} {c : ToyTrainer.Config} {m n : ℕ} {acts : List Action}

theorem Db.Measures.grow {db db' : Db} {runId : RunId} (hm : db.Measures runId n)
    (hgrow : db.trainingMetrics ⊆ db'.trainingMetrics) : db'.Measures runId n := by
  intro i hpos hle
  obtain ⟨row, hrow, hrest⟩ := hm i hpos hle
  exact ⟨row, hgrow hrow, hrest⟩

theorem Db.measures_zero (db : Db) (runId : RunId) : db.Measures runId 0 := by
  intro i hpos hle
  omega

theorem TrainsBy.countsTo (hc : TrainsBy run c) {max : ℚ} (h : run.CountsTo max) :
    CapacityRepo.pyNumber c.maxSteps = some max := by
  obtain ⟨v, hv, hmax⟩ := h
  obtain rfl : c.maxSteps = v := Option.some.inj (hc.maxSteps.symm.trans hv)
  exact hmax

/-- The run of a reported event is stored. -/
theorem Knows.run_of_event (hk : Knows env s h) (hevent : Past.TrainingEvent (h q) t event) :
    ∃ run, s.db.trainingRuns.lookup t.runId = some run := by
  obtain ⟨run, context, files, hstart, _⟩ := hevent
  exact ⟨run, (hk.told q _ _ hstart.trains.found _ _ rfl).2⟩

/-- The metrics before the step at which an attempt begins. -/
theorem Charted.begins (hcharted : Charted s) (hk : Knows env s h)
    (hrun : s.db.trainingRuns.lookup t.runId = some run) (htoy : run.IsToy) {context : Dict}
    {files : List (String × Bytes)} (hbegins : Past.BeginsAfter (h q) py t run context files m) :
    s.db.Measures t.runId m := by
  obtain ⟨step, b, hdecided, hstep⟩ := hbegins.decided
  obtain ⟨row, resumed, _, hresumes, rfl⟩ := hk.justified (.of_answered hdecided)
  obtain _ | ⟨n, data⟩ := resumed
  · obtain rfl : m = 0 := by
      rw [Option.map_none, Option.getD_none] at hstep
      omega
    exact s.db.measures_zero t.runId
  · obtain rfl : n = m := hstep
    obtain ⟨rows, key, checkpoint, _, hrows, hmem, hkey, _⟩ := hresumes _ data rfl
    obtain ⟨hown, hrow⟩ := hk.told q _ _ hrows _ hmem
    obtain ⟨runId, k, n⟩ := key
    obtain rfl : runId = t.runId := hown
    obtain rfl : n = m := hkey
    exact hcharted.checkpoints _ k m checkpoint run hrow hrun htoy

/-- **What a live attempt has measured is stored**, with what was measured before it. -/
theorem Past.ToyEvent.measures (he : Past.ToyEvent env py (h q) t run event c m acts)
    (hk : Knows env s h) (howns : s.db.Owns t.jobId t.workerId t.attemptNumber)
    (hbefore : s.db.Measures t.runId m) (hmeasured : c.Measured acts m n) :
    s.db.Measures t.runId n := by
  intro i hpos hle
  obtain hearlier | hlater := Nat.lt_or_ge m i
  swap
  · exact hbefore i hpos hlater
  obtain ⟨i, rfl⟩ := Nat.exists_eq_succ_of_ne_zero hpos.ne'
  have hmetric := hmeasured i (by omega) (by omega)
  obtain ⟨step, reading, b, hstep, hanswer⟩ := (he.handled _ hmetric).metric rfl
  obtain rfl : .num (i + 1 : ℕ) = step := Option.some.inj hstep
  have htold := hk.told q _ _ hanswer
  cases b with
  | false => exact absurd (htold.1 rfl) (not_lost_of_owns howns)
  | true =>
      obtain ⟨column, hcolumn, hrow⟩ := htold.2 rfl
      exact ⟨_, hrow, rfl, intColumn_natCast hcolumn⟩

/-- An attempt begins below the maximum, or from scratch. -/
theorem Past.BeginsAfter.start {past : Past} {context : Dict} {files : List (String × Bytes)}
    (hbegins : past.BeginsAfter py t run context files m) (hc : TrainsBy run c) {max : ℚ}
    (hmax : run.CountsTo max) : m = 0 ∨ (m : ℚ) < max := by
  refine hbegins.below.imp_right fun hbelow => ?_
  obtain ⟨v, hv, hless⟩ := hbelow
  obtain rfl : c.maxSteps = v := Option.some.inj (hc.maxSteps.symm.trans hv)
  exact (Config.below_iff (hc.countsTo hmax)).mp hless

/-- A checkpoint after a statement is an earlier one, or the one that a live attempt registers. -/
theorem RecordStep.checkpoint {db : Db} {i : Input} {op : Op} {r : Records}
    (hstep : RecordStep env db i op r) {runId : RunId} {k : ℕ} {n : ℤ} {row : Checkpoint}
    (hrow : r.checkpoints.lookup (runId, k, n) = some row) :
    db.checkpoints.lookup (runId, k, n) = some row ∨ ∃ j w step base,
      op = .registerCheckpoint j w runId k step row.artifactId base ∧ db.Owns j w k ∧
        intColumn env step = some n := by
  cases hstep with
  | registerCheckpoint howns hn _ ha =>
      obtain ⟨hkey, rfl⟩ | hold := lookup_insert_cases hrow
      · cases hkey
        subst ha
        exact Or.inr ⟨_, _, _, _, rfl, howns, hn⟩
      · exact Or.inl hold
  | _ => exact Or.inl hrow

/-- An output after a statement is an earlier one, or the one that a live attempt registers. -/
theorem RecordStep.output {db : Db} {i : Input} {op : Op} {r : Records}
    (hstep : RecordStep env db i op r) {runId : RunId} {row : TrainingRunOutput}
    (hrow : r.trainingRunOutputs.lookup runId = some row) :
    db.trainingRunOutputs.lookup runId = some row ∨ ∃ j w,
      op = .registerOutput j w runId row.attemptNumber row.finalArtifactId ∧
        db.Owns j w row.attemptNumber := by
  cases hstep with
  | registerOutput howns =>
      obtain ⟨rfl, rfl⟩ | hold := lookup_insert_cases hrow
      · exact Or.inr ⟨_, _, rfl, howns⟩
      · exact Or.inl hold
  | _ => exact Or.inl hrow

/-- The run of an event is stored before the statement, and stays. -/
theorem Knows.run_before (hk : Knows env s h) (hevent : Past.TrainingEvent (h q) t event)
    (hgrow : s.Grows s') (hrun : s'.db.trainingRuns.lookup t.runId = some run) :
    s.db.trainingRuns.lookup t.runId = some run := by
  obtain ⟨run₀, hrun₀⟩ := hk.run_of_event hevent
  have hrun' := hgrow.records.trainingRuns _ run₀ hrun₀
  rwa [Option.some.inj (hrun'.symm.trans hrun)] at hrun₀

/-- **Every statement keeps the metrics without a gap.** -/
theorem Charted.perform (hcharted : Charted s) (ho : Observed env py s h) (hr : Resumed py h)
    (hstr : Function.Injective fun n : ℕ => env.pyStr (.num n)) {op : Op}
    (hop : Past.Justifies env (h p) op) (i : Input) : Charted (op.perform env p i s).1 := by
  have hk := ho.knows
  have hgrow := perform_grows env p i s op
  have hstep := perform_records env p i s op
  have hmetrics : s.db.trainingMetrics ⊆ (op.perform env p i s).1.db.trainingMetrics :=
    hgrow.records.trainingMetrics
  refine ⟨fun runId k n row run hrow hrun htoy => ?_, fun runId row run max hrow hrun htoy hmax => ?_⟩
  · obtain hold | ⟨j, w, step, base, rfl, howns, hn⟩ := hstep.checkpoint hrow
    · obtain ⟨q, j, w, step, base, _, hexecuted⟩ := hk.sources.checkpoints runId k n row hold
      obtain ⟨event, ⟨hevent, _⟩, _⟩ := hk.justified hexecuted
      have hrun₀ := hk.run_before hevent hgrow hrun
      exact (hcharted.checkpoints runId k n row run hold hrun₀ htoy).grow hmetrics
    · obtain ⟨event, ⟨hevent, _⟩, hkind, hstep'⟩ := hop
      have hrun₀ := hk.run_before hevent hgrow hrun
      obtain ⟨c, m, acts, he⟩ := hr.toyEvent hk ho.opened hevent hrun₀ htoy hkind (by decide)
      obtain ⟨context, files, hbegins⟩ := he.begins
      obtain ⟨n₀, _, _, hmeasured, hstep₀, _⟩ := he.checkpoint hstr hkind
      obtain rfl : step = .num n₀ := Option.some.inj (hstep'.symm.trans hstep₀)
      obtain rfl : n = n₀ := Int.ofNat_inj.mp (intColumn_natCast hn)
      have hbefore := hcharted.begins hk hrun₀ htoy hbegins
      exact (he.measures hk howns hbefore hmeasured).grow hmetrics
  · obtain hold | ⟨j, w, rfl, howns⟩ := hstep.output hrow
    · obtain ⟨q, j, w, hexecuted⟩ := hk.sources.outputs runId row hold
      obtain ⟨event, ⟨hevent, _⟩, _⟩ := hk.justified hexecuted
      have hrun₀ := hk.run_before hevent hgrow hrun
      exact (hcharted.outputs runId row run max hold hrun₀ htoy hmax).grow hmetrics
    · obtain ⟨event, ⟨hevent, _⟩, hkind⟩ := hop
      have hrun₀ := hk.run_before hevent hgrow hrun
      obtain ⟨c, m, acts, he⟩ := hr.toyEvent hk ho.opened hevent hrun₀ htoy hkind (by decide)
      obtain ⟨context, files, hbegins⟩ := he.begins
      obtain ⟨n, hends, hmeasured, _, _⟩ := he.does.final_event hkind
      obtain rfl := hends.eq_ceil (he.config.countsTo hmax) (hbegins.start he.config hmax)
      have hbefore := hcharted.begins hk hrun₀ htoy hbegins
      exact (he.measures hk howns hbefore hmeasured).grow hmetrics

/-- A change that leaves the records alone. -/
theorem Charted.frame (hcharted : Charted s) (hrecords : s'.db.records = s.db.records) :
    Charted s' := by
  have hcheckpoints : s'.db.checkpoints = s.db.checkpoints := congrArg Records.checkpoints hrecords
  have houtputs : s'.db.trainingRunOutputs = s.db.trainingRunOutputs :=
    congrArg Records.trainingRunOutputs hrecords
  have hruns : s'.db.trainingRuns = s.db.trainingRuns := congrArg Records.trainingRuns hrecords
  have hmetrics : s'.db.trainingMetrics = s.db.trainingMetrics :=
    congrArg Records.trainingMetrics hrecords
  have hmeasures : ∀ {runId n}, s.db.Measures runId n → s'.db.Measures runId n :=
    fun hm => hm.grow (hmetrics ▸ List.Subset.refl _)
  refine ⟨fun runId k n row run hrow hrun htoy => hmeasures ?_,
    fun runId row run max hrow hrun htoy hmax => hmeasures ?_⟩
  · exact hcharted.checkpoints runId k n row run (hcheckpoints ▸ hrow) (hruns ▸ hrun) htoy
  · exact hcharted.outputs runId row run max (houtputs ▸ hrow) (hruns ▸ hrun) htoy hmax

theorem charted_invariant (env : Env) (py : Python)
    (hstr : Function.Injective fun n : ℕ => env.pyStr (.num n)) :
    HistoryInvariant (M := platform env) (Past.Disciplined env) (fun s _ => Charted s)
      (fun s h => Observed env py s h ∧ Resumed py h) fun _ _ _ => True where
  perform _ i _ _ _ _ hk hcharted hop _ := hcharted.perform hk.1 hk.2 hstr hop.2 i
  fault _ _ _ _ _ _ hcharted _ := hcharted
  halt _ _ _ _ hcharted := hcharted.frame rfl
  ambient a s _ _ hcharted := by
    refine hcharted.frame ?_
    show (s.beat env a.1 a.2).db.records = s.db.records
    rw [beat_frame]
    rfl

end Step

/-! ### Every run -/

section Run

variable {env : Env} {py : Python} {s : World} {es : List (SysEvent env)} {c : System env}

theorem charted_of_initial (hs : s.Initial) : Charted s := by
  refine ⟨fun runId k n row run hrow => ?_, fun runId row run max hrow => ?_⟩
  · rw [hs.db] at hrow
    cases hrow
  · rw [hs.db] at hrow
    cases hrow

theorem ToyRun.charted (h : ToyRun env py s es c) : Charted c.shared :=
  (charted_invariant env py h.texts).run (disciplined_program env) (charted_of_initial h.reaches.1)
    (fun _ _ hfs hm => ⟨(h.of_prefix hfs hm).observed, (h.of_prefix hfs hm).resumed⟩)
    (Runs.always_of_forall (Config.atStep_of_forall fun _ _ _ => trivial) _ es) h.reaches.2

/-- The steps of a run that have a metric. -/
def Db.metricSteps (db : Db) (runId : RunId) : List ℤ :=
  (db.trainingMetrics.filter fun row => row.trainingRunId = runId).map fun row => row.step

theorem mem_metricSteps {db : Db} {runId : RunId} {i : ℤ} : i ∈ db.metricSteps runId ↔
    ∃ row ∈ db.trainingMetrics, row.trainingRunId = runId ∧ row.step = i := by
  unfold Db.metricSteps
  rw [List.mem_map]
  constructor
  · intro h
    obtain ⟨row, hrow, hi⟩ := h
    obtain ⟨hmem, hown⟩ := List.mem_filter.mp hrow
    exact ⟨row, hmem, of_decide_eq_true hown, hi⟩
  · intro h
    obtain ⟨row, hmem, hown, hi⟩ := h
    exact ⟨row, List.mem_filter.mpr ⟨hmem, decide_eq_true hown⟩, hi⟩

theorem Db.Measures.mem_metricSteps {db : Db} {runId : RunId} {n : ℕ} (h : db.Measures runId n) {i : ℤ}
    (hpos : 0 < i) (hle : i ≤ n) : i ∈ db.metricSteps runId := by
  obtain ⟨i, rfl⟩ := Int.eq_ofNat_of_zero_le hpos.le
  exact PosttrainPlatform.mem_metricSteps.mpr (h i (by omega) (by omega))

/-- A metric is that of a step of the training. -/
theorem ToyRun.step_of_metric (h : ToyRun env py s es c) {runId : RunId} {run : TrainingRun} {max : ℚ}
    (hrun : c.shared.db.trainingRuns.lookup runId = some run) (htoy : run.IsToy)
    (hmax : run.CountsTo max) {i : ℤ} (hi : i ∈ c.shared.db.metricSteps runId) :
    0 < i ∧ i ≤ ⌈max⌉₊ := by
  have hk := h.observed.knows
  obtain ⟨row, hrow, rfl, rfl⟩ := mem_metricSteps.mp hi
  obtain ⟨q, j, w, step, reading, hcolumn, hexecuted⟩ := hk.sources.metrics row hrow
  obtain ⟨event, hevent, hkind, hstep⟩ := hk.justified hexecuted
  obtain ⟨config, m, acts, he⟩ :=
    h.resumed.toyEvent hk h.observed.opened hevent hrun htoy hkind (by decide)
  obtain ⟨n, _, hbelow, rfl⟩ := he.does.metric_event hkind
  obtain rfl : .num (n + 1 : ℕ) = step := Option.some.inj hstep
  have hlt := Nat.lt_ceil.mpr ((Config.below_iff (he.config.countsTo hmax)).mp hbelow)
  rw [intColumn_natCast hcolumn]
  omega

/-- **The metrics of a training have no gap**: up to the step of a checkpoint every step has one, and
once the run has its output the steps with a metric are exactly those of the training, from 1 to its
maximum, whatever attempts have been interrupted. -/
theorem loss_curve_complete (h : ToyRun env py s es c) {runId : RunId} {run : TrainingRun} {max : ℚ}
    (hrun : c.shared.db.trainingRuns.lookup runId = some run) (htoy : run.IsToy)
    (hmax : run.CountsTo max) :
    (∀ k n row, c.shared.db.checkpoints.lookup (runId, k, n) = some row → ∀ i, 0 < i → i ≤ n →
      i ∈ c.shared.db.metricSteps runId) ∧
    ((c.shared.db.trainingRunOutputs.lookup runId).isSome → ∀ i,
      i ∈ c.shared.db.metricSteps runId ↔ 0 < i ∧ i ≤ ⌈max⌉₊) := by
  refine ⟨fun k n row hrow i hpos hle => ?_, fun hsome i => ?_⟩
  · obtain ⟨_, _, m, rfl, _⟩ :=
      h.resumed.saves h.observed.knows h.observed.opened h.texts hrow hrun htoy
    exact (h.charted.checkpoints runId k m row run hrow hrun htoy).mem_metricSteps hpos hle
  · obtain ⟨row, hrow⟩ := Option.isSome_iff_exists.mp hsome
    refine ⟨h.step_of_metric hrun htoy hmax, fun hi => ?_⟩
    exact (h.charted.outputs runId row run max hrow hrun htoy hmax).mem_metricSteps hi.1 hi.2

/-- A trainer that runs from scratch to its end ends after the maximum of steps. -/
theorem train_of_scratch {host : Host} {t : Ticket} {run : TrainingRun} {resources : Dict} {max : ℚ}
    (htoy : run.IsToy) (hmax : run.CountsTo max) {config : ToyTrainer.Config} {last : Json × Json}
    (h : (train env py host [] (trainingContext t run resources none)).result = .ok (config, last)) :
    last = stateAt run.trainingConfig ⌈max⌉₊ := by
  obtain ⟨hconfig, n, hlast, hends, _⟩ := ends_of_train (beginsAt_zero htoy.resumeFrom_context) h
  have htrains : TrainsBy run config := .of_reads (reads_of_readConfig hconfig)
  obtain rfl := hends.eq_ceil (htrains.countsTo hmax) (Or.inl rfl)
  rw [htrains.stateAt, hlast]

/-- **Interruptions do not change the model**: the output of a run, whichever of its attempts has
registered it, is the final file for the state after the maximum of steps, and that is the state in
which a trainer ends that runs from scratch without an interruption. -/
theorem final_model (h : ToyRun env py s es c) {runId : RunId} {run : TrainingRun} {max : ℚ}
    {row : TrainingRunOutput} (hrow : c.shared.db.trainingRunOutputs.lookup runId = some row)
    (hrun : c.shared.db.trainingRuns.lookup runId = some run) (htoy : run.IsToy)
    (hmax : run.CountsTo max) :
    (∃ config : ToyTrainer.Config, c.shared.db.HasContent env row.finalArtifactId
      (py.dumps (config.finalFile (stateAt run.trainingConfig ⌈max⌉₊).1
        (stateAt run.trainingConfig ⌈max⌉₊).2))) ∧
    ∀ host t resources config last,
      (train env py host [] (trainingContext t run resources none)).result = .ok (config, last) →
        last = stateAt run.trainingConfig ⌈max⌉₊ := by
  refine ⟨?_, fun host t resources config last hlast => train_of_scratch htoy hmax hlast⟩
  have hk := h.observed.knows
  obtain ⟨q, j, w, hexecuted⟩ := hk.sources.outputs runId row hrow
  obtain ⟨event, ⟨hevent, data, ⟨path, hpath, hread⟩, hholds, huploaded⟩, hkind⟩ :=
    hk.justified hexecuted
  obtain ⟨config, m, acts, he⟩ :=
    h.resumed.toyEvent hk h.observed.opened hevent hrun htoy hkind (by decide)
  obtain ⟨context, files, hbegins⟩ := he.begins
  obtain ⟨n, hends, _, hwritten, rfl⟩ := he.does.final_event hkind
  have hcount := he.config.countsTo hmax
  obtain rfl : .str config.finalPath = path := Option.some.inj hpath
  -- the final file has one content
  obtain rfl := he.files _ _ hwritten (fun _ _ hdoes => hdoes.final_content hcount hends) data hread
  obtain rfl := hends.eq_ceil hcount (hbegins.start he.config hmax)
  obtain ⟨artifact, hartifact, hs⟩ := hk.uploaded huploaded
  refine ⟨config, artifact, hartifact, hs, ?_⟩
  rw [he.config.stateAt]
  exact hk.contentHash hholds (World.continues_of_lookup hartifact)

end Run

/-! ### A training that is interrupted -/

theorem countsTo_of_twoSteps {run : TrainingRun} (h : run.trainingConfig = twoSteps) :
    run.CountsTo 2 := by
  refine ⟨.num 2, ?_, rfl⟩
  rw [h]
  rfl

/-- The two steps of `interruptedTraining` have their metrics. -/
theorem interruptedTraining_charted : ∃ c : System .decimal,
    Reaches World.registry interruptedTraining c ∧
      ∀ i, i ∈ c.shared.db.metricSteps 1 ↔ 0 < i ∧ i ≤ 2 := by
  obtain ⟨c, hc, hconfig, ⟨run, hrun⟩, _, ⟨row, hrow⟩⟩ := exists_interruptedTraining
  have htwo := hconfig 1 run hrun
  have hcurve := loss_curve_complete (interruptedTraining_toyRun hc) hrun (isToy_of_twoSteps htwo)
    (countsTo_of_twoSteps htwo)
  have hsteps := hcurve.2 (Option.isSome_iff_exists.mpr ⟨row, hrow⟩)
  rw [show ⌈(2 : ℚ)⌉₊ = 2 by norm_num] at hsteps
  exact ⟨c, hc, hsteps⟩

/-- The model of `interruptedTraining` is that of two steps. -/
theorem interruptedTraining_model : ∃ (c : System .decimal) (row : TrainingRunOutput)
    (config : ToyTrainer.Config), Reaches World.registry interruptedTraining c ∧
      c.shared.db.trainingRunOutputs.lookup 1 = some row ∧
      c.shared.db.HasContent .decimal row.finalArtifactId
        (Codec.dumps (config.finalFile (.num (3 / 4)) (.num 2))) := by
  obtain ⟨c, hc, hconfig, ⟨run, hrun⟩, _, ⟨row, hrow⟩⟩ := exists_interruptedTraining
  have htwo := hconfig 1 run hrun
  obtain ⟨⟨config, hcontent⟩, _⟩ := final_model (interruptedTraining_toyRun hc) hrow hrun
    (isToy_of_twoSteps htwo) (countsTo_of_twoSteps htwo)
  have hstate : stateAt twoSteps 2 = (.num (3 / 4), .num 2) := by
    show (Json.num (0 + 1 / 2 * (1 - 0) + 1 / 2 * (1 - (0 + 1 / 2 * (1 - 0)))), Json.num (2 : ℕ)) = _
    norm_num
  rw [show ⌈(2 : ℚ)⌉₊ = 2 by norm_num, htwo, hstate] at hcontent
  exact ⟨c, row, config, hc, hrow, hcontent⟩

end PosttrainPlatform
