import PosttrainPlatform.Subprocess.ToyTrainer

/-!
# The actions of the toy trainer

A trainer begins from scratch, or in the state that it reads from the file it resumes from.  Where that
is the state after some steps from scratch, each of its actions is one of the training from scratch:
`does_of_run` says which, and what it has reported before.
-/

namespace PosttrainPlatform.ToyTrainer

open Traces Process

/-- The parameter and the step after `m` steps from scratch, in the training of a context. -/
def stateAt (context : Dict) (m : ℕ) : Json × Json :=
  (.num (paramAfter (context.getD "learning_rate" .null) (context.getD "target_value" (.num 1)) m),
    .num m)

/-- The trainer begins in the state after `m` steps. -/
def BeginsAt (py : Python) (host : Host) (files : List (String × Bytes)) (context : Dict) (m : ℕ) :
    Prop :=
  (resume py host files context).result = .ok (stateAt context m)

/-- The configuration is the one of the context. -/
structure Config.Reads (c : Config) (context : Dict) : Prop where
  maxSteps : context.get? "max_steps" = some c.maxSteps
  checkpointEveryNSteps : context.get? "checkpoint_every_n_steps" = some c.checkpointEveryNSteps
  learningRate : context.get? "learning_rate" = some c.learningRate
  targetValue : c.targetValue = context.getD "target_value" (.num 1)
  stepSleepSeconds : c.stepSleepSeconds = context.getD "step_sleep_seconds" (.num 0)
  trainingRunId : c.trainingRunId = context.getD "training_run_id" .null
  attemptNumber : c.attemptNumber = context.getD "attempt_number" .null

/-! ### The beginning -/

section Beginning

variable {py : Python} {host : Host} {files : List (String × Bytes)} {context : Dict} {c : Config}

theorem trace_makedirs (dir : Json) : (makedirs host dir).trace = [] := by
  cases dir with
  | str dir => exact Script.trace_bind_of_silent (trace_check _ _) fun _ => rfl
  | null | bool | num | nan | infinity | arr | obj => rfl

theorem trace_readConfig : (readConfig host context).trace = [] := by
  refine Script.trace_bind_of_silent (trace_item _ _) fun dir => ?_
  refine Script.trace_bind_of_silent (trace_makedirs dir) fun workDir => ?_
  refine Script.trace_bind_of_silent (trace_item _ _) fun maxSteps => ?_
  refine Script.trace_bind_of_silent (trace_item _ _) fun every => ?_
  exact Script.trace_bind_of_silent (trace_item _ _) fun learningRate => rfl

theorem reads_of_readConfig (h : (readConfig host context).result = .ok c) : c.Reads context := by
  obtain ⟨dir, _, h⟩ := Script.result_bind_eq_ok.mp h
  obtain ⟨workDir, _, h⟩ := Script.result_bind_eq_ok.mp h
  obtain ⟨maxSteps, hmax, h⟩ := Script.result_bind_eq_ok.mp h
  obtain ⟨every, hevery, h⟩ := Script.result_bind_eq_ok.mp h
  obtain ⟨learningRate, hrate, h⟩ := Script.result_bind_eq_ok.mp h
  obtain rfl := Except.ok.inj h
  exact ⟨Script.result_found_eq_ok.mp hmax, Script.result_found_eq_ok.mp hevery,
    Script.result_found_eq_ok.mp hrate, rfl, rfl, rfl, rfl⟩

theorem Dict.getD_of_get? {d : Dict} {key : String} {v dflt : Json} (h : d.get? key = some v) :
    d.getD key dflt = v := by
  rw [Dict.getD, h]
  rfl

/-- The states of the training of a configuration are those of its context. -/
theorem Config.Reads.stateAt (hc : c.Reads context) (m : ℕ) :
    ToyTrainer.stateAt context m = (c.paramAt m, .num m) := by
  unfold ToyTrainer.stateAt Config.paramAt
  rw [Dict.getD_of_get? hc.learningRate, ← hc.targetValue]

/-- Without a file to resume from the trainer begins from scratch. -/
theorem beginsAt_zero (h : context.getD "resume_from" .null = .null) :
    BeginsAt py host files context 0 := by
  unfold BeginsAt resume
  rw [h]
  show Except.ok (Json.num 0, Json.num 0) = .ok (stateAt context 0)
  unfold stateAt paramAfter
  rw [Nat.cast_zero]

/-- A file of the supervisor that holds a state is where the trainer begins. -/
theorem beginsAt_of_file {path : String} {data : Bytes} {step : Json} {state : Dict} {m : ℕ}
    (h : context.getD "resume_from" .null = .obj [("local_path", .str path), ("step", step)])
    (hdata : files.lookup path = some data) (hstate : py.loads data = some (.obj state))
    (hparam : state.get? "param" = some (stateAt context m).1)
    (hstep : state.get? "step" = some (stateAt context m).2) :
    BeginsAt py host files context m := by
  unfold BeginsAt resume
  rw [h, if_pos (show Json.truthy (.obj _) = true from rfl)]
  refine Script.result_bind_eq_ok.mpr ⟨_, rfl, Script.result_bind_eq_ok.mpr ⟨.str path, rfl, ?_⟩⟩
  rw [loadFile_of_lookup hdata hstate]
  refine Script.result_bind_eq_ok.mpr ⟨_, rfl, Script.result_bind_eq_ok.mpr ⟨state, rfl, ?_⟩⟩
  refine Script.result_bind_eq_ok.mpr ⟨_, Script.result_found_eq_ok.mpr hparam, ?_⟩
  refine Script.result_bind_eq_ok.mpr ⟨_, Script.result_found_eq_ok.mpr hstep, ?_⟩
  exact Script.result_bind_eq_ok.mpr ⟨(), rfl, rfl⟩

/-- The only action before the loop reports that the training is resumed. -/
theorem occurs_resume {before : List Action} {x : Action}
    (h : Occurs before x (resume py host files context).trace) :
    ∃ step, x = .report (resumedEvent step) := by
  unfold resume at h
  split at h
  swap
  · exact absurd h not_occurs_nil
  obtain ⟨_, _, h⟩ := occurs_bind_of_silent (trace_dict _ _) h
  obtain ⟨path, _, h⟩ := occurs_bind_of_silent (trace_item _ _) h
  obtain ⟨value, _, h⟩ := occurs_bind_of_silent (trace_loadFile _) h
  obtain ⟨state, _, h⟩ := occurs_bind_of_silent (trace_dict _ _) h
  obtain ⟨param, _, h⟩ := occurs_bind_of_silent (trace_item _ _) h
  obtain ⟨step, _, h⟩ := occurs_bind_of_silent (trace_item _ _) h
  obtain hreport | ⟨_, _, _, _, hpure⟩ := occurs_bind h
  · exact ⟨step, (occurs_singleton.mp hreport).2⟩
  · exact absurd hpure not_occurs_nil

end Beginning

/-! ### What a trainer does -/

/-- **What a trainer does** that begins after `m` steps, when `before` has happened. -/
inductive Config.Does (env : Env) (py : Python) (c : Config) (m : ℕ) (before : List Action) :
    Action → Prop
  | resumed {step : Json} : Config.Does env py c m before (.report (resumedEvent step))
  | metric {n : ℕ} (hm : m ≤ n) (hbelow : c.Below py n) :
      Config.Does env py c m before (.report (c.metricAt n))
  | save {n : ℕ} (hm : m < n) (hbelow : c.Below py n) :
      Config.Does env py c m before (c.checkpointWrite env py n)
  | checkpoint {n : ℕ} (hm : m < n) (hbelow : c.Below py n) (hmeasured : c.Measured before m n)
      (hsaved : c.checkpointWrite env py n ∈ before) :
      Config.Does env py c m before (.report (c.checkpointAt env n))
  | write {n : ℕ} (hends : c.Ends py m n) : Config.Does env py c m before (c.finalWrite py n)
  | final {n : ℕ} (hends : c.Ends py m n) (hmeasured : c.Measured before m n)
      (hwritten : c.finalWrite py n ∈ before) :
      Config.Does env py c m before (.report (c.finalAt n))

section Actions

variable {env : Env} {py : Python} {host : Host} {files : List (String × Bytes)} {context : Dict}
  {c : Config} {m : ℕ} {before : List Action} {x : Action}

theorem Config.Does.mono {before' : List Action} (h : c.Does env py m before x)
    (hsub : before ⊆ before') : c.Does env py m before' x := by
  cases h with
  | resumed => exact .resumed
  | metric hm hbelow => exact .metric hm hbelow
  | save hm hbelow => exact .save hm hbelow
  | checkpoint hm hbelow hmeasured hsaved =>
      exact .checkpoint hm hbelow (hmeasured.mono hsub) (hsub hsaved)
  | write hends => exact .write hends
  | final hends hmeasured hwritten => exact .final hends (hmeasured.mono hsub) (hsub hwritten)

/-- The metrics of the steps before an iteration, and its own. -/
theorem Config.Measured.succ {n : ℕ} {acts acts' : List Action} (h : c.Measured acts m n)
    (hsub : acts ⊆ acts') (hmetric : .report (c.metricAt n) ∈ acts') :
    c.Measured acts' m (n + 1) := by
  intro i hi hlt
  obtain rfl | hlt := Nat.eq_or_lt_of_le (Nat.le_of_lt_succ hlt)
  · exact hmetric
  · exact hsub (h i hi hlt)

theorem does_of_steps {fuel : ℕ}
    (h : Occurs before x (steps env py host c fuel (c.paramAt m) (.num m)).trace) :
    c.Does env py m before x := by
  obtain ⟨n, pre, rest, hm, hbelow, rfl, hmeasured, hx⟩ := occurs_steps h
  have hlt : m < n + 1 := Nat.lt_succ_of_le hm
  obtain ⟨rfl, rfl⟩ | ⟨hnext, ⟨rfl, rfl⟩ | ⟨rfl, rfl⟩⟩ := occurs_iterate hx
  · exact .metric hm hbelow
  · exact .save hlt hnext
  · exact .checkpoint hlt hnext (hmeasured.succ (List.subset_append_left _ _) (by simp)) (by simp)

/-- **Where the training ends**, and what it has reported. -/
theorem ends_of_train {last : Json × Json} (hbegins : BeginsAt py host files context m)
    (h : (train env py host files context).result = .ok (c, last)) :
    (readConfig host context).result = .ok c ∧ ∃ n, last = (c.paramAt n, .num n) ∧
      c.Ends py m n ∧ c.Measured (train env py host files context).trace m n := by
  obtain ⟨c', hc, hrest⟩ := Script.result_bind_eq_ok.mp h
  obtain ⟨state, hstate, hloop⟩ := Script.result_bind_eq_ok.mp hrest
  obtain rfl : stateAt context m = state := Except.ok.inj (hbegins.symm.trans hstate)
  rw [(reads_of_readConfig hc).stateAt] at hstate hloop
  obtain ⟨last', hlast, hpure⟩ := Script.result_bind_eq_ok.mp hloop
  obtain ⟨rfl, rfl⟩ := Prod.mk.inj (Except.ok.inj hpure)
  obtain ⟨n, rfl, hends, hmeasured⟩ := ok_steps hlast le_rfl
  refine ⟨hc, n, rfl, hends, hmeasured.mono fun y hy => ?_⟩
  refine Script.mem_trace_bind_right hc (Script.mem_trace_bind_right hstate ?_)
  exact Script.mem_trace_bind_left hy

theorem does_of_train (hbegins : BeginsAt py host files context m)
    (h : Occurs before x (train env py host files context).trace) :
    ∃ c, (readConfig host context).result = .ok c ∧ c.Does env py m before x := by
  obtain ⟨c, hc, h⟩ := occurs_bind_of_silent trace_readConfig h
  refine ⟨c, hc, ?_⟩
  obtain hresumed | ⟨state, rest, hstate, rfl, h⟩ := occurs_bind h
  · obtain ⟨step, rfl⟩ := occurs_resume hresumed
    exact .resumed
  obtain rfl : stateAt context m = state := Except.ok.inj (hbegins.symm.trans hstate)
  rw [(reads_of_readConfig hc).stateAt] at h
  obtain hloop | ⟨_, _, _, _, hpure⟩ := occurs_bind h
  · exact (does_of_steps hloop).mono (List.subset_append_right _ _)
  · exact absurd hpure not_occurs_nil

/-- **Every action of a trainer that begins after `m` steps.** -/
theorem does_of_run (hbegins : BeginsAt py host files context m)
    (h : Occurs before x (run env py host files context).trace) :
    ∃ c, (readConfig host context).result = .ok c ∧ c.Does env py m before x := by
  obtain htrain | ⟨⟨c, param, step⟩, rest, hr, rfl, h⟩ := occurs_bind h
  · exact does_of_train hbegins htrain
  obtain ⟨hc, n, hlast, hends, hmeasured⟩ := ends_of_train hbegins hr
  obtain ⟨rfl, rfl⟩ := Prod.mk.inj hlast
  refine ⟨c, hc, ?_⟩
  obtain hwrite | ⟨_, rest', hwritten, rfl, hreport⟩ := occurs_bind h
  · obtain ⟨rfl, rfl⟩ := occurs_dumpFile hwrite
    exact .write hends
  · obtain ⟨rfl, rfl⟩ := occurs_singleton.mp hreport
    refine .final hends (hmeasured.mono (List.subset_append_left _ _)) ?_
    rw [trace_dumpFile_of_ok hwritten]
    simp [Config.finalWrite]

end Actions

/-! ### The files of a trainer -/

section Paths

variable {env : Env} {c : Config}

theorem joinPath_inj {dir a b : String} (h : joinPath dir a = joinPath dir b) : a = b := by
  unfold joinPath at h
  split at h
  · exact (String.append_right_inj dir).mp h
  · exact (String.append_right_inj _).mp h

/-- Where the texts of different numbers differ, each step has a file of its own. -/
theorem Config.checkpointPath_inj (hstr : Function.Injective fun n : ℕ => env.pyStr (.num n))
    {m n : ℕ} (h : c.checkpointPath env (.num m) = c.checkpointPath env (.num n)) : m = n := by
  have hname := joinPath_inj h
  have hstem := (String.append_left_inj ".json").mp hname
  exact hstr ((String.append_right_inj "checkpoint-").mp hstem)

theorem Config.checkpointPath_ne_finalPath {step : Json} :
    c.checkpointPath env step ≠ c.finalPath := by
  intro h
  have hname := congrArg String.toList (joinPath_inj h)
  simp at hname

/-- The content of the file of a step. -/
theorem Config.Does.content {py : Python} {m n : ℕ} {before : List Action} {data : Bytes}
    (hstr : Function.Injective fun n : ℕ => env.pyStr (.num n))
    (h : c.Does env py m before (.write (c.checkpointPath env (.num n)) data)) :
    data = py.dumps (c.checkpointFile (c.paramAt n) (.num n)) := by
  generalize hx : Action.write (c.checkpointPath env (.num n)) data = x at h
  cases h with
  | save =>
      obtain ⟨hpath, hdata⟩ := Action.write.inj hx
      rw [hdata, Config.checkpointPath_inj hstr hpath]
  | write =>
      obtain ⟨hpath, _⟩ := Action.write.inj hx
      exact absurd hpath Config.checkpointPath_ne_finalPath
  | resumed | metric | checkpoint | final => cases hx

end Paths

/-! ### The events of a trainer -/

section Events

variable {env : Env} {py : Python} {c : Config} {m : ℕ} {before : List Action} {event : Dict}

/-- A metric event is that of a step. -/
theorem Config.Does.metric_event (h : c.Does env py m before (.report event))
    (hkind : event.get? "event" = some (.str "metric")) :
    ∃ n, m ≤ n ∧ c.Below py n ∧ event = c.metricAt n := by
  generalize hx : Action.report event = x at h
  cases h with
  | metric hm hbelow => exact ⟨_, hm, hbelow, Action.report.inj hx⟩
  | resumed | checkpoint | final =>
      obtain rfl := Action.report.inj hx
      exact absurd hkind (by simp [resumedEvent, Config.checkpointAt, checkpointEvent,
        Config.finalAt, finalEvent, Dict.get?])
  | save | write => cases hx

/-- A checkpoint event is that of a step whose metrics have been reported and whose file is written. -/
theorem Config.Does.checkpoint_event (h : c.Does env py m before (.report event))
    (hkind : event.get? "event" = some (.str "checkpoint")) :
    ∃ n, m < n ∧ c.Below py n ∧ c.Measured before m n ∧ c.checkpointWrite env py n ∈ before ∧
      event = c.checkpointAt env n := by
  generalize hx : Action.report event = x at h
  cases h with
  | checkpoint hm hbelow hmeasured hsaved =>
      exact ⟨_, hm, hbelow, hmeasured, hsaved, Action.report.inj hx⟩
  | resumed | metric | final =>
      obtain rfl := Action.report.inj hx
      exact absurd hkind (by simp [resumedEvent, Config.metricAt, metricEvent, Config.finalAt,
        finalEvent, Dict.get?])
  | save | write => cases hx

/-- A final event comes when the training has ended. -/
theorem Config.Does.final_event (h : c.Does env py m before (.report event))
    (hkind : event.get? "event" = some (.str "final")) :
    ∃ n, c.Ends py m n ∧ c.Measured before m n ∧ c.finalWrite py n ∈ before ∧
      event = c.finalAt n := by
  generalize hx : Action.report event = x at h
  cases h with
  | final hends hmeasured hwritten => exact ⟨_, hends, hmeasured, hwritten, Action.report.inj hx⟩
  | resumed | metric | checkpoint =>
      obtain rfl := Action.report.inj hx
      exact absurd hkind (by simp [resumedEvent, Config.metricAt, metricEvent,
        Config.checkpointAt, checkpointEvent, Dict.get?])
  | save | write => cases hx

end Events

/-! ### Where a training ends that counts to a number -/

section Ends

variable {env : Env} {py : Python} {c : Config} {m n : ℕ} {max : ℚ}
  (hmax : CapacityRepo.pyNumber c.maxSteps = some max)

include hmax

theorem Config.below_iff : c.Below py n ↔ (n : ℚ) < max := by
  unfold Config.Below
  rw [pyLess_of_number hmax]
  simp

theorem Config.Ends.le_of_ends {n' : ℕ} (h : c.Ends py m n) (h' : c.Ends py m n') : n ≤ n' := by
  by_contra hlt
  push Not at hlt
  -- the earlier end is still below the maximum
  have hbelow := (Config.below_iff hmax).mp (h.2.1 n' h'.1 hlt)
  exact absurd (h'.2.2 max hmax) (not_le.mpr hbelow)

/-- **The training ends with the maximum**, wherever below it has begun. -/
theorem Config.Ends.eq_ceil (h : c.Ends py m n) (hm : m = 0 ∨ (m : ℚ) < max) : n = ⌈max⌉₊ := by
  refine le_antisymm ?_ (Nat.ceil_le.mpr (h.2.2 max hmax))
  obtain heq | hlt := Nat.eq_or_lt_of_le h.1
  · obtain rfl | hm := hm
    · omega
    · rw [← heq]
      exact (Nat.lt_ceil.mpr hm).le
  · have hbelow := (Config.below_iff hmax).mp (h.2.1 (n - 1) (by omega) (by omega))
    have hceil := Nat.lt_ceil.mpr hbelow
    omega

/-- The content of the final file. -/
theorem Config.Does.final_content {before : List Action} {data : Bytes} (hends : c.Ends py m n)
    (h : c.Does env py m before (.write c.finalPath data)) :
    data = py.dumps (c.finalFile (c.paramAt n) (.num n)) := by
  generalize hx : Action.write c.finalPath data = x at h
  cases h with
  | save =>
      obtain ⟨hpath, _⟩ := Action.write.inj hx
      exact absurd hpath.symm Config.checkpointPath_ne_finalPath
  | write hends' =>
      obtain ⟨_, hdata⟩ := Action.write.inj hx
      rw [hdata, le_antisymm (hends.le_of_ends hmax hends') (hends'.le_of_ends hmax hends)]
  | resumed | metric | checkpoint | final => cases hx

end Ends

end PosttrainPlatform.ToyTrainer
