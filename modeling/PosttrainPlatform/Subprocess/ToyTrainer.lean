import PosttrainPlatform.Subprocess.Process

/-!
# `app/training/toy_trainer.py`

The loop, its checkpoints and its final file.  `paramAfter` is the parameter after a number of steps
from scratch; a trainer that begins in one of these states, whatever file it has read it from, goes
through the later ones (`occurs_run`).
-/

namespace PosttrainPlatform.ToyTrainer

open Traces Process

/-- The local variables of `run` that its loop reads. -/
structure Config where
  workDir : String
  maxSteps : Json
  checkpointEveryNSteps : Json
  learningRate : Json
  targetValue : Json
  stepSleepSeconds : Json
  trainingRunId : Json
  attemptNumber : Json

/-- `os.makedirs(work_dir, exist_ok=True)`. -/
def makedirs (host : Host) : Json → Process String
  | .str dir => do
      check .osError (host.writable dir)
      pure dir
  | _ => Script.raise .typeError

/-- The beginning of `run`: what it reads of the context. -/
def readConfig (host : Host) (context : Dict) : Process Config := do
  let workDir ← makedirs host (← item context "work_dir")
  let maxSteps ← item context "max_steps"
  let checkpointEveryNSteps ← item context "checkpoint_every_n_steps"
  let learningRate ← item context "learning_rate"
  pure { workDir, maxSteps, checkpointEveryNSteps, learningRate
         targetValue := context.getD "target_value" (.num 1)
         stepSleepSeconds := context.getD "step_sleep_seconds" (.num 0)
         trainingRunId := context.getD "training_run_id" .null
         attemptNumber := context.getD "attempt_number" .null }

def resumedEvent (step : Json) : Dict := [("event", .str "resumed"), ("step", step)]

/-- The parameter and the step that the loop begins with. -/
def resume (py : Python) (host : Host) (files : List (String × Bytes)) (context : Dict) :
    Process (Json × Json) :=
  if (context.getD "resume_from" .null).truthy then do
    let resumeFrom ← dict .typeError (context.getD "resume_from" .null)
    let path ← item resumeFrom "local_path"
    let state ← dict .typeError (← loadFile py host files path)
    let param ← item state "param"
    let step ← item state "step"
    report (resumedEvent step)
    pure (param, step)
  else pure (.num 0, .num 0)

/-- The keys that every saved artifact carries. -/
def Config.identity (c : Config) : Dict :=
  [("training_run_id", c.trainingRunId), ("attempt_number", c.attemptNumber)]

def Config.checkpointFile (c : Config) (param step : Json) : Json :=
  .obj ([("param", param), ("step", step)] ++ c.identity)

def Config.finalFile (c : Config) (param step : Json) : Json :=
  .obj ([("param", param), ("step", step), ("final", .bool true)] ++ c.identity)

def Config.checkpointPath (env : Env) (c : Config) (step : Json) : String :=
  joinPath c.workDir ("checkpoint-" ++ env.pyStr step ++ ".json")

def Config.finalPath (c : Config) : String := joinPath c.workDir "final_model.json"

def metricEvent (step loss learningRate : Json) : Dict :=
  [("event", .str "metric"), ("step", step), ("loss", loss), ("learning_rate", learningRate)]

def checkpointEvent (step : Json) (path : String) : Dict :=
  [("event", .str "checkpoint"), ("step", step), ("local_path", .str path)]

def finalEvent (step : Json) (path : String) : Dict :=
  [("event", .str "final"), ("step", step), ("local_path", .str path)]

/-- `step % checkpoint_every_n_steps == 0 and step < max_steps`. -/
def due (py : Python) (c : Config) (step : ℚ) : Process Bool := do
  let every ← number c.checkpointEveryNSteps
  check .zeroDivisionError (every ≠ 0)
  if (step / every).den = 1 then less py (.num step) c.maxSteps else pure false

/-- The checkpoint that is saved when it is due. -/
def saveCheckpoint (env : Env) (py : Python) (host : Host) (c : Config) (param step : Json) :
    Process Unit := do
  dumpFile py host (c.checkpointPath env step) (c.checkpointFile param step)
  report (checkpointEvent step (c.checkpointPath env step))

/-- The end of an iteration: save a checkpoint if one is due. -/
def checkpointWhenDue (env : Env) (py : Python) (host : Host) (c : Config) (param step : ℚ) :
    Process Unit := do
  if ← due py c step then saveCheckpoint env py host c (.num param) (.num step)
  else pure ()

/-- One iteration of the loop. -/
def iterate (env : Env) (py : Python) (host : Host) (c : Config) (param step : Json) :
    Process (Json × Json) := do
  let s ← number step
  timeSleep c.stepSleepSeconds
  let target ← number c.targetValue
  let p ← number param
  let rate ← number c.learningRate
  report (metricEvent (.num (s + 1)) (.num ((target - p) * (target - p))) c.learningRate)
  checkpointWhenDue env py host c (p + rate * (target - p)) (s + 1)
  pure (.num (p + rate * (target - p)), .num (s + 1))

/-- The loop; the fuel bounds the number of iterations. -/
def steps (env : Env) (py : Python) (host : Host) (c : Config) :
    ℕ → Json → Json → Process (Json × Json)
  | 0, param, step => pure (param, step)
  | fuel + 1, param, step => do
      if ← less py step c.maxSteps then do
        let (param, step) ← iterate env py host c param step
        steps env py host c fuel param step
      else pure (param, step)

/-- How often a loop from `step` can iterate: once, to fail, where there is nothing to count. -/
def stepsLeft (c : Config) (step : Json) : ℕ :=
  match CapacityRepo.pyNumber step, CapacityRepo.pyNumber c.maxSteps with
  | some s, some m => ⌈m - s⌉₊
  | _, _ => 1

/-- `run` up to the end of its loop. -/
def train (env : Env) (py : Python) (host : Host) (files : List (String × Bytes)) (context : Dict) :
    Process (Config × Json × Json) := do
  let c ← readConfig host context
  let (param, step) ← resume py host files context
  let (param, step) ← steps env py host c (stepsLeft c step) param step
  pure (c, param, step)

/-- `run`. -/
def run (env : Env) (py : Python) (host : Host) (files : List (String × Bytes)) (context : Dict) :
    Process Unit := do
  let (c, param, step) ← train env py host files context
  dumpFile py host c.finalPath (c.finalFile param step)
  report (finalEvent step c.finalPath)

/-! ### The states of a training from scratch -/

/-- The number that a value is, where it is one. -/
def asNumber (v : Json) : ℚ := (CapacityRepo.pyNumber v).getD 0

theorem asNumber_of_result {v : Json} {q : ℚ} (h : (number v).result = .ok q) : asNumber v = q := by
  have hq : CapacityRepo.pyNumber v = some q := Script.result_found_eq_ok.mp h
  rw [asNumber, hq]
  rfl

/-- **The parameter after `m` steps from scratch.** -/
def paramAfter (learningRate targetValue : Json) : ℕ → ℚ
  | 0 => 0
  | m + 1 => paramAfter learningRate targetValue m +
      asNumber learningRate * (asNumber targetValue - paramAfter learningRate targetValue m)

namespace Config

variable (c : Config)

def paramAt (m : ℕ) : Json := .num (paramAfter c.learningRate c.targetValue m)

/-- The metric event of the step `m + 1`. -/
def metricAt (m : ℕ) : Dict :=
  metricEvent (.num (m + 1 : ℕ))
    (.num ((asNumber c.targetValue - paramAfter c.learningRate c.targetValue m) *
      (asNumber c.targetValue - paramAfter c.learningRate c.targetValue m))) c.learningRate

/-- The checkpoint of step `m`, as it is written and as it is reported. -/
def checkpointWrite (env : Env) (py : Python) (m : ℕ) : Action :=
  .write (c.checkpointPath env (.num m)) (py.dumps (c.checkpointFile (c.paramAt m) (.num m)))

def checkpointAt (env : Env) (m : ℕ) : Dict :=
  checkpointEvent (.num m) (c.checkpointPath env (.num m))

/-- The final file of a training that ends with step `m`. -/
def finalWrite (py : Python) (m : ℕ) : Action :=
  .write c.finalPath (py.dumps (c.finalFile (c.paramAt m) (.num m)))

def finalAt (m : ℕ) : Dict := finalEvent (.num m) c.finalPath

/-- The step `m` is below the last one. -/
def Below (py : Python) (m : ℕ) : Prop := pyLess py (.num m) c.maxSteps = some true

/-- The metrics of the steps after `m` up to `n` have been reported. -/
def Measured (acts : List Action) (m n : ℕ) : Prop :=
  ∀ i, m ≤ i → i < n → .report (c.metricAt i) ∈ acts

end Config

section Loop

variable {env : Env} {py : Python} {host : Host} {c : Config} {before : List Action} {x : Action}

theorem pyLess_of_number {x y : ℚ} {v : Json} (h : CapacityRepo.pyNumber v = some y) :
    pyLess py (.num x) v = some (decide (x < y)) := by
  rw [pyLess, h]
  rfl

theorem Config.Measured.mono {acts acts' : List Action} {m n : ℕ} (h : c.Measured acts m n)
    (hsub : acts ⊆ acts') : c.Measured acts' m n := fun i hm hn => hsub (h i hm hn)

theorem Config.measured_self (acts : List Action) (m : ℕ) : c.Measured acts m m :=
  fun _ hm hn => absurd (lt_of_le_of_lt hm hn) (lt_irrefl m)

theorem trace_due (step : ℚ) : (due py c step).trace = [] := by
  refine Script.trace_bind_of_silent (trace_number _) fun every => ?_
  refine Script.trace_bind_of_silent (trace_check _ _) fun _ => ?_
  split
  · exact trace_less _ _
  · rfl

theorem less_of_due {step : ℚ} (h : (due py c step).result = .ok true) :
    pyLess py (.num step) c.maxSteps = some true := by
  obtain ⟨every, _, h⟩ := Script.result_bind_eq_ok.mp h
  obtain ⟨_, _, h⟩ := Script.result_bind_eq_ok.mp h
  split at h
  · exact Script.result_found_eq_ok.mp h
  · cases h

theorem occurs_checkpointWhenDue {m : ℕ} {param : ℚ}
    (h : Occurs before x (checkpointWhenDue env py host c param (m : ℕ)).trace)
    (hparam : c.paramAt m = .num param) : c.Below py m ∧
      ((before = [] ∧ x = c.checkpointWrite env py m) ∨
        (before = [c.checkpointWrite env py m] ∧ x = .report (c.checkpointAt env m))) := by
  obtain ⟨isDue, hdue, h⟩ := occurs_bind_of_silent (trace_due _) h
  cases isDue with
  | false => exact absurd h not_occurs_nil
  | true =>
      refine ⟨less_of_due hdue, ?_⟩
      unfold Config.checkpointWrite
      rw [hparam]
      obtain hwrite | ⟨_, rest, hwritten, hbefore, hreport⟩ := occurs_bind h
      · exact Or.inl (occurs_dumpFile hwrite)
      · obtain ⟨rfl, rfl⟩ := occurs_singleton.mp hreport
        refine Or.inr ⟨?_, rfl⟩
        rw [hbefore, trace_dumpFile_of_ok hwritten]
        rfl

/-- What the numbers of an iteration are, in the state after `m` steps. -/
theorem paramAt_succ {m : ℕ} {target rate : ℚ} (htarget : (number c.targetValue).result = .ok target)
    (hrate : (number c.learningRate).result = .ok rate) :
    c.paramAt (m + 1) = .num (paramAfter c.learningRate c.targetValue m +
      rate * (target - paramAfter c.learningRate c.targetValue m)) := by
  rw [← asNumber_of_result htarget, ← asNumber_of_result hrate]
  rfl

/-- **What an iteration does**, from the state after `m` steps. -/
theorem occurs_iterate {m : ℕ}
    (h : Occurs before x (iterate env py host c (c.paramAt m) (.num m)).trace) :
    (before = [] ∧ x = .report (c.metricAt m)) ∨
      c.Below py (m + 1) ∧
        ((before = [.report (c.metricAt m)] ∧ x = c.checkpointWrite env py (m + 1)) ∨
          (before = [.report (c.metricAt m), c.checkpointWrite env py (m + 1)] ∧
            x = .report (c.checkpointAt env (m + 1)))) := by
  obtain ⟨s, hs, h⟩ := occurs_bind_of_silent (trace_number _) h
  obtain ⟨_, _, h⟩ := occurs_bind_of_silent (trace_timeSleep _) h
  obtain ⟨target, htarget, h⟩ := occurs_bind_of_silent (trace_number _) h
  obtain ⟨p, hp, h⟩ := occurs_bind_of_silent (trace_number _) h
  obtain ⟨rate, hrate, h⟩ := occurs_bind_of_silent (trace_number _) h
  obtain rfl : s = m := (Except.ok.inj hs).symm
  obtain rfl : p = paramAfter c.learningRate c.targetValue m := (Except.ok.inj hp).symm
  have hcast : ((m : ℚ) + 1) = ((m + 1 : ℕ) : ℚ) := (Nat.cast_succ m).symm
  rw [hcast] at h
  have hmetric : metricEvent (.num (m + 1 : ℕ))
      (.num ((target - paramAfter c.learningRate c.targetValue m) *
        (target - paramAfter c.learningRate c.targetValue m))) c.learningRate = c.metricAt m := by
    rw [← asNumber_of_result htarget]
    rfl
  rw [hmetric] at h
  obtain hreport | ⟨_, rest, _, hbefore, hrest⟩ := occurs_bind h
  · exact Or.inl (occurs_singleton.mp hreport)
  obtain hsave | ⟨_, _, _, _, hpure⟩ := occurs_bind hrest
  · obtain ⟨hbelow, hwhat⟩ := occurs_checkpointWhenDue hsave (paramAt_succ htarget hrate)
    refine Or.inr ⟨hbelow, ?_⟩
    obtain ⟨rfl, hx⟩ | ⟨rfl, hx⟩ := hwhat
    · exact Or.inl ⟨hbefore, hx⟩
    · exact Or.inr ⟨hbefore, hx⟩
  · exact absurd hpure not_occurs_nil

/-- An iteration that ends has reported its metric, and leads to the next state. -/
theorem ok_iterate {m : ℕ} {r : Json × Json}
    (h : (iterate env py host c (c.paramAt m) (.num m)).result = .ok r) :
    r = (c.paramAt (m + 1), .num (m + 1 : ℕ)) ∧
      .report (c.metricAt m) ∈ (iterate env py host c (c.paramAt m) (.num m)).trace := by
  obtain ⟨s, hs, h⟩ := Script.result_bind_eq_ok.mp h
  obtain ⟨_, hsleep, h⟩ := Script.result_bind_eq_ok.mp h
  obtain ⟨target, htarget, h⟩ := Script.result_bind_eq_ok.mp h
  obtain ⟨p, hp, h⟩ := Script.result_bind_eq_ok.mp h
  obtain ⟨rate, hrate, h⟩ := Script.result_bind_eq_ok.mp h
  obtain ⟨_, _, h⟩ := Script.result_bind_eq_ok.mp h
  obtain ⟨_, _, h⟩ := Script.result_bind_eq_ok.mp h
  obtain rfl : s = m := (Except.ok.inj hs).symm
  obtain rfl : p = paramAfter c.learningRate c.targetValue m := (Except.ok.inj hp).symm
  have hcast : ((m : ℚ) + 1) = ((m + 1 : ℕ) : ℚ) := (Nat.cast_succ m).symm
  constructor
  · rw [paramAt_succ htarget hrate, ← hcast]
    exact (Except.ok.inj h).symm
  · refine Script.mem_trace_bind_right hs (Script.mem_trace_bind_right hsleep ?_)
    refine Script.mem_trace_bind_right htarget (Script.mem_trace_bind_right hp ?_)
    refine Script.mem_trace_bind_right hrate (Script.mem_trace_bind_left ?_)
    rw [Config.metricAt, asNumber_of_result htarget, ← hcast]
    exact List.mem_singleton_self _

/-- **What the loop does**, from the state after `m` steps: an iteration after the earlier ones have
reported their metrics. -/
theorem occurs_steps {fuel m : ℕ}
    (h : Occurs before x (steps env py host c fuel (c.paramAt m) (.num m)).trace) :
    ∃ n pre rest, m ≤ n ∧ c.Below py n ∧ before = pre ++ rest ∧ c.Measured pre m n ∧
      Occurs rest x (iterate env py host c (c.paramAt n) (.num n)).trace := by
  induction fuel generalizing m before with
  | zero => exact absurd h not_occurs_nil
  | succ fuel ih =>
      obtain ⟨isBelow, hbelow, h⟩ := occurs_bind_of_silent (trace_less _ _) h
      cases isBelow with
      | false => exact absurd h not_occurs_nil
      | true =>
          have hm : c.Below py m := Script.result_found_eq_ok.mp hbelow
          obtain hnow | ⟨r, rest, hr, hbefore, hlater⟩ := occurs_bind h
          · exact ⟨m, [], before, le_rfl, hm, rfl, c.measured_self [] m, hnow⟩
          · obtain ⟨rfl, hmetric⟩ := ok_iterate hr
            obtain ⟨n, pre, rest', hle, hn, hrest, hmeasured, hx⟩ := ih hlater
            refine ⟨n, (iterate env py host c (c.paramAt m) (.num m)).trace ++ pre, rest',
              (Nat.le_succ m).trans hle, hn, ?_, fun i hi hin => ?_, hx⟩
            · rw [hbefore, hrest, List.append_assoc]
            · obtain rfl | hlt := Nat.eq_or_lt_of_le hi
              · exact List.mem_append_left _ hmetric
              · exact List.mem_append_right _ (hmeasured i hlt hin)

/-- The last step of a loop from step `m`: no step is left, and those before it were below the
maximum. -/
def Config.Ends (c : Config) (py : Python) (m n : ℕ) : Prop :=
  m ≤ n ∧ (∀ i, m ≤ i → i < n → c.Below py i) ∧
    ∀ max, CapacityRepo.pyNumber c.maxSteps = some max → max ≤ n

/-- **How the loop ends**, from the state after `m` steps and with enough fuel. -/
theorem ok_steps {fuel m : ℕ} {r : Json × Json}
    (h : (steps env py host c fuel (c.paramAt m) (.num m)).result = .ok r)
    (hfuel : stepsLeft c (.num m) ≤ fuel) : ∃ n, r = (c.paramAt n, .num n) ∧ c.Ends py m n ∧
      c.Measured (steps env py host c fuel (c.paramAt m) (.num m)).trace m n := by
  have hleft : ∀ max, CapacityRepo.pyNumber c.maxSteps = some max → max ≤ (m + fuel : ℚ) := by
    intro max hmax
    have hceil : stepsLeft c (.num m) = ⌈max - m⌉₊ := by
      rw [stepsLeft, hmax]
      rfl
    have hle : max - m ≤ (fuel : ℚ) := by
      rw [hceil] at hfuel
      exact (Nat.le_ceil _).trans (Nat.cast_le.mpr hfuel)
    linarith
  clear hfuel
  induction fuel generalizing m with
  | zero =>
      refine ⟨m, (Except.ok.inj h).symm, ⟨le_rfl, fun i hi hlt => absurd hlt (not_lt.mpr hi), ?_⟩,
        c.measured_self _ m⟩
      intro max hmax
      simpa using hleft max hmax
  | succ fuel ih =>
      obtain ⟨isBelow, hbelow, hrest⟩ := Script.result_bind_eq_ok.mp h
      have hm : pyLess py (.num m) c.maxSteps = some isBelow := Script.result_found_eq_ok.mp hbelow
      cases isBelow with
      | false =>
          refine ⟨m, (Except.ok.inj hrest).symm, ⟨le_rfl, fun i hi hlt => ?_, fun max hmax => ?_⟩,
            c.measured_self _ m⟩
          · exact absurd hlt (not_lt.mpr hi)
          · rw [pyLess_of_number hmax] at hm
            simpa using hm
      | true =>
          obtain ⟨r', hr', hlater⟩ := Script.result_bind_eq_ok.mp hrest
          obtain ⟨rfl, hmetric⟩ := ok_iterate hr'
          obtain ⟨n, hr, ⟨hle, hbelows, hends⟩, hmeasured⟩ := ih hlater fun max hmax => by
            have hmax' := hleft max hmax
            push_cast at hmax' ⊢
            linarith
          refine ⟨n, hr, ⟨(Nat.le_succ m).trans hle, fun i hi hin => ?_, hends⟩, fun i hi hin => ?_⟩
          · obtain rfl | hlt := Nat.eq_or_lt_of_le hi
            · exact hm
            · exact hbelows i hlt hin
          · refine Script.mem_trace_bind_right hbelow ?_
            obtain rfl | hlt := Nat.eq_or_lt_of_le hi
            · exact Script.mem_trace_bind_left hmetric
            · exact Script.mem_trace_bind_right hr' (hmeasured i hlt hin)

end Loop

end PosttrainPlatform.ToyTrainer
