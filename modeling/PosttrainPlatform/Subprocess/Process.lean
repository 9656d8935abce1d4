import Mathlib.Data.List.ReduceOption
import PosttrainPlatform.Lib.Traces
import PosttrainPlatform.Services.Worker

/-!
# The subprocess of an attempt

`app/training/gpu.py`, `app/training/subprocess_main.py`, `app/evaluation/subprocess_main.py`, and
the Python that the two toy modules are written in.  A subprocess reads its context and the files
that the supervisor has left, writes files, and reports events, one JSON line each.  It may be killed
after any of its actions.
-/

namespace PosttrainPlatform

open Doubles Traces

/-- The exceptions of a subprocess. -/
inductive PyExn
  | keyError
  | typeError
  | attributeError
  | valueError
  | zeroDivisionError
  | osError
  | indexError
  | overflowError
  deriving DecidableEq

/-- The part of Python that the toy modules leave to the library. -/
structure Python where
  /-- `json.dump`, as the bytes of the file. -/
  dumps : Json → Bytes
  /-- `json.load`. -/
  loads : Bytes → Option Json
  /-- A value makes the round trip unchanged, numbers included. -/
  loads_dumps : ∀ v, loads (dumps v) = some v
  /-- `float` of a text. -/
  float : String → Option Number
  /-- `<` between values that are not both numbers; `none` is a `TypeError`. -/
  less : Json → Json → Option Bool

/-- What a subprocess meets where it runs. -/
structure Host where
  /-- What `open` finds for a name that is no file of the supervisor. -/
  file : Json → Option Bytes
  /-- Whether a file or a directory can be made. -/
  writable : String → Bool
  /-- `probe_cuda`: the number of devices and the memory of the first, where CUDA is available. -/
  cuda : Option (ℕ × Option ℕ)
  /-- The measured latency of an example. -/
  latencyMs : ℕ → ℚ
  /-- `str` of an exception. -/
  message : PyExn → String

/-- What a subprocess does that others can see. -/
inductive Action
  | write (path : String) (data : Bytes)
  | report (event : Dict)

def Action.event? : Action → Option Dict
  | write .. => none
  | report event => some event

def Action.file? : Action → Option (String × Bytes)
  | write path data => some (path, data)
  | report _ => none

def Json.dict? : Json → Option Dict
  | .obj d => some d
  | _ => none

/-- A part of a subprocess. -/
abbrev Process := Script Action PyExn

namespace Process

def report (event : Dict) : Process Unit := Script.act (.report event)

def check (e : PyExn) (b : Bool) : Process Unit := if b then pure () else Script.raise e

/-- `d[key]`. -/
def item (d : Dict) (key : String) : Process Json := Script.found .keyError (d.get? key)

/-- The dict behind a value; `e` is what the operation raises for any other value. -/
def dict (e : PyExn) (v : Json) : Process Dict := Script.found e v.dict?

/-- An operand of an arithmetic operator. -/
def number (v : Json) : Process ℚ := Script.found .typeError (CapacityRepo.pyNumber v)

/-- `a < b`. -/
def pyLess (py : Python) (a b : Json) : Option Bool :=
  match CapacityRepo.pyNumber a, CapacityRepo.pyNumber b with
  | some x, some y => some (decide (x < y))
  | _, _ => py.less a b

def less (py : Python) (a b : Json) : Process Bool := Script.found .typeError (pyLess py a b)

/-- The double that a number is: an integer may be too large for one. -/
def toDouble : Number → Process Number
  | .finite q =>
      match Number.round q with
      | .infinity _ => Script.raise .overflowError
      | x => pure x
  | x => pure x

/-- `float(v)`. -/
def float (py : Python) : Json → Process Number
  | .str s => Script.found .valueError (py.float s)
  | v => do toDouble (← Script.found .typeError v.number?)

/-- `time.sleep(seconds)`, when there is anything to sleep. -/
def timeSleep (seconds : Json) : Process Unit :=
  if seconds.truthy then do
    let q ← number seconds
    check .valueError (0 ≤ q)
  else pure ()

/-- `open(path)` and what it contains: a file of the supervisor, or one that was there before. -/
def openFile (host : Host) (files : List (String × Bytes)) : Json → Process Bytes
  | .str path => Script.found .osError (files.lookup path <|> host.file (.str path))
  | v => Script.found .typeError (host.file v)

/-- `json.load` of a file. -/
def loadFile (py : Python) (host : Host) (files : List (String × Bytes)) (path : Json) :
    Process Json := do
  let data ← openFile host files path
  Script.found .valueError (py.loads data)

/-- `json.dump` to a file. -/
def dumpFile (py : Python) (host : Host) (path : String) (v : Json) : Process Unit := do
  check .osError (host.writable path)
  Script.act (.write path (py.dumps v))

/-- `os.path.join` of a directory and a name. -/
def joinPath (dir name : String) : String :=
  if dir = "" ∨ dir.toList.getLast? = some '/' then dir ++ name else dir ++ "/" ++ name

/-! ### The GPU check -/

structure GpuCheckResult where
  ok : Bool
  reason : Option String := none
  deviceCount : ℕ := 0

/-- `verify_gpu`. -/
def verifyGpu (host : Host) (requiredGpu requiredMemoryMb : Json) : Process GpuCheckResult := do
  let required ← number requiredGpu
  if required ≤ 0 then pure { ok := true }
  else
    match host.cuda with
    | none => pure { ok := false, reason := some "cuda_unavailable" }
    | some (deviceCount, totalMb) =>
        if deviceCount < required then
          pure { ok := false, reason := some "insufficient_gpu_count", deviceCount }
        else
          match totalMb with
          | none => pure { ok := true, deviceCount }
          | some totalMb => do
              let memory ← number requiredMemoryMb
              if totalMb < memory then
                pure { ok := false, reason := some "insufficient_gpu_memory", deviceCount }
              else pure { ok := true, deviceCount }

def gpuCheckPassed (deviceCount : ℕ) : Dict :=
  [("event", .str "gpu_check_passed"), ("device_count", .num deviceCount)]

def gpuCheckFailed (reason : Option String) : Dict :=
  [("event", .str "gpu_check_failed"), ("reason", reason.elim .null .str)]

/-- The GPU check of both subprocesses, and what comes after it. -/
def withGpu (host : Host) (context : Dict) (rest : Process Unit) : Process Unit := do
  let gpu ← verifyGpu host (context.getD "required_gpu" (.num 0))
    (context.getD "required_memory_mb" (.num 0))
  if gpu.ok then do
    report (gpuCheckPassed gpu.deviceCount)
    rest
  else report (gpuCheckFailed gpu.reason)

/-! ### The two entrypoints -/

def trainingError (message : String) : Dict :=
  [("event", .str "training_error"), ("message", .str message)]

/-- `main` of the training subprocess, given the `run` of its trainer. -/
def trainingMain (host : Host) (context : Dict) (run : Process Unit) : Process Unit :=
  withGpu host context
    (run.rescue fun e => report (trainingError (host.message e)))

def artifactCheckFailed (kind : String) (expected : Json) (actual : Hash) : Dict :=
  [("event", .str "artifact_check_failed"), ("artifact", .str kind), ("expected_hash", expected),
    ("actual_hash", .ofId actual)]

def artifactCheckPassed : Dict := [("event", .str "artifact_check_passed")]

def evaluationError (message : String) : Dict :=
  [("event", .str "evaluation_error"), ("message", .str message)]

/-- The digest is the expected one, or none is expected. -/
def hashAccepted : Json → Hash → Bool
  | .null, _ => true
  | .num q, actual => decide (q = actual)
  | _, _ => false

/-- The identity check of one artifact, and what comes after it. -/
def withArtifact (env : Env) (host : Host) (files : List (String × Bytes)) (context : Dict)
    (kind pathKey hashKey : String) (rest : Process Unit) : Process Unit := do
  let expected := context.getD hashKey .null
  let path ← item context pathKey
  let data ← openFile host files path
  if hashAccepted expected (env.sha256 data) then rest
  else report (artifactCheckFailed kind expected (env.sha256 data))

/-- `main` of the evaluation subprocess, given the `run` of its evaluator. -/
def evaluationMain (env : Env) (host : Host) (files : List (String × Bytes)) (context : Dict)
    (run : Process Unit) : Process Unit :=
  withGpu host context <|
    withArtifact env host files context "model" "model_path" "model_expected_hash" <|
      withArtifact env host files context "dataset" "dataset_path" "dataset_expected_hash" do
        report artifactCheckPassed
        run.rescue fun e => report (evaluationError (host.message e))

/-! ### Where the actions of a subprocess come from -/

section Occurs

variable {env : Env} {py : Python} {host : Host} {files : List (String × Bytes)} {context : Dict}
  {before : List Action} {x : Action} {run rest : Process Unit}

@[simp] theorem trace_check (e : PyExn) (b : Bool) : (check e b).trace = [] := by
  cases b <;> rfl

@[simp] theorem trace_item (d : Dict) (key : String) : (item d key).trace = [] :=
  Script.trace_found _ _

@[simp] theorem trace_dict (e : PyExn) (v : Json) : (dict e v).trace = [] := Script.trace_found _ _

@[simp] theorem trace_number (v : Json) : (number v).trace = [] := Script.trace_found _ _

@[simp] theorem trace_less (a b : Json) : (less py a b).trace = [] := Script.trace_found _ _

theorem trace_timeSleep (seconds : Json) : (timeSleep seconds).trace = [] := by
  unfold timeSleep
  split
  · exact Script.trace_bind_of_silent (trace_number _) fun q => trace_check _ _
  · rfl

@[simp] theorem trace_openFile (path : Json) : (openFile host files path).trace = [] := by
  cases path <;> exact Script.trace_found _ _

@[simp] theorem trace_loadFile (path : Json) : (loadFile py host files path).trace = [] :=
  Script.trace_bind_of_silent (trace_openFile path) fun _ => Script.trace_found _ _

/-- A file of the supervisor is opened. -/
theorem openFile_of_lookup {path : String} {data : Bytes} (h : files.lookup path = some data) :
    openFile host files (.str path) = pure data := by
  simp only [openFile, h]
  rfl

theorem loadFile_of_lookup {path : String} {data : Bytes} {v : Json}
    (h : files.lookup path = some data) (hv : py.loads data = some v) :
    loadFile py host files (.str path) = pure v := by
  unfold loadFile
  rw [openFile_of_lookup h, Script.bind_of_ok (Script.result_pure data), hv]
  rfl

theorem occurs_dumpFile {path : String} {v : Json}
    (h : Occurs before x (dumpFile py host path v).trace) :
    before = [] ∧ x = .write path (py.dumps v) := by
  obtain ⟨_, _, h⟩ := occurs_bind_of_silent (trace_check _ _) h
  exact occurs_singleton.mp h

theorem trace_dumpFile_of_ok {path : String} {v : Json} {u : Unit}
    (h : (dumpFile py host path v).result = .ok u) :
    (dumpFile py host path v).trace = [.write path (py.dumps v)] := by
  obtain ⟨_, hwritable, _⟩ := Script.result_bind_eq_ok.mp h
  unfold dumpFile
  rw [Script.trace_bind_of_ok hwritable, trace_check]
  rfl

theorem trace_verifyGpu (gpu memory : Json) : (verifyGpu host gpu memory).trace = [] := by
  refine Script.trace_bind_of_silent (trace_number _) fun required => ?_
  split
  · rfl
  split
  · rfl
  split
  · rfl
  split
  · rfl
  · refine Script.trace_bind_of_silent (trace_number _) fun memory => ?_
    split <;> rfl

/-- The events of the two entrypoints themselves. -/
def framingKinds : List String :=
  ["gpu_check_passed", "gpu_check_failed", "training_error", "artifact_check_failed",
    "artifact_check_passed", "evaluation_error"]

/-- The action is an event of an entrypoint. -/
def Framing : Action → Prop
  | .write .. => False
  | .report e => ∃ kind ∈ framingKinds, e.get? "event" = some (.str kind)

theorem not_framing {e : Dict} {kind : String} (he : e.get? "event" = some (.str kind))
    (hkind : kind ∉ framingKinds) : ¬ Framing (.report e) := by
  rintro ⟨kind', hmem, he'⟩
  rw [he] at he'
  cases he'
  exact hkind hmem

theorem occurs_withGpu (h : Occurs before x (withGpu host context rest).trace) :
    Framing x ∨ ∃ y tail, before = y :: tail ∧ Occurs tail x rest.trace := by
  obtain ⟨gpu, _, h⟩ := occurs_bind_of_silent (trace_verifyGpu _ _) h
  split at h
  · obtain hreport | ⟨_, tail, _, rfl, htail⟩ := occurs_bind h
    · obtain ⟨_, rfl⟩ := occurs_singleton.mp hreport
      exact Or.inl ⟨"gpu_check_passed", by simp [framingKinds], rfl⟩
    · exact Or.inr ⟨_, tail, rfl, htail⟩
  · obtain ⟨_, rfl⟩ := occurs_singleton.mp h
    exact Or.inl ⟨"gpu_check_failed", by simp [framingKinds], rfl⟩

theorem occurs_rescue_report {message : PyExn → Dict} {kind : String} (hkind : kind ∈ framingKinds)
    (hmessage : ∀ e, (message e).get? "event" = some (.str kind))
    (h : Occurs before x (run.rescue fun e => report (message e)).trace) :
    Framing x ∨ Occurs before x run.trace := by
  obtain h | ⟨e, tail, _, _, htail⟩ := occurs_rescue h
  · exact Or.inr h
  · obtain ⟨_, rfl⟩ := occurs_singleton.mp htail
    exact Or.inl ⟨kind, hkind, hmessage e⟩

/-- **An action of the training subprocess is an event of its entrypoint, or one of the trainer.** -/
theorem occurs_trainingMain (h : Occurs before x (trainingMain host context run).trace) :
    Framing x ∨ ∃ y tail, before = y :: tail ∧ Occurs tail x run.trace := by
  obtain h | ⟨y, tail, hbefore, htail⟩ := occurs_withGpu h
  · exact Or.inl h
  · obtain h | h := occurs_rescue_report (by simp [framingKinds]) (fun _ => rfl) htail
    · exact Or.inl h
    · exact Or.inr ⟨y, tail, hbefore, h⟩

theorem occurs_withArtifact {kind pathKey hashKey : String}
    (h : Occurs before x
      (withArtifact env host files context kind pathKey hashKey rest).trace) :
    Framing x ∨ ∃ path data, context.get? pathKey = some path ∧
      (openFile host files path).result = .ok data ∧
      hashAccepted (context.getD hashKey .null) (env.sha256 data) = true ∧
      Occurs before x rest.trace := by
  obtain ⟨path, hpath, h⟩ := occurs_bind_of_silent (trace_item _ _) h
  obtain ⟨data, hdata, h⟩ := occurs_bind_of_silent (trace_openFile _) h
  split at h
  · rename_i haccepted
    exact Or.inr ⟨path, data, Script.result_found_eq_ok.mp hpath, hdata, haccepted, h⟩
  · obtain ⟨_, rfl⟩ := occurs_singleton.mp h
    exact Or.inl ⟨"artifact_check_failed", by simp [framingKinds], rfl⟩

/-- **The evaluator does nothing before both artifacts have been found to be the expected ones.** -/
theorem occurs_evaluationMain (h : Occurs before x (evaluationMain env host files context run).trace) :
    Framing x ∨ (∃ path data, context.get? "model_path" = some path ∧
        (openFile host files path).result = .ok data ∧
        hashAccepted (context.getD "model_expected_hash" .null) (env.sha256 data) = true) ∧
      (∃ path data, context.get? "dataset_path" = some path ∧
        (openFile host files path).result = .ok data ∧
        hashAccepted (context.getD "dataset_expected_hash" .null) (env.sha256 data) = true) ∧
      ∃ y z tail, before = y :: z :: tail ∧ Occurs tail x run.trace := by
  obtain h | ⟨y, tail, hbefore, h⟩ := occurs_withGpu h
  · exact Or.inl h
  obtain h | ⟨path, data, hpath, hdata, haccepted, h⟩ := occurs_withArtifact h
  · exact Or.inl h
  obtain h | ⟨path', data', hpath', hdata', haccepted', h⟩ := occurs_withArtifact h
  · exact Or.inl h
  obtain h | ⟨_, tail', _, rfl, htail⟩ := occurs_bind h
  · obtain ⟨_, rfl⟩ := occurs_singleton.mp h
    exact Or.inl ⟨"artifact_check_passed", by simp [framingKinds], rfl⟩
  obtain h | h := occurs_rescue_report (by simp [framingKinds]) (fun _ => rfl) htail
  · exact Or.inl h
  · exact Or.inr ⟨⟨path, data, hpath, hdata, haccepted⟩, ⟨path', data', hpath', hdata', haccepted'⟩,
      y, _, tail', hbefore, h⟩

end Occurs

end Process

/-! ### What the supervisor finds -/

/-- The value of a line that is JSON. -/
def Line.value? : Line → Option Json
  | .json value => some value
  | _ => none

theorem Line.value?_eq_some {line : Line} {value : Json} :
    line.value? = some value ↔ line = .json value := by
  cases line <;> simp [Line.value?]

/-- The lines and the files of an input are those that the actions have left, the newest file first;
whatever else is printed is no JSON. -/
def Leaves (acts : List Action) (i : Input) : Prop :=
  i.lines.filterMap Line.value? = (acts.filterMap Action.event?).map .obj ∧
    i.files = (acts.filterMap Action.file?).reverse

section Leaves

variable {acts : List Action} {i : Input}

/-- The JSON lines of an output. -/
theorem mem_json_iff {lines : List Line} {value : Json} :
    .json value ∈ lines ↔ value ∈ lines.filterMap Line.value? := by
  simp only [List.mem_filterMap, Line.value?_eq_some, exists_eq_right]

/-- An event was reported exactly if it is among the lines. -/
theorem Leaves.mem_lines (h : Leaves acts i) {e : Dict} :
    .json (.obj e) ∈ i.lines ↔ .report e ∈ acts := by
  rw [mem_json_iff, h.1, List.mem_map]
  constructor
  · rintro ⟨e', he', heq⟩
    cases heq
    obtain ⟨x, hx, hevent⟩ := List.mem_filterMap.mp he'
    cases x with
    | write => cases hevent
    | report e' =>
        cases hevent
        exact hx
  · intro he
    exact ⟨e, List.mem_filterMap.mpr ⟨_, he, rfl⟩, rfl⟩

/-- **Where a line comes from**: what was reported before the event stands in earlier lines. -/
theorem Leaves.occurs (h : Leaves acts i) {before after : List Line} {event : Dict}
    (hlines : i.lines = before ++ .json (.obj event) :: after) :
    ∃ pre, Occurs pre (.report event) acts ∧ ∀ e, .report e ∈ pre → .json (.obj e) ∈ before := by
  have hevents : (acts.filterMap Action.event?).map Json.obj =
      before.filterMap Line.value? ++ .obj event :: after.filterMap Line.value? := by
    rw [← h.1, hlines, List.filterMap_append]
    rfl
  obtain ⟨events, rest, hacts, hbefore, hrest⟩ := List.map_eq_append_iff.mp hevents
  obtain ⟨event', later, rfl, heq, _⟩ := List.map_eq_cons_iff.mp hrest
  cases heq
  obtain ⟨pre, tail, rfl, hpre, htail⟩ := List.filterMap_eq_append_iff.mp hacts
  obtain ⟨silent, x, post, rfl, hsilent, hx, _⟩ := List.filterMap_eq_cons_iff.mp htail
  cases x with
  | write => cases hx
  | report e =>
      cases hx
      refine ⟨pre ++ silent, ⟨post, by simp⟩, fun e he => ?_⟩
      obtain he | he := List.mem_append.mp he
      · rw [mem_json_iff, ← hbefore, ← hpre]
        exact List.mem_map_of_mem (List.mem_filterMap.mpr ⟨_, he, rfl⟩)
      · cases hsilent _ he

theorem lookup_of_mem_of_unique {β : Type} {l : List (String × β)} {path : String} {data : β}
    (hmem : (path, data) ∈ l) (hunique : ∀ d, (path, d) ∈ l → d = data) :
    l.lookup path = some data := by
  induction l with
  | nil => cases hmem
  | cons entry l ih =>
      obtain ⟨path', data'⟩ := entry
      rw [List.lookup_cons]
      split
      · rename_i hpath
        cases eq_of_beq hpath
        rw [hunique data' List.mem_cons_self]
      · rename_i hpath
        refine ih ?_ fun d hd => hunique d (List.mem_cons_of_mem _ hd)
        obtain heq | hmem := List.mem_cons.mp hmem
        · cases heq
          simp at hpath
        · exact hmem

theorem Leaves.mem_files (h : Leaves acts i) {path : String} {data : Bytes} :
    (path, data) ∈ i.files ↔ .write path data ∈ acts := by
  rw [h.2, List.mem_reverse, List.mem_filterMap]
  constructor
  · rintro ⟨x, hx, hfile⟩
    cases x with
    | write =>
        cases hfile
        exact hx
    | report => cases hfile
  · exact fun hx => ⟨_, hx, rfl⟩

/-- **A file that is only ever written with one content has it.** -/
theorem Leaves.lookup (h : Leaves acts i) {path : String} {data : Bytes}
    (hwrite : .write path data ∈ acts) (hunique : ∀ d, .write path d ∈ acts → d = data) :
    i.files.lookup path = some data :=
  lookup_of_mem_of_unique (h.mem_files.mpr hwrite) fun d hd => hunique d (h.mem_files.mp hd)

end Leaves

end PosttrainPlatform
