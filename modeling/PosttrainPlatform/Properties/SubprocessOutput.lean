import PosttrainPlatform.Properties.Alone
import PosttrainPlatform.Properties.EvaluationRuns
import PosttrainPlatform.Properties.Reuploads

/-!
# What a subprocess may print

The two supervisors read whatever the subprocess prints, one line at a time, and an exception at one
line ends the attempt.  `EvaluationEventFits` and `TrainingEventFits` say of one event, in the state
in which it is read, that its supervisor copes with it; the loop copes with an output exactly if it
copes with every line in its turn.
-/

namespace PosttrainPlatform

open Programs Service

/-! ### The loop -/

section Loop

variable {env : Env} {p : ℕ} {supply : Supply} {handle : Dict → Progress → Service Progress}

/-- A line that a handler copes with, given which events it copes with. -/
def Line.Fits (fits : Dict → Prop) : Line → Prop
  | .text | .json .null => True
  | .json (.obj event) => fits event
  | .json _ | .broken _ => False

theorem returns_handleLine_iff {fits : Dict → Prop} {progress : Progress} {s : World}
    (hfits : ∀ event, ReturnsAlone env p supply (handle event progress) s ↔ fits event)
    (line : Line) :
    ReturnsAlone env p supply (handleLine handle line progress) s ↔ line.Fits fits := by
  cases line with
  | text => exact iff_of_true returns_pure trivial
  | broken e => exact iff_of_false Prog.not_returns_raise id
  | json value =>
      cases value with
      | null => exact iff_of_true returns_pure trivial
      | obj event => exact hfits event
      | bool b | num q | nan | infinity n | str t | arr vs =>
          exact iff_of_false Prog.not_returns_raise id

/-- Every line fits the state that the lines before it have led to. -/
def OutputFits (env : Env) (p : ℕ) (supply : Supply) (handle : Dict → Progress → Service Progress)
    (fits : World → Dict → Prop) : List Line → Progress → World → Prop
  | [], _, _ => True
  | line :: rest, progress, s => line.Fits (fits s) ∧ ∀ progress' s',
      evalAlone env p supply (handleLine handle line progress) s =
        (.ok progress', s') → OutputFits env p supply handle fits rest progress' s'

/-- The attempt has been abandoned by its heartbeat thread. -/
def World.Abandoned (s : World) (p : ℕ) : Prop :=
  ((s.heartbeats p).any fun hb => hb.abandoned) = true

/-- **The loop reads its output to the end exactly if every line fits**, or the attempt is abandoned
before the first one. -/
theorem returns_superviseLines_iff {fits : World → Dict → Prop} {J : World → Prop}
    (hfits : ∀ s progress event, J s →
      (ReturnsAlone env p supply (handle event progress) s ↔ fits s event))
    (hkeeps : ∀ s s' line progress progress', J s →
      evalAlone env p supply (handleLine handle line progress) s =
        (.ok progress', s') → J s' ∧ s'.heartbeats = s.heartbeats)
    (lines : List Line) (progress : Progress) {s : World} (hs : J s) :
    ReturnsAlone env p supply (superviseLines handle lines progress) s ↔
      s.Abandoned p ∨ OutputFits env p supply handle fits lines progress s := by
  induction lines generalizing progress s with
  | nil => exact iff_of_true returns_pure (Or.inr trivial)
  | cons line rest ih =>
      have hstep : ReturnsAlone env p supply (superviseLines handle (line :: rest) progress) s ↔
          ReturnsAlone env p supply (if (s.heartbeats p).any fun hb => hb.abandoned then pure none
            else do
              let progress ← handleLine handle line progress
              superviseLines handle rest progress) s := by
        constructor
        · intro h
          obtain ⟨a, ha, h⟩ := returns_exec_bind.mp h
          cases ha
          exact h
        · exact fun h => returns_exec_bind.mpr ⟨_, rfl, h⟩
      rw [hstep]
      by_cases habandoned : s.Abandoned p
      · unfold World.Abandoned at habandoned
        rw [if_pos habandoned]
        exact iff_of_true returns_pure (Or.inl habandoned)
      · have hlive := habandoned
        unfold World.Abandoned at hlive
        rw [if_neg hlive, or_iff_right habandoned]
        rw [returns_service_bind, OutputFits, ← returns_handleLine_iff fun event =>
          hfits s progress event hs]
        have hrest : ∀ progress' s',
            evalAlone env p supply (handleLine handle line progress) s = (.ok progress', s') →
            (ReturnsAlone env p supply (superviseLines handle rest progress') s' ↔
              OutputFits env p supply handle fits rest progress' s') := by
          intro progress' s' heval
          obtain ⟨hs', hbeats⟩ := hkeeps s s' line progress progress' hs heval
          rw [ih _ hs', or_iff_right]
          unfold World.Abandoned
          rw [hbeats]
          exact hlive
        constructor
        · rintro ⟨progress', s', heval, hreturns⟩
          refine ⟨⟨progress', congrArg Prod.fst heval⟩, fun progress₁ s₁ heval₁ => ?_⟩
          rw [heval] at heval₁
          cases heval₁
          exact (hrest progress' s' heval).mp hreturns
        · rintro ⟨⟨progress', hprogress⟩, hall⟩
          have heval : evalAlone env p supply (handleLine handle line progress) s =
              (.ok progress', (evalAlone env p supply (handleLine handle line progress) s).2) :=
            Prod.ext hprogress rfl
          exact ⟨progress', _, heval, (hrest progress' _ heval).mpr (hall progress' _ heval)⟩

/-- Where it does not depend on the state what fits, the lines count one by one. -/
theorem outputFits_iff_forall {fits : Dict → Prop} {J : World → Prop}
    (hfits : ∀ s progress event, J s →
      (ReturnsAlone env p supply (handle event progress) s ↔ fits event))
    (hkeeps : ∀ s s' line progress progress', J s →
      evalAlone env p supply (handleLine handle line progress) s = (.ok progress', s') → J s')
    (lines : List Line) {progress : Progress} {s : World} (hs : J s) :
    OutputFits env p supply handle (fun _ => fits) lines progress s ↔
      ∀ line ∈ lines, line.Fits fits := by
  induction lines generalizing progress s with
  | nil => exact iff_of_true trivial (by simp)
  | cons line rest ih =>
      rw [OutputFits, List.forall_mem_cons]
      refine and_congr_right fun hline => ?_
      constructor
      · intro hrest
        obtain ⟨progress', hprogress⟩ :=
          (returns_handleLine_iff (fun event => hfits s progress event hs) line).mpr hline
        have heval : evalAlone env p supply (handleLine handle line progress) s =
            (.ok progress', (evalAlone env p supply (handleLine handle line progress) s).2) :=
          Prod.ext hprogress rfl
        exact (ih (hkeeps _ _ _ _ _ hs heval)).mp (hrest _ _ heval)
      · exact fun hrest progress' s' heval => (ih (hkeeps _ _ _ _ _ hs heval)).mpr hrest

end Loop

/-! ### What the handlers leave alone -/

/-- The statements of the two handlers. -/
def Op.Handling : Op → Bool
  | .loadJob _ | .readFile _ | .getArtifactByHash _ | .createPending _ | .claimUploadLease ..
  | .upload .. | .objectExistsWithHash .. | .markUploaded .. | .recordMetric ..
  | .registerCheckpoint .. | .registerOutput .. | .recordResult .. | .recordEvaluationMetric .. =>
      true
  | _ => false

section Handling

variable {α : Type} {env : Env} {p : ℕ} {supply : Supply}

/-- The program is made of the statements of the handlers. -/
abbrev HandlesOnly (prog : Service α) : Prop := prog.All fun op => op.Handling = true

theorem handled_uploadTo (data : Bytes) (hash : Hash) (a : ArtifactId) (uploader : WorkerId) :
    HandlesOnly (uploadTo data hash a uploader) := by
  refine Prog.all_perform_bind.mpr ⟨rfl, fun claimed => ?_⟩
  refine Prog.all_bind (all_found _ _) fun claimed => ?_
  refine Prog.all_perform_bind.mpr ⟨rfl, fun _ => ?_⟩
  refine Prog.all_bind (all_objectExistsWithHash rfl) fun verified => ?_
  refine Prog.all_bind (all_check _ _) fun _ => ?_
  refine Prog.all_perform_bind.mpr ⟨rfl, fun finalized => ?_⟩
  exact Prog.all_bind (all_found _ _) fun finalized => trivial

theorem handled_uploadArtifact (env : Env) (data : Bytes) (uploader : WorkerId) :
    HandlesOnly (uploadArtifact env data uploader) := by
  refine Prog.all_perform_bind.mpr ⟨rfl, fun existing => ?_⟩
  cases existing with
  | none => exact Prog.all_perform_bind.mpr ⟨rfl, fun a => handled_uploadTo _ _ _ _⟩
  | some existing =>
      simp only
      split
      · trivial
      · exact handled_uploadTo _ _ _ _

theorem handled_trainingEvent (env : Env) (t : Ticket) (run : TrainingRun) (event : Dict)
    (progress : Progress) : HandlesOnly (handleTrainingEvent env t run event progress) := by
  unfold handleTrainingEvent
  split
  · exact Prog.all_bind (all_refresh rfl) fun job => trivial
  · exact Prog.all_bind (all_refresh rfl) fun job => Prog.all_bind (all_check _ _) fun _ => trivial
  · refine Prog.all_bind (all_field _ _) fun step => ?_
    exact Prog.all_perform_bind.mpr ⟨rfl, fun recorded => trivial⟩
  · refine Prog.all_bind (Prog.all_bind (all_field _ _) fun path => ?_) fun _ => trivial
    refine Prog.all_perform_bind.mpr ⟨rfl, fun data => ?_⟩
    refine Prog.all_bind (handled_uploadArtifact env data _) fun uploaded => ?_
    simp only
    split
    · trivial
    · refine Prog.all_bind (all_field _ _) fun step => ?_
      exact Prog.all_perform_bind.mpr ⟨rfl, fun registered => trivial⟩
  · refine Prog.all_bind (Prog.all_bind (all_field _ _) fun path => ?_) fun _ => trivial
    refine Prog.all_perform_bind.mpr ⟨rfl, fun data => ?_⟩
    refine Prog.all_bind (handled_uploadArtifact env data _) fun uploaded => ?_
    simp only
    split
    · trivial
    · exact Prog.all_perform_bind.mpr ⟨rfl, fun registered => trivial⟩
  · trivial

theorem handled_evaluationEvent (env : Env) (t : Ticket) (event : Dict) (progress : Progress) :
    HandlesOnly (handleEvaluationEvent env t event progress) := by
  unfold handleEvaluationEvent
  split
  · trivial
  · trivial
  · exact Prog.all_bind (all_check _ _) fun _ => trivial
  · refine Prog.all_bind (all_field _ _) fun exampleId => ?_
    exact Prog.all_perform_bind.mpr ⟨rfl, fun recorded => trivial⟩
  · refine Prog.all_bind (all_field _ _) fun metricName => ?_
    refine Prog.all_bind (all_field _ _) fun metricValue => ?_
    exact Prog.all_perform_bind.mpr ⟨rfl, fun recorded => trivial⟩
  · trivial
  · trivial

/-- The statements of the handlers leave the jobs and the heartbeats alone. -/
theorem perform_handling {op : Op} (hop : op.Handling = true) (i : Input) (s : World) :
    (op.perform env p i s).1.db.jobs = s.db.jobs ∧
      (op.perform env p i s).1.heartbeats = s.heartbeats := by
  constructor
  · have helsewhere : op.Elsewhere = true := by
      cases op <;> first | rfl | cases hop
    exact congrArg (fun frame => frame.core.jobs) (perform_frame env p i s helsewhere)
  · refine perform_heartbeats env p i s (fun j w k h => ?_) fun h => ?_
    · subst h
      cases hop
    · subst h
      cases hop

/-- A line leaves the jobs and the heartbeats alone. -/
theorem handleLine_keeps {handle : Dict → Progress → Service Progress}
    (hhandle : ∀ event progress, HandlesOnly (handle event progress)) {line : Line}
    {progress progress' : Progress} {s s' : World}
    (h : evalAlone env p supply (handleLine handle line progress) s = (.ok progress', s')) :
    s'.db.jobs = s.db.jobs ∧ s'.heartbeats = s.heartbeats := by
  have hend := ends_evalAlone env p supply (handleLine handle line progress) s
  rw [h] at hend
  refine Prog.Leads.invariant (I := fun m : World => m.db.jobs = s.db.jobs ∧
    m.heartbeats = s.heartbeats) hend (all_handleLine hhandle line progress)
    (fun op _ m hop hm => ?_) ⟨rfl, rfl⟩
  obtain ⟨hjobs, hbeats⟩ := @perform_handling env p _ hop (supply op m) m
  exact ⟨hjobs.trans hm.1, hbeats.trans hm.2⟩

end Handling

/-! ### The supervisor of an evaluation -/

section Evaluation

variable {env : Env} {p : ℕ} {supply : Supply} {t : Ticket} {event : Dict}

/-- A `result` event that the columns take. -/
def ResultFits (env : Env) (event : Dict) : Prop :=
  (∃ exampleId, event.get? "example_id" = some exampleId ∧
    env.storesText (.str (env.pyStr exampleId)) = true) ∧
  env.storesText (asText env (event.getD "prediction" .null)) = true ∧
  env.storesText (asText env (event.getD "expected_output" .null)) = true ∧
  env.floatColumn (event.getD "score" .null) = true ∧
  env.floatColumn (event.getD "latency_ms" .null) = true

/-- A `metric` event that the columns take; the constraints count only while the attempt is live. -/
def EvaluationMetricFits (env : Env) (live : Prop) (event : Dict) : Prop :=
  ∃ name value count, event.get? "metric_name" = some name ∧ event.get? "metric_value" = some value ∧
    env.storesText name = true ∧ env.storesText (event.getD "split" (.str "all")) = true ∧
    env.floatColumn value = true ∧ sqlOperand env (event.getD "sample_count" (.num 0)) = some count ∧
    (live → (env.textColumn name).isSome = true ∧
      (env.textColumn (event.getD "split" (.str "all"))).isSome = true ∧
      count.notNullInt.isSome = true ∧ value.isNull = false)

/-- An event that `run_evaluation_attempt` copes with. -/
def EvaluationEventFits (env : Env) (live : Prop) (event : Dict) : Prop :=
  match event.get? "event" with
  | some (.str "evaluation_error") => env.settings.logInfo = false
  | some (.str "result") => ResultFits env event
  | some (.str "metric") => EvaluationMetricFits env live event
  | _ => True

/-- A fenced write raises only if the attempt is live. -/
theorem fenced_isSome {db : Db} {j : JobId} {w : WorkerId} {k : ℕ} {write : Option (Db × Bool)} :
    (db.fenced j w k write).isSome = true ↔ (db.Owns j w k → write.isSome = true) := by
  unfold Db.fenced
  split
  · rename_i howns
    exact ⟨fun h _ => h, fun h => h howns⟩
  · rename_i howns
    exact iff_of_true rfl fun h => absurd h howns

theorem recordResult_isSome {db : Db} {j : JobId} {w : WorkerId} {run : RunId} {k : ℕ}
    {exampleId : String} {prediction expectedOutput score latencyMs : Json} :
    (EvaluationResultsRepo.record env db j w run k exampleId prediction expectedOutput score
      latencyMs).isSome = true ↔
    env.storesText (.str exampleId) = true ∧ env.storesText prediction = true ∧
      env.storesText expectedOutput = true ∧ env.floatColumn score = true ∧
      env.floatColumn latencyMs = true := by
  unfold EvaluationResultsRepo.record
  split
  · rename_i h
    simp only [Bool.and_eq_true] at h
    refine iff_of_true (fenced_isSome.mpr fun _ => ?_) ⟨h.1.1.1.1, h.1.1.1.2, h.1.1.2, h.1.2, h.2⟩
    split <;> rfl
  · rename_i h
    refine iff_of_false (by simp) fun hall => h ?_
    simp [hall]

theorem recordEvaluationMetric_isSome {db : Db} {j : JobId} {w : WorkerId} {run : RunId} {k : ℕ}
    {name value split count : Json} :
    (EvaluationMetricsRepo.record env db j w run k name value split count).isSome = true ↔
    env.storesText name = true ∧ env.storesText split = true ∧ env.floatColumn value = true ∧
      ∃ n, sqlOperand env count = some n ∧ (db.Owns j w k → (env.textColumn name).isSome = true ∧
        (env.textColumn split).isSome = true ∧ n.notNullInt.isSome = true ∧
        value.isNull = false) := by
  unfold EvaluationMetricsRepo.record
  split
  swap
  · rename_i h
    refine iff_of_false (by simp) ?_
    rintro ⟨hname, hsplit, hvalue, _⟩
    exact h (by simp [hname, hsplit, hvalue])
  rename_i h
  simp only [Bool.and_eq_true] at h
  cases hcount : sqlOperand env count with
  | none => exact iff_of_false (by simp) (by rintro ⟨_, _, _, n, hn, _⟩; cases hn)
  | some n =>
      simp only [fenced_isSome, h, Option.some.injEq, exists_eq_left', true_and]
      refine forall_congr' fun _ => ?_
      cases env.textColumn name <;> cases env.textColumn split <;> cases n.notNullInt <;>
        cases value.isNull <;> simp
      split <;> rfl

/-- **The handler of the evaluation supervisor copes with exactly the events that fit.** -/
theorem returns_handleEvaluationEvent_iff (s : World) (progress : Progress) (event : Dict) :
    ReturnsAlone env p supply (handleEvaluationEvent env t event progress) s ↔
      EvaluationEventFits env (s.db.Owns t.jobId t.workerId t.attemptNumber) event := by
  unfold handleEvaluationEvent EvaluationEventFits
  generalize event.get? "event" = kind
  split
  · exact iff_of_true returns_pure trivial
  · exact iff_of_true returns_pure trivial
  · refine returns_check_bind.trans ?_
    rw [and_iff_left returns_pure]
    simp
  · refine returns_found_bind.trans ?_
    unfold ResultFits
    constructor
    · rintro ⟨exampleId, hid, h⟩
      have hfits := recordResult_isSome.mp ((returns_write rfl).mp h)
      exact ⟨⟨exampleId, hid, hfits.1⟩, hfits.2⟩
    · rintro ⟨⟨exampleId, hid, htext⟩, hrest⟩
      exact ⟨exampleId, hid, (returns_write rfl).mpr (recordResult_isSome.mpr ⟨htext, hrest⟩)⟩
  · refine returns_found_bind.trans ?_
    constructor
    · rintro ⟨name, hname, h⟩
      obtain ⟨value, hvalue, h⟩ := returns_found_bind.mp h
      obtain ⟨h₁, h₂, h₃, n, hn, hlive⟩ :=
        recordEvaluationMetric_isSome.mp ((returns_write rfl).mp h)
      exact ⟨name, value, n, hname, hvalue, h₁, h₂, h₃, hn, hlive⟩
    · rintro ⟨name, value, n, hname, hvalue, h₁, h₂, h₃, hn, hlive⟩
      refine ⟨name, hname, returns_found_bind.mpr ⟨value, hvalue, (returns_write rfl).mpr ?_⟩⟩
      exact recordEvaluationMetric_isSome.mpr ⟨h₁, h₂, h₃, n, hn, hlive⟩
  · exact iff_of_true returns_pure trivial
  · rename_i hgpu hartifact herror hresult hmetric hfinal
    refine iff_of_true returns_pure ?_
    split
    · exact absurd rfl herror
    · exact absurd rfl hresult
    · exact absurd rfl hmetric
    · trivial

end Evaluation

/-! ### The supervisor of a training -/

section Training

variable {α : Type} {env : Env} {p : ℕ} {supply : Supply} {s : World} {data : Bytes} {u : WorkerId}

/-- The id belongs to nothing yet. -/
structure World.NewId (s : World) (a : ArtifactId) : Prop where
  artifacts : s.db.artifacts.lookup a = none
  checkpoints : ∀ r ∈ s.db.checkpoints.rows, r.2.artifactId ≠ a
  outputs : ∀ r ∈ s.db.trainingRunOutputs.rows, r.2.finalArtifactId ≠ a

/-- What `open(path)` reads. -/
def Supply.fileAt (supply : Supply) (p : ℕ) (path : Json) (s : World) : Option Bytes :=
  s.fileOf p path <|> (supply (.readFile path) s).file

/-- A working environment: generated ids are new, and the files that a text can name are present. -/
structure Supply.Works (supply : Supply) (p : ℕ) : Prop where
  fresh : ∀ hash s, World.NewId s (supply (.createPending hash) s).uuid
  present : ∀ name s, (supply.fileAt p (.str name) s).isSome = true

/-- An upload of the data that begins now goes through: the artifact of the content is missing,
UPLOADED, or pending without a lease in force. -/
def Uploadable (env : Env) (supply : Supply) (u : WorkerId) (data : Bytes) (s : World) : Prop :=
  ∀ a row, ArtifactsRepo.getByHash s.db (env.sha256 data) = some (a, row) →
    row.status = .uploaded ∨ row.status = .pending ∧
      ∀ t ∈ row.uploadLeaseExpiresAt, t < (supply (.claimUploadLease a u) s).now

/-- The artifact that an upload of the content returns. -/
def World.HasContent (s : World) (hash : Hash) (a : ArtifactId) : Prop :=
  (∃ row, ArtifactsRepo.getByHash s.db hash = some (a, row)) ∨
    ArtifactsRepo.getByHash s.db hash = none ∧ s.NewId a

/-- The states differ in the artifacts and the object store at most. -/
structure World.SameRuns (s s' : World) : Prop where
  jobs : s'.db.jobs = s.db.jobs
  checkpoints : s'.db.checkpoints = s.db.checkpoints
  outputs : s'.db.trainingRunOutputs = s.db.trainingRunOutputs

/-- A look at the store that does not fail. -/
theorem returns_objectExistsWithHash_bind {key expected : Hash} {b : Bool} {f : Bool → Service α}
    (ha : ((Op.objectExistsWithHash key expected).perform env p
      (supply (.objectExistsWithHash key expected) s) s).2 = .ok b) :
    ReturnsAlone env p supply (objectExistsWithHash key expected >>= f) s ↔
      ReturnsAlone env p supply (f b) ((Op.objectExistsWithHash key expected).perform env p
        (supply (.objectExistsWithHash key expected) s) s).1 := by
  have hanswer : (Op.supplied env p supply (.objectExistsWithHash key expected) () s).2 = .ok b := ha
  unfold ReturnsAlone Prog.Returns
  show (∃ a, (Prog.eval (Op.supplied env p supply) () (Prog.call _ _) s).1 = .ok a) ↔ _
  rw [Prog.eval, hanswer]
  rfl

/-- Without the upload lease an upload raises. -/
theorem not_returns_uploadTo_bind {f : ArtifactId × Artifact → Service α} {a : ArtifactId}
    {row : Artifact} {hash : Hash} (hrow : s.db.artifacts.lookup a = some row)
    (hguard : ¬ (row.status = .pending ∧
      ∀ t ∈ row.uploadLeaseExpiresAt, t < (supply (.claimUploadLease a u) s).now)) :
    ¬ ReturnsAlone env p supply (uploadTo data hash a u >>= f) s := by
  have hclaim : ((Op.claimUploadLease a u).perform env p (supply (.claimUploadLease a u) s) s).2 =
      .ok none := by
    show Except.ok (ArtifactsRepo.claimUploadLease s.db a u _ _).2 = _
    unfold ArtifactsRepo.claimUploadLease ArtifactsRepo.updateWhere
    rw [hrow]
    simp only [if_neg hguard]
  intro h
  unfold uploadTo at h
  simp only [Prog.bind_assoc] at h
  rw [returns_answer_bind hclaim] at h
  exact Prog.not_returns_raise h

theorem returns_uploadTo_bind {f : ArtifactId × Artifact → Service α} {P : Prop} {a : ArtifactId}
    {row : Artifact} (hrow : s.db.artifacts.lookup a = some row) (hpending : row.status = .pending)
    (hhash : row.contentHash = env.sha256 data)
    (hf : ∀ row' s', row'.status = .uploaded → s.SameRuns s' →
      (ReturnsAlone env p supply (f (a, row')) s' ↔ P)) :
    ReturnsAlone env p supply (uploadTo data (env.sha256 data) a u >>= f) s ↔
      (∀ t ∈ row.uploadLeaseExpiresAt, t < (supply (.claimUploadLease a u) s).now) ∧ P := by
  generalize hnow : (supply (.claimUploadLease a u) s).now = now
  by_cases hlapsed : ∀ t ∈ row.uploadLeaseExpiresAt, t < now
  · rw [and_iff_right hlapsed]
    unfold uploadTo
    simp only [Prog.bind_assoc]
    generalize hclaimed : row.leasedTo u (now + env.settings.uploadLeaseDurationSeconds) = claimed
    have hclaim : (Op.claimUploadLease a u).perform env p (supply (.claimUploadLease a u) s) s =
        ({ s with db := s.db.setArtifact a claimed }, .ok (some claimed)) := by
      have hupdate : ArtifactsRepo.claimUploadLease s.db a u now
          env.settings.uploadLeaseDurationSeconds = (s.db.setArtifact a claimed, some claimed) := by
        rw [← hclaimed]
        exact updateWhere_hit hrow ⟨hpending, hlapsed⟩
      simp only [Op.perform, World.write, hnow, hupdate]
    have hkey : claimed.contentHash = env.sha256 data := by
      rw [← hclaimed]
      exact hhash
    rw [returns_answer_bind (congrArg Prod.snd hclaim), hclaim]
    show ReturnsAlone env p supply (exec (.upload claimed.contentHash data) >>= _) _ ↔ P
    rw [returns_answer_bind rfl, returns_objectExistsWithHash_bind (b := true)]
    swap
    · simp [Op.perform, World.read, Store.objectExistsWithHash]
    show ReturnsAlone env p supply (exec (.markUploaded a u) >>= _) _ ↔ P
    generalize hm : ((Op.objectExistsWithHash claimed.contentHash (env.sha256 data)).perform env p
      _ _).1 = m
    have hdb : m.db = s.db.setArtifact a claimed := by
      rw [← hm]
      rfl
    have hmark : ArtifactsRepo.markUploaded m.db a u = ((s.db.setArtifact a claimed).setArtifact a
        { claimed with status := .uploaded, uploadLeaseExpiresAt := none },
        some { claimed with status := .uploaded, uploadLeaseExpiresAt := none }) := by
      rw [hdb, ← hclaimed]
      exact updateWhere_hit (Db.setArtifact_lookup _ _ _) ⟨hpending, rfl⟩
    have hanswer : ((Op.markUploaded a u).perform env p (supply (.markUploaded a u) m) m).2 =
        .ok (some { claimed with status := .uploaded, uploadLeaseExpiresAt := none }) :=
      congrArg (fun r : Db × Option Artifact => Except.ok r.2) hmark
    refine (returns_answer_bind hanswer).trans (hf _ _ rfl ?_)
    have hfinal : ((Op.markUploaded a u).perform env p (supply (.markUploaded a u) m) m).1.db =
        (s.db.setArtifact a claimed).setArtifact a
          { claimed with status := .uploaded, uploadLeaseExpiresAt := none } :=
      congrArg Prod.fst hmark
    refine ⟨?_, ?_, ?_⟩ <;> rw [hfinal] <;> rfl
  · exact iff_of_false (not_returns_uploadTo_bind hrow fun hguard => hlapsed (hnow ▸ hguard.2))
      fun h => hlapsed h.1

/-- **An upload goes through exactly if nothing stands in its way.** -/
theorem returns_uploadArtifact_bind {f : ArtifactId × Artifact → Service α} {P : Prop}
    (hworks : supply.Works p)
    (hf : ∀ a row s', row.status = .uploaded → s.HasContent (env.sha256 data) a → s.SameRuns s' →
      (ReturnsAlone env p supply (f (a, row)) s' ↔ P)) :
    ReturnsAlone env p supply (uploadArtifact env data u >>= f) s ↔
      Uploadable env supply u data s ∧ P := by
  unfold uploadArtifact
  simp only [Prog.bind_assoc]
  cases hfound : ArtifactsRepo.getByHash s.db (env.sha256 data) with
  | none =>
      have huploadable : Uploadable env supply u data s := fun a row h => by
        rw [hfound] at h
        cases h
      have hanswer : ((Op.getArtifactByHash (env.sha256 data)).perform env p
          (supply (.getArtifactByHash (env.sha256 data)) s) s).2 = .ok none :=
        congrArg Except.ok hfound
      rw [and_iff_right huploadable, returns_answer_bind hanswer]
      simp only [Prog.bind_assoc]
      show ReturnsAlone env p supply (exec (.createPending (env.sha256 data)) >>= _) s ↔ P
      generalize hi : supply (.createPending (env.sha256 data)) s = i
      have hnew : s.NewId i.uuid := hi ▸ hworks.fresh _ s
      generalize hpending : ({ contentHash := env.sha256 data, createdAt := i.now } : Artifact) = row
      have hcreate : (Op.createPending (env.sha256 data)).perform env p i s =
          ({ s with db := s.db.setArtifact i.uuid row }, .ok i.uuid) := by
        have hrow : s.db.artifacts.insertNew i.uuid
            { contentHash := env.sha256 data, createdAt := i.now } = some _ :=
          Table.insertNew_eq_some.mpr ⟨hnew.artifacts, rfl⟩
        simp only [Op.perform, ArtifactsRepo.createPending, hfound, hrow, ← hpending]
        rfl
      rw [returns_answer_bind (hi.symm ▸ congrArg Prod.snd hcreate), hi, hcreate]
      have hstatus : row.status = .pending := by rw [← hpending]
      have hhash : row.contentHash = env.sha256 data := by rw [← hpending]
      have hlease : row.uploadLeaseExpiresAt = none := by rw [← hpending]
      refine (returns_uploadTo_bind (s := { s with db := s.db.setArtifact i.uuid row })
        (Db.setArtifact_lookup _ _ _) hstatus hhash fun row' s' huploaded hsame => hf i.uuid row' s' huploaded (Or.inr ⟨hfound, hnew⟩)
          ⟨hsame.jobs, hsame.checkpoints, hsame.outputs⟩).trans ?_
      simp [hlease]
  | some found =>
      obtain ⟨a, row⟩ := found
      have hanswer : ((Op.getArtifactByHash (env.sha256 data)).perform env p
          (supply (.getArtifactByHash (env.sha256 data)) s) s).2 = .ok (some (a, row)) :=
        congrArg Except.ok hfound
      have hcontent : s.HasContent (env.sha256 data) a := Or.inl ⟨row, hfound⟩
      obtain ⟨hrow, hhash⟩ := getByHash_eq_some hfound
      rw [returns_answer_bind hanswer]
      have huploadable : Uploadable env supply u data s ↔ row.status = .uploaded ∨
          row.status = .pending ∧
            ∀ t ∈ row.uploadLeaseExpiresAt, t < (supply (.claimUploadLease a u) s).now := by
        unfold Uploadable
        simp [hfound]
      rw [huploadable]
      show ReturnsAlone env p supply ((if row.status = .uploaded then pure (a, row)
        else uploadTo data (env.sha256 data) a u) >>= f) s ↔ _
      cases hs : row.status with
      | uploaded =>
          simp only [if_true, true_or, true_and]
          exact hf a row s hs hcontent ⟨rfl, rfl, rfl⟩
      | pending =>
          simp only [reduceCtorEq, if_false, false_or, true_and]
          exact returns_uploadTo_bind hrow hs hhash fun row' s' huploaded hsame =>
            hf a row' s' huploaded hcontent hsame
      | failed =>
          simp only [reduceCtorEq, if_false, false_or, false_and, iff_false]
          exact not_returns_uploadTo_bind hrow fun hguard => by simp [hs] at hguard

/-- A file that is read before it is uploaded. -/
theorem returns_readFile_bind {path : Json} {f : Bytes → Service α} :
    ReturnsAlone env p supply (exec (.readFile path) >>= f) s ↔
      ∃ data, supply.fileAt p path s = some data ∧ ReturnsAlone env p supply (f data) s := by
  rw [returns_exec_bind]
  cases hfile : supply.fileAt p path s with
  | none =>
      have hread : (Op.readFile path).perform env p (supply (.readFile path) s) s =
          (s, .error .osError) := by
        unfold Supply.fileAt at hfile
        simp only [Op.perform, hfile]
      rw [hread]
      refine iff_of_false ?_ ?_
      · rintro ⟨_, h, _⟩
        cases h
      · rintro ⟨_, h, _⟩
        cases h
  | some data =>
      have hread : (Op.readFile path).perform env p (supply (.readFile path) s) s =
          s.read data := by
        unfold Supply.fileAt at hfile
        simp only [Op.perform, hfile]
      rw [hread]
      constructor
      · rintro ⟨b, h, hf⟩
        cases h
        exact ⟨_, rfl, hf⟩
      · rintro ⟨b, h, hf⟩
        cases h
        exact ⟨_, rfl, hf⟩

/-- A `metric` event that the columns take. -/
def TrainingMetricFits (env : Env) (live : Prop) (event : Dict) : Prop :=
  env.floatColumn (event.getD "loss" .null) = true ∧
  env.floatColumn (event.getD "learning_rate" .null) = true ∧
  ∃ step n gpu, event.get? "step" = some step ∧ sqlOperand env step = some n ∧
    sqlOperand env (event.getD "gpu_memory_allocated_mb" .null) = some gpu ∧
    (live → n.notNullInt.isSome = true ∧ gpu.nullableInt = true)

/-- A file that an event names and that can be uploaded now. -/
def FileFits (env : Env) (t : Ticket) (supply : Supply) (p : ℕ) (s : World) (event : Dict)
    (data : Bytes) : Prop :=
  ∃ path, event.get? "local_path" = some path ∧ supply.fileAt p path s = some data ∧
    Uploadable env supply t.workerId data s

/-- A checkpoint whose registration goes through: its step is an integer, and neither the step nor
the content is that of a checkpoint registered before. -/
def RegistrationFits (env : Env) (t : Ticket) (s : World) (event : Dict) (data : Bytes) : Prop :=
  ∃ step, event.get? "step" = some step ∧ ∃ operand, sqlOperand env step = some operand ∧
    (s.db.Owns t.jobId t.workerId t.attemptNumber →
      (∀ a row, ArtifactsRepo.getByHash s.db (env.sha256 data) = some (a, row) →
        ∀ r ∈ s.db.checkpoints.rows, r.2.artifactId ≠ a) ∧
      ∃ n, operand.notNullInt = some n ∧
        s.db.checkpoints.lookup (t.runId, t.attemptNumber, n) = none)

/-- A `checkpoint` event that the supervisor copes with. -/
def CheckpointFits (env : Env) (t : Ticket) (supply : Supply) (p : ℕ) (s : World)
    (event : Dict) : Prop :=
  ∃ data, FileFits env t supply p s event data ∧ RegistrationFits env t s event data

/-- A `final` event whose registration goes through: the run has no output yet, and no run has this
content as its output. -/
def FinalFits (env : Env) (t : Ticket) (supply : Supply) (p : ℕ) (s : World)
    (event : Dict) : Prop :=
  ∃ data, FileFits env t supply p s event data ∧
    (s.db.Owns t.jobId t.workerId t.attemptNumber →
      (∀ a row, ArtifactsRepo.getByHash s.db (env.sha256 data) = some (a, row) →
        ∀ r ∈ s.db.trainingRunOutputs.rows, r.2.finalArtifactId ≠ a) ∧
      s.db.trainingRunOutputs.lookup t.runId = none)

/-- An event that `run_training_attempt` copes with. -/
def TrainingEventFits (env : Env) (t : Ticket) (supply : Supply) (p : ℕ) (s : World)
    (event : Dict) : Prop :=
  match event.get? "event" with
  | some (.str "training_error") => env.settings.logInfo = false
  | some (.str "metric") =>
      TrainingMetricFits env (s.db.Owns t.jobId t.workerId t.attemptNumber) event
  | some (.str "checkpoint") => CheckpointFits env t supply p s event
  | some (.str "final") => FinalFits env t supply p s event
  | _ => True

theorem recordMetric_isSome {db : Db} {j : JobId} {w : WorkerId} {run : RunId} {k : ℕ} {step : Json}
    {reading : TrainingMetricsRepo.Reading} :
    (TrainingMetricsRepo.record env db j w run k step reading).isSome = true ↔
    env.floatColumn reading.loss = true ∧ env.floatColumn reading.learningRate = true ∧
      ∃ n gpu, sqlOperand env step = some n ∧
        sqlOperand env reading.gpuMemoryAllocatedMb = some gpu ∧
        (db.Owns j w k → n.notNullInt.isSome = true ∧ gpu.nullableInt = true) := by
  unfold TrainingMetricsRepo.record
  split
  swap
  · rename_i h
    refine iff_of_false (by simp) ?_
    rintro ⟨hloss, hrate, _⟩
    exact h (by simp [hloss, hrate])
  rename_i h
  simp only [Bool.and_eq_true] at h
  cases hn : sqlOperand env step with
  | none => exact iff_of_false (by simp) (by rintro ⟨_, _, _, _, hn, _⟩; cases hn)
  | some n =>
      cases hgpu : sqlOperand env reading.gpuMemoryAllocatedMb with
      | none => exact iff_of_false (by simp) (by rintro ⟨_, _, _, _, _, hgpu, _⟩; cases hgpu)
      | some gpu =>
          simp only [fenced_isSome, h, Option.some.injEq, exists_and_left, exists_eq_left',
            true_and]
          refine forall_congr' fun _ => ?_
          cases n.notNullInt <;> cases gpu.nullableInt <;> simp

theorem registerCheckpoint_isSome {db : Db} {j : JobId} {w : WorkerId} {run : RunId} {k : ℕ}
    {step : Json} {a : ArtifactId} {baseModel : NullableVersionRef} {format : ℕ} {now : Time} :
    (CheckpointsRepo.register env db j w run k step a baseModel format now).isSome = true ↔
    ∃ operand, sqlOperand env step = some operand ∧ (db.Owns j w k →
      (∀ r ∈ db.checkpoints.rows, r.2.artifactId ≠ a) ∧
        ∃ n, operand.notNullInt = some n ∧ db.checkpoints.lookup (run, k, n) = none) := by
  unfold CheckpointsRepo.register
  cases sqlOperand env step with
  | none => exact iff_of_false (by simp) (by rintro ⟨_, h, _⟩; cases h)
  | some operand =>
      simp only [fenced_isSome, Option.some.injEq, exists_eq_left']
      refine forall_congr' fun _ => ?_
      cases operand.notNullInt with
      | none => simp
      | some n =>
          by_cases htaken : ∃ r ∈ db.checkpoints.rows, r.2.artifactId = a
          · simp only [if_pos htaken]
            refine iff_of_false (by simp) fun h => ?_
            obtain ⟨r, hr, ha⟩ := htaken
            exact h.1 r hr ha
          · simp only [if_neg htaken]
            rw [and_iff_right fun r hr ha => htaken ⟨r, hr, ha⟩]
            simp [Table.insertNew_isSome]

theorem registerOutput_isSome {db : Db} {j : JobId} {w : WorkerId} {run : RunId} {k : ℕ}
    {a : ArtifactId} :
    (TrainingRunOutputsRepo.register db j w run k a).isSome = true ↔ (db.Owns j w k →
      (∀ r ∈ db.trainingRunOutputs.rows, r.2.finalArtifactId ≠ a) ∧
        db.trainingRunOutputs.lookup run = none) := by
  unfold TrainingRunOutputsRepo.register
  rw [fenced_isSome]
  refine forall_congr' fun _ => ?_
  by_cases htaken : ∃ r ∈ db.trainingRunOutputs.rows, r.2.finalArtifactId = a
  · rw [if_pos htaken]
    refine iff_of_false (by simp) fun h => ?_
    obtain ⟨r, hr, ha⟩ := htaken
    exact h.1 r hr ha
  · rw [if_neg htaken, and_iff_right fun r hr ha => htaken ⟨r, hr, ha⟩]
    simp [Table.insertNew_isSome]

/-- An uploaded file whose artifact is then registered. -/
theorem returns_register_bind {t : Ticket} {event : Dict} {β : Type} {P : Bytes → Prop}
    {f : ArtifactId → Service β} {b : β} {g : β → α} (hworks : supply.Works p)
    (hf : ∀ data a s', s.HasContent (env.sha256 data) a → s.SameRuns s' →
      (ReturnsAlone env p supply (f a >>= fun b => pure (g b)) s' ↔ P data)) :
    ReturnsAlone env p supply (field event "local_path" >>= fun path =>
      exec (.readFile path) >>= fun data => uploadArtifact env data t.workerId >>= fun x =>
        (if x.2.status ≠ .uploaded then pure b else f x.1) >>= fun b => pure (g b)) s ↔
    ∃ data, FileFits env t supply p s event data ∧ P data := by
  have hupload : ∀ data, ReturnsAlone env p supply (uploadArtifact env data t.workerId >>= fun x =>
      (if x.2.status ≠ .uploaded then pure b else f x.1) >>= fun b => pure (g b)) s ↔
      Uploadable env supply t.workerId data s ∧ P data := fun data =>
    returns_uploadArtifact_bind hworks fun a row s' huploaded hcontent hsame => by
      simp only [huploaded, ne_eq, not_true_eq_false, if_false]
      exact hf data a s' hcontent hsame
  refine returns_found_bind.trans ?_
  constructor
  · rintro ⟨path, hpath, h⟩
    obtain ⟨data, hdata, h⟩ := returns_readFile_bind.mp h
    obtain ⟨huploadable, hp⟩ := (hupload data).mp h
    exact ⟨data, ⟨path, hpath, hdata, huploadable⟩, hp⟩
  · rintro ⟨data, ⟨path, hpath, hdata, huploadable⟩, hp⟩
    refine ⟨path, hpath, returns_readFile_bind.mpr ⟨data, hdata, ?_⟩⟩
    exact (hupload data).mpr ⟨huploadable, hp⟩

/-- The artifact of an upload is registered nowhere exactly if the one that it has found is not. -/
theorem forall_unregistered {hash : Hash} {a : ArtifactId} (ids : List ArtifactId)
    (hcontent : s.HasContent hash a) (hnew : s.NewId a → a ∉ ids) :
    a ∉ ids ↔ ∀ a' row, ArtifactsRepo.getByHash s.db hash = some (a', row) → a' ∉ ids := by
  obtain ⟨row, hfound⟩ | ⟨hmissing, ha⟩ := hcontent
  · constructor
    · intro h a' row' hfound'
      cases hfound.symm.trans hfound'
      exact h
    · exact fun h => h a row hfound
  · refine iff_of_true (hnew ha) fun a' row' hfound => ?_
    rw [hmissing] at hfound
    cases hfound

theorem World.SameRuns.owns_iff {s s' : World} (h : s.SameRuns s') {j : JobId} {w : WorkerId}
    {k : ℕ} : s'.db.Owns j w k ↔ s.db.Owns j w k := by
  unfold Db.Owns
  rw [h.jobs]

/-- A `checkpoint` event is handled exactly if it fits. -/
theorem returns_checkpoint_iff {t : Ticket} {run : TrainingRun} {event : Dict}
    {progress : Progress} (hworks : supply.Works p) :
    ReturnsAlone env p supply (uploadAndRegisterCheckpoint env t run event >>= fun _ =>
      pure progress) s ↔ CheckpointFits env t supply p s event := by
  have hprog : (uploadAndRegisterCheckpoint env t run event >>= fun _ => pure progress) =
      field event "local_path" >>= fun path => exec (.readFile path) >>= fun data =>
        uploadArtifact env data t.workerId >>= fun x =>
          (if x.2.status ≠ .uploaded then pure () else
            field event "step" >>= fun step => exec (.registerCheckpoint t.jobId t.workerId t.runId
              t.attemptNumber step x.1 run.baseModel) >>= fun _ => pure ()) >>= fun _ =>
            pure progress := by
    unfold uploadAndRegisterCheckpoint
    simp only [Prog.bind_assoc]
  have hregister : ∀ data a s', s.HasContent (env.sha256 data) a → s.SameRuns s' →
      (ReturnsAlone env p supply ((field event "step" >>= fun step =>
        exec (.registerCheckpoint t.jobId t.workerId t.runId t.attemptNumber step a
          run.baseModel) >>= fun _ => pure ()) >>= fun _ => pure progress) s' ↔
        RegistrationFits env t s event data) := by
    intro data a s' hcontent hsame
    have hfree : (∀ r ∈ s'.db.checkpoints.rows, r.2.artifactId ≠ a) ↔
        ∀ a' row, ArtifactsRepo.getByHash s.db (env.sha256 data) = some (a', row) →
          ∀ r ∈ s.db.checkpoints.rows, r.2.artifactId ≠ a' := by
      rw [hsame.checkpoints]
      have h := forall_unregistered (s.db.checkpoints.rows.map fun r => r.2.artifactId)
        hcontent fun hnew hmem => by
          obtain ⟨r, hr, hra⟩ := List.mem_map.mp hmem
          exact hnew.checkpoints r hr hra
      simpa using h
    simp only [Prog.bind_assoc]
    refine returns_found_bind.trans (exists_congr fun step => and_congr_right fun _ => ?_)
    refine (returns_write (f := fun _ => progress) rfl).trans (registerCheckpoint_isSome.trans ?_)
    rw [hsame.owns_iff, hfree, hsame.checkpoints]
  rw [hprog]
  refine (returns_register_bind (f := fun a => field event "step" >>= fun step =>
    exec (.registerCheckpoint t.jobId t.workerId t.runId t.attemptNumber step a
      run.baseModel) >>= fun _ => pure ()) (g := fun _ : Unit => progress) hworks hregister).trans ?_
  exact Iff.rfl

/-- A `final` event is handled exactly if it fits. -/
theorem returns_final_iff {t : Ticket} {event : Dict} {progress : Progress}
    (hworks : supply.Works p) :
    ReturnsAlone env p supply (uploadAndRegisterFinal env t event >>= fun _ => pure progress) s ↔
      FinalFits env t supply p s event := by
  have hprog : (uploadAndRegisterFinal env t event >>= fun _ => pure progress) =
      field event "local_path" >>= fun path => exec (.readFile path) >>= fun data =>
        uploadArtifact env data t.workerId >>= fun x =>
          (if x.2.status ≠ .uploaded then pure () else
            exec (.registerOutput t.jobId t.workerId t.runId t.attemptNumber x.1) >>= fun _ =>
              pure ()) >>= fun _ => pure progress := by
    unfold uploadAndRegisterFinal
    simp only [Prog.bind_assoc]
  have hregister : ∀ data a s', s.HasContent (env.sha256 data) a → s.SameRuns s' →
      (ReturnsAlone env p supply ((exec (.registerOutput t.jobId t.workerId t.runId
        t.attemptNumber a) >>= fun _ => pure ()) >>= fun _ => pure progress) s' ↔
        (s.db.Owns t.jobId t.workerId t.attemptNumber →
          (∀ a row, ArtifactsRepo.getByHash s.db (env.sha256 data) = some (a, row) →
            ∀ r ∈ s.db.trainingRunOutputs.rows, r.2.finalArtifactId ≠ a) ∧
          s.db.trainingRunOutputs.lookup t.runId = none)) := by
    intro data a s' hcontent hsame
    have hfree : (∀ r ∈ s'.db.trainingRunOutputs.rows, r.2.finalArtifactId ≠ a) ↔
        ∀ a' row, ArtifactsRepo.getByHash s.db (env.sha256 data) = some (a', row) →
          ∀ r ∈ s.db.trainingRunOutputs.rows, r.2.finalArtifactId ≠ a' := by
      rw [hsame.outputs]
      have h := forall_unregistered
        (s.db.trainingRunOutputs.rows.map fun r => r.2.finalArtifactId) hcontent
        fun hnew hmem => by
          obtain ⟨r, hr, hra⟩ := List.mem_map.mp hmem
          exact hnew.outputs r hr hra
      simpa using h
    simp only [Prog.bind_assoc]
    refine (returns_write (f := fun _ => progress) rfl).trans (registerOutput_isSome.trans ?_)
    rw [hsame.owns_iff, hfree, hsame.outputs]
  rw [hprog]
  exact returns_register_bind (f := fun a => exec (.registerOutput t.jobId t.workerId t.runId
    t.attemptNumber a) >>= fun _ => pure ()) (g := fun _ : Unit => progress) hworks hregister

/-- **The handler of the training supervisor copes with exactly the events that fit.** -/
theorem returns_handleTrainingEvent_iff {t : Ticket} {run : TrainingRun} {event : Dict}
    (hworks : supply.Works p) (hjob : (s.db.jobs.lookup t.jobId).isSome = true)
    (progress : Progress) :
    ReturnsAlone env p supply (handleTrainingEvent env t run event progress) s ↔
      TrainingEventFits env t supply p s event := by
  unfold handleTrainingEvent TrainingEventFits
  generalize event.get? "event" = kind
  split
  · exact iff_of_true (returns_refresh_bind hjob fun job => returns_pure) trivial
  · by_cases hlog : env.settings.logInfo = false
    · refine iff_of_true (returns_refresh_bind hjob fun job => ?_) hlog
      exact returns_check_bind.mpr ⟨by simp [hlog], returns_pure⟩
    · refine iff_of_false (fun h => ?_) hlog
      obtain ⟨job, s', _, h⟩ := returns_service_bind.mp h
      exact hlog (by simpa using (returns_check_bind.mp h).1)
  · refine returns_found_bind.trans ?_
    constructor
    · rintro ⟨step, hstep, h⟩
      obtain ⟨hloss, hrate, n, gpu, hn, hgpu, hlive⟩ :=
        recordMetric_isSome.mp ((returns_write rfl).mp h)
      exact ⟨hloss, hrate, step, n, gpu, hstep, hn, hgpu, hlive⟩
    · rintro ⟨hloss, hrate, step, n, gpu, hstep, hn, hgpu, hlive⟩
      refine ⟨step, hstep, (returns_write rfl).mpr ?_⟩
      exact recordMetric_isSome.mpr ⟨hloss, hrate, n, gpu, hn, hgpu, hlive⟩
  · exact returns_checkpoint_iff hworks
  · exact returns_final_iff hworks
  · rename_i hgpu herror hmetric hcheckpoint hfinal
    refine iff_of_true returns_pure ?_
    split
    · exact absurd rfl herror
    · exact absurd rfl hmetric
    · exact absurd rfl hcheckpoint
    · exact absurd rfl hfinal
    · trivial

end Training

/-! ### The attempts -/

/-- `run_training_attempt` from the start of the subprocess on. -/
def runTrainingSubprocess (env : Env) (t : Ticket) (run : TrainingRun) (context : Dict)
    (files : List (String × Bytes)) : Service (AttemptOutcome × Option Job) := do
  match ← supervise .training context files (handleTrainingEvent env t run) with
  | none => pure (fencedOutOutcome, none)
  | some progress =>
      pure (progress.outcome "subprocess exited without producing a final artifact",
        progress.loaded)

/-- `run_evaluation_attempt` from the start of the subprocess on. -/
def runEvaluationSubprocess (env : Env) (t : Ticket) (context : Dict)
    (files : List (String × Bytes)) : Service AttemptOutcome := do
  match ← supervise .evaluation context files (handleEvaluationEvent env t) with
  | none => pure fencedOutOutcome
  | some progress => concludeEvaluation t progress

theorem runTrainingAttempt_eq (env : Env) (t : Ticket) (run : TrainingRun) :
    runTrainingAttempt env t run = (do
      exec (.beginAttempt .training t.jobId)
      let job ← refresh t.jobId none
      let resumed ← prepareResume t.runId run
      let resources ← found .attributeError (resourcesOf job.config)
      let _ ← exec (.recordResumeDecision t.jobId t.workerId t.runId t.attemptNumber
        (resumed.map Prod.fst))
      runTrainingSubprocess env t run (trainingContext t run resources resumed)
        (trainingFiles t resumed)) := rfl

theorem runEvaluationAttempt_eq (env : Env) (t : Ticket) (run : EvaluationRun) :
    runEvaluationAttempt env t run = (do
      exec (.beginAttempt .evaluation t.jobId)
      let job ← refresh t.jobId none
      let config ← exec (.getEvaluationConfig run.evaluationConfigId)
      match ← prepareInputs run with
      | .error message => failRun t (.failed (some (.str message)) (some "permanent") (some "DATA"))
      | .ok inputs => do
          let resources ← found .attributeError (resourcesOf job.config)
          if ← markRun t .running false then
            runEvaluationSubprocess env t (evaluationContext t config resources inputs)
              (evaluationFiles t inputs)
          else pure fencedOutOutcome) := rfl

section Attempts

variable {env : Env} {p : ℕ} {supply : Supply} {t : Ticket} {α : Type} {s : World}

/-- The state in which the first line is read. -/
def Supply.spawned (supply : Supply) (p : ℕ) (executor : Executor) (context : Dict)
    (files : List (String × Bytes)) (s : World) : World :=
  { s with disk := Function.update s.disk p (supply (.spawn executor context files) s).files }

/-- The attempt survives the subprocess exactly if the loop does. -/
theorem returns_supervise_bind {executor : Executor} {context : Dict}
    {files : List (String × Bytes)} {handle : Dict → Progress → Service Progress}
    {f : Option Progress → Service α} (hf : ∀ progress s, ReturnsAlone env p supply (f progress) s) :
    ReturnsAlone env p supply (supervise executor context files handle >>= f) s ↔
      ReturnsAlone env p supply
        (superviseLines handle (supply (.spawn executor context files) s).lines {})
        (supply.spawned p executor context files s) := by
  unfold supervise
  simp only [Prog.bind_assoc]
  refine (returns_answer_bind rfl).trans ?_
  refine returns_service_bind.trans ?_
  constructor
  · rintro ⟨progress, s', heval, _⟩
    exact ⟨progress, congrArg Prod.fst heval⟩
  · rintro ⟨progress, hprogress⟩
    refine ⟨progress, _, Prod.ext hprogress rfl, ?_⟩
    cases progress with
    | none => exact hf none _
    | some progress =>
        simp only [Prog.bind_assoc]
        refine returns_exec_bind.mpr ⟨_, rfl, ?_⟩
        split
        · exact hf none _
        · exact hf (some progress) _

/-- The end of an evaluation returns. -/
theorem returns_concludeEvaluation (progress : Progress) (s : World) :
    ReturnsAlone env p supply (concludeEvaluation t progress) s := by
  have hmark : ∀ status setCompleted (s : World) (f : Bool → Service AttemptOutcome),
      (∀ b s, ReturnsAlone env p supply (f b) s) →
        ReturnsAlone env p supply (markRun t status setCompleted >>= f) s := by
    intro status setCompleted s f hf
    have hsome : ∀ completedAt, (EvaluationRunsRepo.markStatus s.db t.runId t.jobId t.workerId
        t.attemptNumber status completedAt).isSome = true := by
      intro completedAt
      refine fenced_isSome.mpr fun _ => ?_
      split <;> rfl
    obtain ⟨b, hb⟩ := tryWrite_ok_iff.mpr (hsome _)
    exact returns_exec_bind.mpr ⟨b, hb, hf _ _⟩
  unfold concludeEvaluation failRun
  split
  · refine hmark _ _ _ _ fun b s => ?_
    split <;> exact returns_pure
  · exact hmark _ _ _ _ fun _ _ => returns_pure

/-- **The attempts survive an output exactly if every line fits**, or the attempt is abandoned before
the first one. -/
theorem attempts_survive_iff (hworks : supply.Works p) {context : Dict}
    {files : List (String × Bytes)} (hjob : (s.db.jobs.lookup t.jobId).isSome = true) :
    (∀ run, ReturnsAlone env p supply (runTrainingSubprocess env t run context files) s ↔
      s.Abandoned p ∨ OutputFits env p supply (handleTrainingEvent env t run)
        (TrainingEventFits env t supply p) (supply (.spawn .training context files) s).lines {}
        (supply.spawned p .training context files s)) ∧
    (ReturnsAlone env p supply (runEvaluationSubprocess env t context files) s ↔
      s.Abandoned p ∨ ∀ line ∈ (supply (.spawn .evaluation context files) s).lines,
        line.Fits (EvaluationEventFits env (s.db.Owns t.jobId t.workerId t.attemptNumber))) := by
  constructor
  · intro run
    have hloop : ReturnsAlone env p supply (runTrainingSubprocess env t run context files) s ↔
        ReturnsAlone env p supply (superviseLines (handleTrainingEvent env t run)
          (supply (.spawn .training context files) s).lines {})
          (supply.spawned p .training context files s) :=
      returns_supervise_bind fun progress s => by cases progress <;> exact returns_pure
    have hfits : ∀ (m : World) progress event, (m.db.jobs.lookup t.jobId).isSome = true →
        (ReturnsAlone env p supply (handleTrainingEvent env t run event progress) m ↔
          TrainingEventFits env t supply p m event) := fun m progress event hm =>
      returns_handleTrainingEvent_iff hworks hm progress
    refine hloop.trans (returns_superviseLines_iff (s := supply.spawned p .training context files s)
      hfits (fun m m' line progress progress' hm heval => ?_) _ _ hjob)
    obtain ⟨hjobs, hbeats⟩ := handleLine_keeps (handled_trainingEvent env t run) heval
    exact ⟨by rw [hjobs]; exact hm, hbeats⟩
  · have hloop : ReturnsAlone env p supply (runEvaluationSubprocess env t context files) s ↔
        ReturnsAlone env p supply (superviseLines (handleEvaluationEvent env t)
          (supply (.spawn .evaluation context files) s).lines {})
          (supply.spawned p .evaluation context files s) :=
      returns_supervise_bind fun progress s => by
        cases progress with
        | none => exact returns_pure
        | some progress => exact returns_concludeEvaluation progress s
    have hfits : ∀ (m : World) progress event, m.db.jobs = s.db.jobs →
        (ReturnsAlone env p supply (handleEvaluationEvent env t event progress) m ↔
          EvaluationEventFits env (s.db.Owns t.jobId t.workerId t.attemptNumber) event) := by
      intro m progress event hm
      rw [returns_handleEvaluationEvent_iff]
      unfold Db.Owns
      rw [hm]
    have hkeeps : ∀ (m m' : World) line progress progress', m.db.jobs = s.db.jobs →
        evalAlone env p supply (handleLine (handleEvaluationEvent env t) line progress) m =
          (.ok progress', m') → m'.db.jobs = s.db.jobs ∧ m'.heartbeats = m.heartbeats := by
      intro m m' line progress progress' hm heval
      obtain ⟨hjobs, hbeats⟩ := handleLine_keeps (handled_evaluationEvent env t) heval
      exact ⟨hjobs.trans hm, hbeats⟩
    have hsurvive := returns_superviseLines_iff hfits hkeeps
      (supply (.spawn .evaluation context files) s).lines {}
      (s := supply.spawned p .evaluation context files s) rfl
    refine hloop.trans (hsurvive.trans (or_congr Iff.rfl ?_))
    exact outputFits_iff_forall hfits
      (fun m m' line progress progress' hm heval => (hkeeps m m' line progress progress' hm heval).1)
      _ rfl

end Attempts

/-- The artifact ids that a world knows. -/
def World.artifactIds (s : World) : List ArtifactId :=
  s.db.artifacts.rows.map Prod.fst ++ s.db.checkpoints.rows.map (fun r => r.2.artifactId) ++
    s.db.trainingRunOutputs.rows.map fun r => r.2.finalArtifactId

/-- Every file is there and empty, every generated id is new, and every subprocess prints the same. -/
def plainSupply (lines : List Line) : Supply := fun _ s =>
  { uuid := s.artifactIds.sum + 1, lines, file := some [] }

theorem plainSupply_works (lines : List Line) (p : ℕ) : (plainSupply lines).Works p where
  fresh hash s := by
    have hnew : s.artifactIds.sum + 1 ∉ s.artifactIds := fun h =>
      absurd (List.le_sum_of_mem h) (Nat.not_le.mpr (Nat.lt_succ_self _))
    simp only [World.artifactIds, List.mem_append, List.mem_map, not_or, not_exists, not_and] at hnew
    refine ⟨?_, fun r hr => hnew.1.2 r hr, fun r hr => hnew.2 r hr⟩
    cases h : s.db.artifacts.lookup ((plainSupply lines) (.createPending hash) s).uuid with
    | none => rfl
    | some row => exact absurd rfl (hnew.1.1 (_, row) (Table.mem_rows.mpr h))
  present name s := by
    unfold Supply.fileAt
    cases s.fileOf p (.str name) <;> rfl

/-- Output without an event that is written to the database. -/
def chatter : List Line :=
  [.text, .json .null, .json (.obj [("loss", .num 1)]), .json (.obj [("event", .str "warmup")])]

def chatterJob : Job where
  jobType := "noop"
  status := .running
  config := none
  priority := 0
  createdAt := 0
  leaseOwner := some 7
  attemptNumber := 1

/-- A world with a running job. -/
def chatterStart : World where
  db := { Db.initial with jobs := AList.insert 1 chatterJob ∅ }

/-- Both attempts survive the chatter. -/
theorem chatter_survived :
    (∀ run, ReturnsAlone Env.standard 2 (plainSupply chatter)
      (runTrainingSubprocess Env.standard ⟨1, 7, 1, 1⟩ run [] []) chatterStart) ∧
    ReturnsAlone Env.standard 2 (plainSupply chatter)
      (runEvaluationSubprocess Env.standard ⟨1, 7, 1, 1⟩ [] []) chatterStart := by
  have h := @attempts_survive_iff Env.standard 2 (plainSupply chatter) ⟨1, 7, 1, 1⟩ chatterStart
    (plainSupply_works chatter 2) [] [] (by decide)
  refine ⟨fun run => (h.1 run).mpr (Or.inr ?_), h.2.mpr (Or.inr ?_)⟩
  · exact ⟨trivial, fun _ _ _ => ⟨trivial, fun _ _ _ => ⟨trivial, fun _ _ _ => ⟨trivial,
      fun _ _ _ => trivial⟩⟩⟩⟩
  · intro line hline
    simp only [plainSupply, chatter, List.mem_cons, List.not_mem_nil, or_false] at hline
    obtain rfl | rfl | rfl | rfl := hline <;> exact trivial

/-- An evaluation is created and admitted, and its subprocess prints the number `5`. -/
def printsNumber : List (SysEvent Env.standard) :=
  session 0 (.createEvaluation evaluationPayload) 6 { uuid := 1 } ++
    session 1 .schedulerRunOnce 8 {} ++
    session 2 (.processJobMessage 1 7) 19 { lines := [.json (.num 5)] }

/-- **One line ends the worker call with an exception**, and the attempt stays RUNNING. -/
theorem number_ends_attempt : ∃ c : System Env.standard,
    Reaches evaluationStart printsNumber c ∧
      c.result 2 = some (.error .attributeError) ∧
      ∃ job ∈ c.shared.db.jobs.lookup 1, job.status = .running :=
  exists_reaches evaluationStart_initial _ (by decide +kernel)

end PosttrainPlatform
