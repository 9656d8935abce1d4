import PosttrainPlatform.Properties.Discovery

/-!
# What stands behind a resume decision

A resume decision is recorded after a search: the checkpoint that it names was accepted, and those of a
greater step were refused.  The searches of a worker come after the row of its attempt.
-/

namespace PosttrainPlatform

open Programs Service

/-- The statements of a search for a checkpoint. -/
def Op.isSearch : Op → Bool
  | .listCheckpoints _ | .getArtifact _ | .objectExistsWithHash .. => true
  | _ => false

/-- The statements that begin an attempt and record its resume decision. -/
def Op.isDecisive : Op → Bool
  | .insertAttempt .. | .recordResumeDecision .. => true
  | _ => false

namespace Past

/-- The object store has failed to hand out an object. -/
def StoreFailed (h : Past) : Prop :=
  ∃ key expected, (⟨.objectExistsWithHash key expected, .error .clientError⟩ :
    Done Op Op.Ret Exn) ∈ h

/-- A checkpoint was found to have an artifact that is not UPLOADED, or an object without its hash. -/
inductive Misses (h : Past) (row : Checkpoint) : Prop
  | status {r : Option Artifact} (hread : h.Answered (.getArtifact row.artifactId) r)
      (hs : ∀ artifact ∈ r, artifact.status ≠ .uploaded)
  | content {artifact : Artifact} (hread : h.Answered (.getArtifact row.artifactId) (some artifact))
      (hlost : h.Answered (.objectExistsWithHash artifact.contentHash artifact.contentHash) false)

/-- The search has refused the checkpoint. -/
def Refuses (h : Past) (run : TrainingRun) (row : Checkpoint) : Prop :=
  h.Misses row ∨ h.StoreFailed ∨ row.baseModel ≠ run.baseModel ∨
    row.checkpointFormatVersion ≠ supportedCheckpointFormatVersion

/-- The search has accepted the checkpoint. -/
structure Accepts (h : Past) (run : TrainingRun) (row : Checkpoint) : Prop where
  content : ∃ artifact, h.Answered (.getArtifact row.artifactId) (some artifact) ∧
    artifact.status = .uploaded ∧
      h.Answered (.objectExistsWithHash artifact.contentHash artifact.contentHash) true
  baseModel : row.baseModel = run.baseModel
  format : row.checkpointFormatVersion = supportedCheckpointFormatVersion

/-- The search of the candidates has found the checkpoint to resume from, or none. -/
structure Found (h : Past) (run : TrainingRun) (candidates : List ResumeCandidate)
    (step : Option ℤ) : Prop where
  refused : ∀ c ∈ candidates, (∀ n ∈ step, n < c.1.2.2) → h.Refuses run c.2
  accepted : ∀ n ∈ step, ∃ c ∈ candidates, c.1.2.2 = n ∧ h.Accepts run c.2

/-- What stands behind the row of an attempt and behind its resume decision. -/
def Searches (h : Past) : Op → Prop
  | .insertAttempt .. => ∀ d ∈ h, d.1.isSearch = false
  | .recordResumeDecision j _ runId _ step => ∃ run candidates,
      h.Answered (.findTrainingRun j) (some (runId, run)) ∧
        h.Answered (.listCheckpoints runId) candidates ∧ h.Found run candidates step
  | _ => True

section Mono

variable {h h' : Past} (hsub : h ⊆ h') {run : TrainingRun} {row : Checkpoint}

include hsub

theorem Misses.mono (hh : h.Misses row) : h'.Misses row := by
  cases hh with
  | status hread hs => exact .status (hread.mono hsub) hs
  | content hread hlost => exact .content (hread.mono hsub) (hlost.mono hsub)

theorem StoreFailed.mono (hh : h.StoreFailed) : h'.StoreFailed := by
  obtain ⟨key, expected, hd⟩ := hh
  exact ⟨key, expected, hsub hd⟩

theorem Refuses.mono (hh : h.Refuses run row) : h'.Refuses run row :=
  hh.imp (·.mono hsub) fun hh => hh.imp (·.mono hsub) id

theorem Accepts.mono (hh : h.Accepts run row) : h'.Accepts run row := by
  obtain ⟨⟨artifact, hread, hs, hexists⟩, hbase, hformat⟩ := hh
  exact ⟨⟨artifact, hread.mono hsub, hs, hexists.mono hsub⟩, hbase, hformat⟩

theorem Found.mono {candidates : List ResumeCandidate} {step : Option ℤ}
    (hh : h.Found run candidates step) : h'.Found run candidates step := by
  refine ⟨fun c hc hn => (hh.refused c hc hn).mono hsub, fun n hn => ?_⟩
  obtain ⟨c, hc, hstep, haccepts⟩ := hh.accepted n hn
  exact ⟨c, hc, hstep, haccepts.mono hsub⟩

end Mono

end Past

/-! ### The search -/

/-- The program makes a search behind every decision, and has learnt `Q` when it returns. -/
abbrev Seeks {α : Type} (h : Past) (p : Service α) (Q : α → Past → Prop) : Prop :=
  p.Learns Past.Searches h Q

section Walk

variable {env : Env} {h : Past} {run : TrainingRun}

/-- A statement that is not decisive needs nothing behind it. -/
theorem searches_of_steady {op : Op} (hop : op.isDecisive = false) (h : Past) : h.Searches op := by
  cases op <;> trivial

theorem searches_steady {α : Type} {p : Service α} (hp : p.All fun op => op.isDecisive = false) :
    Seeks h p fun _ _ => True :=
  Prog.learns_of_all (Prog.all_mono (fun _ hop => searches_of_steady hop) hp)

/-- The answer of the look at the store, and what is behind it. -/
theorem searches_objectExistsWithHash (key expected : Hash) :
    Seeks h (objectExistsWithHash key expected) fun b m =>
      (b = true → m.Answered (.objectExistsWithHash key expected) true) ∧
        (b = false → m.Answered (.objectExistsWithHash key expected) false ∨ m.StoreFailed) := by
  have hread : Seeks h (Prog.attempt (exec (.objectExistsWithHash key expected)))
      fun r m => (⟨.objectExistsWithHash key expected, r⟩ : Done Op Op.Ret Exn) ∈ m :=
    Prog.learns_attempt (Prog.justified_perform trivial fun r => List.mem_cons_self)
  refine Prog.Learns.bind hread fun r m _ hr => ?_
  split
  · rename_i b
    refine Prog.learns_ret ⟨fun hb => ?_, fun hb => Or.inl ?_⟩
    · subst hb
      exact hr
    · subst hb
      exact hr
  · exact Prog.learns_ret ⟨fun hb => (by cases hb), fun _ => Or.inr ⟨_, _, hr⟩⟩
  · exact Prog.learns_raise

/-- `_is_compatible` accepts or refuses. -/
theorem searches_isCompatible (row : Checkpoint) :
    Seeks h (isCompatible run row) fun b m =>
      (b = true → m.Accepts run row) ∧ (b = false → m.Refuses run row) := by
  refine Prog.learns_perform_bind trivial fun r m₁ h₁ hread => ?_
  cases r with
  | none =>
      refine Prog.learns_ret ⟨fun hb => (by cases hb), fun _ => Or.inl (.status hread fun _ ha => ?_)⟩
      cases ha
  | some artifact =>
      simp only
      split
      · rename_i hs
        refine Prog.learns_ret ⟨fun hb => (by cases hb), fun _ => Or.inl (.status hread ?_)⟩
        intro artifact' ha
        cases ha
        exact hs
      · rename_i hs
        refine Prog.Learns.bind (searches_objectExistsWithHash _ _) fun b m₂ h₂ hb => ?_
        refine Prog.learns_ret ⟨fun htrue => ?_, fun hfalse => ?_⟩
        · simp only [Bool.and_eq_true, decide_eq_true_eq] at htrue
          obtain ⟨⟨hintact, hbase⟩, hformat⟩ := htrue
          exact ⟨⟨artifact, hread.mono h₂, not_not.mp hs, hb.1 hintact⟩, hbase, hformat⟩
        · simp only [Bool.and_eq_false_iff, decide_eq_false_iff_not] at hfalse
          obtain (hlost | hbase) | hformat := hfalse
          · obtain hanswer | hfailed := hb.2 hlost
            · exact Or.inl (.content (hread.mono h₂) hanswer)
            · exact Or.inr (Or.inl hfailed)
          · exact Or.inr (Or.inr (Or.inl hbase))
          · exact Or.inr (Or.inr (Or.inr hformat))

/-- **The search of ordered candidates stops at the first one that it accepts.** -/
theorem searches_firstCompatible {candidates : List ResumeCandidate}
    (hsorted : candidates.Pairwise ResumesBefore) :
    Seeks h (firstCompatible run candidates) fun r m =>
      m.Found run candidates (r.map Prod.fst) := by
  induction candidates generalizing h with
  | nil =>
      refine Prog.learns_ret ⟨fun c hc => (by cases hc), fun n hn => ?_⟩
      cases hn
  | cons candidate rest ih =>
      obtain ⟨hfirst, hrest⟩ := List.pairwise_cons.mp hsorted
      refine Prog.Learns.bind (searches_isCompatible candidate.2) fun b m₁ _ hb => ?_
      cases b with
      | true =>
          refine Prog.learns_ret ⟨fun c hc hn => ?_, fun n hn => ?_⟩
          · -- the candidates that follow are of no greater step
            have hless := hn candidate.1.2.2 rfl
            obtain rfl | hc := List.mem_cons.mp hc
            · exact absurd hless (lt_irrefl _)
            · obtain hstep | ⟨hstep, _⟩ := hfirst c hc <;> omega
          · cases hn
            exact ⟨candidate, List.mem_cons_self, rfl, hb.1 rfl⟩
      | false =>
          refine (ih hrest).mono fun r m₂ h₂ hfound => ⟨fun c hc hn => ?_, fun n hn => ?_⟩
          · obtain rfl | hc := List.mem_cons.mp hc
            · exact (hb.2 rfl).mono h₂
            · exact hfound.refused c hc hn
          · obtain ⟨c, hc, hstep, haccepts⟩ := hfound.accepted n hn
            exact ⟨c, List.mem_cons_of_mem _ hc, hstep, haccepts⟩

theorem searches_prepareResume (runId : RunId) :
    Seeks h (prepareResume runId run) fun r m => ∃ candidates,
      m.Answered (.listCheckpoints runId) candidates ∧ m.Found run candidates (r.map Prod.fst) := by
  have hfind : Seeks h (findResumeCheckpoint runId run) fun r m => ∃ candidates,
      m.Answered (.listCheckpoints runId) candidates ∧ m.Found run candidates (r.map Prod.fst) := by
    refine Prog.learns_perform_bind trivial fun candidates m₁ h₁ hlist => ?_
    refine (searches_firstCompatible (List.pairwise_insertionSort _ _)).mono fun r m₂ h₂ hfound => ?_
    refine ⟨candidates, hlist.mono h₂, fun c hc => hfound.refused c ?_, fun n hn => ?_⟩
    · exact (List.mem_insertionSort _).mpr hc
    · obtain ⟨c, hc, hrest⟩ := hfound.accepted n hn
      exact ⟨c, (List.mem_insertionSort _).mp hc, hrest⟩
  refine Prog.Learns.bind hfind fun r m₁ h₁ hr => ?_
  cases r with
  | none => exact Prog.learns_ret hr
  | some found =>
      obtain ⟨candidates, hlist, hfound⟩ := hr
      refine Prog.learns_perform_bind trivial fun artifact m₂ h₂ _ => ?_
      cases artifact with
      | none => exact Prog.learns_raise
      | some artifact =>
          refine Prog.learns_perform_bind trivial fun data m₃ h₃ _ => ?_
          have hsub : m₁ ⊆ m₃ := fun _ hd => h₃ (h₂ hd)
          exact Prog.learns_ret ⟨candidates, hlist.mono hsub, hfound.mono hsub⟩

end Walk

/-! ### The attempt -/

section Attempt

variable {env : Env} {h : Past} {j : JobId} {w : WorkerId} {k : ℕ}

/-- Whoever neither begins attempts nor prepares them decides nothing. -/
theorem steady_of_inside {ρ : Role} {δ : Duty} {op : Op} (hop : op.Inside ρ δ)
    (hρ : Role.prepare ∉ ρ.covers) (hδ : δ ≠ .worker) : op.isDecisive = false := by
  cases op
  case insertAttempt =>
      obtain hany | hduty := hop.2
      · cases hany
      · exact absurd hduty.symm hδ
  case recordResumeDecision =>
      obtain hplain | hrole := hop.1
      · cases hplain
      · exact absurd hrole hρ
  all_goals rfl

theorem steady_record {op : Op} (hop : op.Inside .record .any) : op.isDecisive = false :=
  steady_of_inside hop (by decide) (by decide)

/-- **A training attempt records what its search has found.** -/
theorem searches_runTrainingAttempt {t : Ticket} {run : TrainingRun}
    (hfind : h.Answered (.findTrainingRun t.jobId) (some (t.runId, run))) :
    Seeks h (runTrainingAttempt env t run) fun _ _ => True := by
  refine Prog.learns_perform_bind trivial fun _ m₁ h₁ _ => ?_
  refine Prog.Learns.bind (searches_steady (all_refresh rfl)) fun job m₂ h₂ _ => ?_
  refine Prog.Learns.bind (searches_prepareResume t.runId) fun resumed m₃ h₃ hresumed => ?_
  cases resourcesOf job.config with
  | none => exact Prog.learns_raise
  | some resources =>
      obtain ⟨candidates, hlist, hfound⟩ := hresumed
      have hread : m₃.Answered (.findTrainingRun t.jobId) (some (t.runId, run)) :=
        hfind.mono fun _ hd => h₃ (h₂ (h₁ hd))
      refine Prog.learns_perform_bind ⟨run, candidates, hread, hlist, hfound⟩ fun _ m₄ h₄ _ => ?_
      refine Prog.Learns.bind (searches_steady (all_supervise rfl rfl fun event progress =>
        Prog.all_mono (fun op hop => steady_of_inside hop (by decide) (by decide))
          (all_handleTrainingEvent (δ := .any) env t run event progress))) fun progress m₅ h₅ _ => ?_
      cases progress <;> exact Prog.learns_ret trivial

/-- The body of an attempt. -/
theorem searches_runBody : Seeks h (runBody env j w k) fun _ _ => True := by
  have hbegun : ∀ {α : Type} {m : Past} {executor : Executor} {rest : Unit → Service α},
      (∀ u, (rest u).All fun op => op.isDecisive = false) →
        Seeks m (exec (.beginAttempt executor j) >>= rest) fun _ _ => True :=
    fun hrest => Prog.learns_perform_bind trivial fun u _ _ _ => searches_steady (hrest u)
  refine Prog.learns_perform_bind trivial fun training m₁ h₁ htraining => ?_
  cases training with
  | some run =>
      obtain ⟨runId, run⟩ := run
      exact searches_runTrainingAttempt (t := ⟨j, w, k, runId⟩) htraining
  | none =>
      refine Prog.learns_perform_bind trivial fun evaluation m₂ h₂ _ => ?_
      cases evaluation with
      | some run =>
          obtain ⟨runId, run⟩ := run
          obtain ⟨rest, heq, hrest⟩ := all_evaluationSteps (φ := fun op => op.isDecisive = false)
            (t := ⟨j, w, k, runId⟩) (fun _ _ => rfl) env run (fun _ _ => rfl) fun _ => steady_record
          refine Prog.Learns.bind (Q := fun _ _ => True) ?_ fun _ _ _ _ => Prog.learns_ret trivial
          rw [heq]
          exact hbegun hrest
      | none =>
          obtain ⟨rest, heq, hrest⟩ := all_executorRest (ρ := .plain) (δ := .any) j
          show Seeks m₂ (runExecutor j) _
          rw [heq]
          exact hbegun fun u => Prog.all_mono
            (fun _ hop => steady_of_inside hop (by decide) (by decide)) (hrest u)

/-- The attempt from its row on. -/
theorem searches_runAttempt (hbefore : ∀ d ∈ h, d.1.isSearch = false) :
    (runAttempt env j w k).Justified Past.Searches h fun _ _ => True := by
  have hlearns : Seeks h (runAttempt env j w k) fun _ _ => True := by
    refine Prog.learns_perform_bind hbefore fun _ m₁ h₁ _ => ?_
    refine Prog.learns_perform_bind trivial fun _ m₂ h₂ _ => ?_
    refine Prog.Learns.bind (Q := fun _ _ => True) ?_ fun result m₃ h₃ _ => ?_
    · refine Prog.Justified.mono (Prog.justified_ensuring (R := fun _ m => m₂ ⊆ m) searches_runBody
        fun r m hm => Prog.justified_perform trivial fun o => ?_) fun r m hm => ⟨hm, fun _ _ => trivial⟩
      exact fun _ hd => List.mem_cons_of_mem _ (hm.1 hd)
    · obtain ⟨outcome, loaded⟩ := result
      refine searches_steady (Prog.all_mono (fun op hop => ?_)
        (all_conclude (δ := .any) env j w k outcome loaded))
      obtain hplain | ⟨ending, rfl⟩ := hop
      · exact steady_of_inside hplain (by decide) (by decide)
      · rfl
  exact Prog.Justified.mono hlearns fun _ _ _ => trivial

theorem searches_processJobMessage (hbefore : ∀ d ∈ h, d.1.isSearch = false) :
    (processJobMessage env j w).Justified Past.Searches h fun _ _ => True := by
  have hcons : ∀ {m : Past} (op : Op) (r : Except Exn op.Ret), (∀ d ∈ m, d.1.isSearch = false) →
      op.isSearch = false → ∀ d ∈ (⟨op, r⟩ :: m : Past), d.1.isSearch = false := by
    intro m op r hm hop d hd
    obtain rfl | hd := List.mem_cons.mp hd
    · exact hop
    · exact hm d hd
  refine Prog.justified_perform_bind trivial (fun matched => ?_) fun _ => trivial
  have hclaimed := hcons (.claim j w) (.ok matched) hbefore rfl
  refine Prog.justified_bind (Q := fun _ m => ∀ d ∈ m, d.1.isSearch = false) ?_
    (fun job m hm => ?_) fun _ _ _ => trivial
  · cases matched with
    | false => exact hclaimed
    | true => exact Prog.justified_perform trivial fun r => hcons _ r hclaimed rfl
  · cases job with
    | none => trivial
    | some job => exact searches_runAttempt hm

/-- **Every call makes a search behind every decision.** -/
theorem searches_program (env : Env) (call : Call) :
    (call.program env).Justified Past.Searches [] fun _ _ => True := by
  cases call with
  | processJobMessage j w =>
      refine Prog.justified_bind (searches_processJobMessage fun d hd => by cases hd)
        (fun _ _ _ => trivial) fun _ _ _ => trivial
  | workerRunOnce w =>
      refine Prog.justified_bind (Q := fun _ _ => True) ?_ (fun _ _ _ => trivial)
        fun _ _ _ => trivial
      refine Prog.justified_perform_bind (R := fun _ _ => True) trivial (fun message => ?_)
        fun _ => trivial
      cases message with
      | none => trivial
      | some message =>
          refine Prog.justified_bind (Q := fun _ _ => True) (Prog.justified_attempt ?_)
            (fun _ _ _ => Prog.justified_perform trivial fun _ => trivial) fun _ _ _ => trivial
          refine searches_processJobMessage fun d hd => ?_
          rw [List.mem_singleton.mp hd]
          rfl
  | createJob | createTrainingRun | createEvaluation | updateJob | cancelJob | deleteJob
  | schedulerRunOnce | recoveryRunOnce | relayOnce | uploadArtifact | renewUploadLease
  | reconcileOnce | createDataset | createDatasetVersion | createModel | registerVersion
  | evaluateQualityGate =>
      refine Prog.Justified.mono (searches_steady (Prog.all_mono (fun op hop => ?_)
        (inside_program env _))) fun _ _ _ => trivial
      exact steady_of_inside hop (by simp [Call.role, Role.covers]) (by simp [Call.duty])

end Attempt

end PosttrainPlatform
