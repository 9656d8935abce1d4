import PosttrainPlatform.Properties.Past
import PosttrainPlatform.Properties.Roles

/-!
# The programs of the services are justified

Each program is walked once, from the answers it has to the statements it executes.  `Follows` says
what a program has learnt when it returns; the loops over lines and candidates come first, the
worker's attempt is put together at the end.
-/

namespace PosttrainPlatform

open Programs Service

variable {env : Env}

/-- The program executes only justified statements, and has learnt `Q` when it returns. -/
abbrev Follows {α : Type} (env : Env) (h : Past) (p : Service α) (Q : α → Past → Prop) : Prop :=
  p.Learns (Past.Justifies env) h Q

section Rules

variable {α β : Type} {h : Past}

theorem follows_pure {a : α} {Q : α → Past → Prop} (hQ : Q a h) : Follows env h (pure a) Q :=
  Prog.learns_ret hQ

theorem follows_raise {e : Exn} {Q : α → Past → Prop} : Follows env h (raise e) Q :=
  Prog.learns_raise

theorem Follows.mono {p : Service α} {Q R : α → Past → Prop} (hp : Follows env h p Q)
    (hQ : ∀ a m, h ⊆ m → Q a m → R a m) : Follows env h p R :=
  Prog.Learns.mono hp hQ

theorem Follows.bind {p : Service α} {f : α → Service β} {Q : α → Past → Prop}
    {R : β → Past → Prop} (hp : Follows env h p Q)
    (hf : ∀ a m, h ⊆ m → Q a m → Follows env m (f a) R) : Follows env h (p >>= f) R :=
  Prog.Learns.bind hp hf

/-- One statement, and the rest of the program. -/
theorem follows_exec_bind {op : Op} {f : op.Ret → Service β} {R : β → Past → Prop}
    (hop : h.Justifies env op)
    (hf : ∀ a m, h ⊆ m → m.Answered op a → Follows env m (f a) R) :
    Follows env h (exec op >>= f) R :=
  Prog.learns_perform_bind hop hf

theorem follows_exec {op : Op} {Q : op.Ret → Past → Prop} (hop : h.Justifies env op)
    (hQ : ∀ a m, h ⊆ m → m.Answered op a → Q a m) : Follows env h (exec op) Q :=
  Prog.learns_perform hop hQ

section

variable {D : Past → Op → Prop}

theorem learns_found_bind {e : Exn} {o : Option α} {f : α → Service β} {R : β → Past → Prop}
    (hf : ∀ a, o = some a → (f a).Learns D h R) : (found e o >>= f).Learns D h R := by
  cases o with
  | none => exact Prog.learns_raise
  | some a => exact hf a rfl

theorem learns_check_bind {e : Exn} {b : Bool} {f : Unit → Service β} {R : β → Past → Prop}
    (hf : b = true → (f ()).Learns D h R) : (check e b >>= f).Learns D h R := by
  cases b with
  | false => exact Prog.learns_raise
  | true => exact hf rfl

end

theorem follows_found_bind {e : Exn} {o : Option α} {f : α → Service β} {R : β → Past → Prop}
    (hf : ∀ a, o = some a → Follows env h (f a) R) : Follows env h (found e o >>= f) R :=
  learns_found_bind hf

theorem follows_check_bind {e : Exn} {b : Bool} {f : Unit → Service β} {R : β → Past → Prop}
    (hf : b = true → Follows env h (f ()) R) : Follows env h (check e b >>= f) R :=
  learns_check_bind hf

theorem follows_attempt {p : Service α} {Q : Except Exn α → Past → Prop}
    (hp : p.Justified (Past.Justifies env) h Q) : Follows env h (Prog.attempt p) Q :=
  Prog.learns_attempt hp

/-- A statement that needs nothing behind it. -/
def Op.Free (op : Op) : Prop := ∀ env h, Past.Justifies env h op

theorem follows_of_free {p : Service α} (hp : p.All Op.Free) : Follows env h p fun _ _ => True :=
  Prog.learns_of_all (Prog.all_mono (fun _ hop => hop env) hp)

/-- Plain statements need nothing behind them, but for those of a worker. -/
theorem free_of_inside {op : Op} (hop : op.Inside .plain .any) : op.Free := by
  intro env h
  have hrole : op.role = .plain := by simpa [Op.Within, Role.covers] using hop.1
  have hduty : op.duty = .any := by simpa using hop.2
  cases op <;> simp [Op.role, Op.duty] at hrole hduty <;> trivial

theorem follows_refresh {j : JobId} {loaded : Option Job} :
    Follows env h (refresh j loaded) fun _ _ => True :=
  follows_of_free (all_refresh fun _ _ => trivial)

end Rules

/-! ### Uploads and registries -/

section Uploads

variable {h : Past}

/-- What a caller of `upload_artifact` knows of the artifact that it gets back. -/
def Past.Uploads (env : Env) (h : Past) (data : Bytes) (r : ArtifactId × Artifact) : Prop :=
  h.Holds env data r.1 ∧ (r.2.status = .uploaded → h.SawUploaded r.1) ∧
    (r.2.status ≠ .uploaded → h.Odd)

/-- An object that is found has been read. -/
theorem follows_objectExistsWithHash_bind {key expected : Hash} {f : Bool → Service β}
    {R : β → Past → Prop} (hf : ∀ b m, h ⊆ m →
      (b = true → m.Answered (.objectExistsWithHash key expected) true) → Follows env m (f b) R) :
    Follows env h (objectExistsWithHash key expected >>= f) R := by
  refine Follows.bind (Q := fun b m => b = true →
    m.Answered (.objectExistsWithHash key expected) true) ?_ hf
  have hread : Follows env h (Prog.attempt (exec (.objectExistsWithHash key expected)))
      fun r m => ∀ b, r = .ok b → m.Answered (.objectExistsWithHash key expected) b :=
    follows_attempt (Prog.justified_perform trivial fun r b hb => by
      rw [hb]
      exact History.answered_cons_self _ _ _)
  refine Follows.bind hread fun r m h₁ hr => ?_
  split
  · rename_i b
    exact follows_pure fun hb => hb ▸ hr b rfl
  · exact follows_pure fun hb => by cases hb
  · exact follows_raise

theorem follows_uploadTo {data : Bytes} {a : ArtifactId} {u : WorkerId}
    (hholds : h.Holds env data a) :
    Follows env h (uploadTo data (env.sha256 data) a u) fun r m => m.Uploads env data r := by
  refine follows_exec_bind trivial fun claimed m₁ h₁ hclaimed => ?_
  refine follows_found_bind fun row hrow => ?_
  subst hrow
  refine follows_exec_bind ⟨a, u, row, hholds.mono h₁, hclaimed, rfl⟩ fun _ m₂ h₂ _ => ?_
  refine follows_objectExistsWithHash_bind fun verified m₃ h₃ hverified => ?_
  refine follows_check_bind fun hb => ?_
  have hlease : m₃.Answered (.claimUploadLease a u) (some row) :=
    hclaimed.mono fun _ hd => h₃ (h₂ hd)
  have hholds₃ : m₃.Holds env data a := hholds.mono fun _ hd => h₃ (h₂ (h₁ hd))
  refine follows_exec_bind ⟨row, data, hholds₃, hlease, hverified hb⟩
    fun finalized m₄ h₄ hfinalized => ?_
  refine follows_found_bind fun row' hrow' => ?_
  subst hrow'
  refine follows_pure ⟨hholds₃.mono h₄, fun hs => ?_, fun hs => ?_⟩
  · exact ⟨row', hs, Or.inr (Or.inl ⟨u, hfinalized⟩)⟩
  · exact ⟨a, u, row', hfinalized, hs⟩

theorem follows_uploadArtifact (data : Bytes) (u : WorkerId) :
    Follows env h (uploadArtifact env data u) fun r m => m.Uploads env data r := by
  refine follows_exec_bind trivial fun existing m₁ h₁ hexisting => ?_
  cases existing with
  | none =>
      refine follows_exec_bind trivial fun a m₂ h₂ hcreated => ?_
      exact follows_uploadTo (Or.inr hcreated)
  | some existing =>
      obtain ⟨a, row⟩ := existing
      have hholds : m₁.Holds env data a := Or.inl ⟨row, hexisting⟩
      simp only
      split
      · rename_i hs
        exact follows_pure ⟨hholds, fun _ => ⟨row, hs, Or.inr (Or.inr ⟨_, hexisting⟩)⟩,
          fun hne => absurd hs hne⟩
      · exact follows_uploadTo hholds

theorem follows_createDatasetVersion (d : ℕ) (data : Bytes) (u : WorkerId) :
    Follows env h (createDatasetVersion env d data u) fun _ _ => True := by
  refine follows_exec_bind trivial fun found m₁ h₁ _ => ?_
  refine follows_check_bind fun _ => ?_
  refine Follows.bind (follows_uploadArtifact data u) fun r m₂ h₂ hr => ?_
  obtain ⟨a, artifact⟩ := r
  refine follows_check_bind fun hb => ?_
  refine follows_exec_bind trivial fun n m₃ h₃ _ => ?_
  have huploaded : m₃.SawUploaded a := (hr.2.1 (of_decide_eq_true hb)).mono h₃
  exact follows_exec_bind huploaded fun _ m₄ h₄ _ => follows_pure trivial

theorem follows_registerVersion (n : ℕ) (a : ArtifactId) (runId : Option RunId) :
    Follows env h (registerVersion n a runId) fun _ _ => True := by
  refine follows_exec_bind trivial fun found m₁ h₁ _ => ?_
  refine follows_check_bind fun _ => ?_
  refine follows_exec_bind trivial fun artifact m₂ h₂ hartifact => ?_
  refine follows_found_bind fun row hrow => ?_
  subst hrow
  refine follows_check_bind fun hb => ?_
  have huploaded : m₂.SawUploaded a := ⟨row, of_decide_eq_true hb, Or.inl hartifact⟩
  refine follows_exec_bind trivial fun existing m₃ h₃ _ => ?_
  refine follows_check_bind fun _ => ?_
  refine follows_exec_bind trivial fun number m₄ h₄ _ => ?_
  exact follows_exec_bind (huploaded.mono fun _ hd => h₄ (h₃ hd))
    fun _ m₅ h₅ _ => follows_pure trivial

theorem follows_reconcile {rows : List (ArtifactId × Artifact)}
    (hrows : h.Answered .listReconcilable rows) {a : ArtifactId} {row : Artifact}
    (hmem : (a, row) ∈ rows) : Follows env h (reconcile a row) fun _ _ => True := by
  refine follows_objectExistsWithHash_bind fun intact m₁ h₁ hintact => ?_
  cases intact with
  | true =>
      refine follows_exec_bind trivial fun size m₂ h₂ _ => ?_
      refine follows_exec_bind ?_ fun result m₃ h₃ _ => follows_pure trivial
      exact ⟨rows, row, hrows.mono fun _ hd => h₂ (h₁ hd), hmem, (hintact rfl).mono h₂⟩
  | false => exact follows_exec_bind trivial fun result m₂ h₂ _ => follows_pure trivial

theorem follows_reconcileAll {rows : List (ArtifactId × Artifact)}
    (hrows : h.Answered .listReconcilable rows) (pending : List (ArtifactId × Artifact))
    (hsub : pending ⊆ rows) (healed failed : ℕ) :
    Follows env h (reconcileAll pending healed failed) fun _ _ => True := by
  induction pending generalizing h healed failed with
  | nil => exact follows_pure trivial
  | cons item rest ih =>
      obtain ⟨a, row⟩ := item
      refine Follows.bind (follows_reconcile hrows (hsub List.mem_cons_self))
        fun counts m h₁ _ => ?_
      exact ih (hrows.mono h₁) (List.subset_of_cons_subset hsub) _ _

theorem follows_reconcilePendingArtifacts :
    Follows env h reconcilePendingArtifacts fun _ _ => True :=
  follows_exec_bind trivial fun pending _ _ hpending =>
    follows_reconcileAll hpending pending (fun _ => id) 0 0

end Uploads

/-! ### The supervisor -/

section Supervise

variable {h : Past} {handled : Past → Dict → Prop} {handle : Dict → Progress → Service Progress}

/-- The event ends the work of the subprocess. -/
def IsFinal (event : Dict) : Prop := event.get? "event" = some (.str "final")

/-- What the supervisor has learnt from the lines so far. -/
structure Past.Handled (h : Past) (handled : Past → Dict → Prop) (lines : List Line)
    (progress : Progress) : Prop where
  events : ∀ e, .json (.obj e) ∈ lines → handled h e
  final : progress.producedFinal = true → ∃ e, .json (.obj e) ∈ lines ∧ IsFinal e

/-- The handler of an event learns what it is for. -/
def Handles (env : Env) (h : Past) (handled : Past → Dict → Prop)
    (handle : Dict → Progress → Service Progress) (executor : Executor) (context : Dict)
    (files : List (String × Bytes)) : Prop :=
  ∀ m event progress, h ⊆ m → m.Reports (handled m) executor context files event →
    Follows env m (handle event progress) fun progress' m' => handled m' event ∧
      (progress'.producedFinal = true → progress.producedFinal = true ∨ IsFinal event)

variable {executor : Executor} {context : Dict} {files : List (String × Bytes)}
  (hmono : ∀ h h' e, h ⊆ h' → handled h e → handled h' e)
  (hhandle : Handles env h handled handle executor context files)

include hmono hhandle

/-- One line, in the state that the lines before it have led to. -/
theorem follows_handleLine {m : Past} (hm : h ⊆ m) {before after : List Line}
    {line : Line} {progress : Progress}
    (hspawn : m.Answered (.spawn executor context files) (before ++ line :: after))
    (hbefore : m.Handled handled before progress) :
    Follows env m (handleLine handle line progress) fun progress' m' =>
      m'.Handled handled (before ++ [line]) progress' := by
  have hskip : (∀ e, line ≠ .json (.obj e)) → m.Handled handled (before ++ [line]) progress := by
    intro hline
    refine ⟨fun e he => ?_, fun hfinal => ?_⟩
    · obtain he | he := List.mem_append.mp he
      · exact hbefore.events e he
      · exact absurd (List.mem_singleton.mp he).symm (hline e)
    · obtain ⟨e, he, hevent⟩ := hbefore.final hfinal
      exact ⟨e, List.mem_append_left _ he, hevent⟩
  unfold handleLine
  split
  · exact follows_pure (hskip fun e he => by cases he)
  · exact follows_pure (hskip fun e he => by cases he)
  · rename_i event
    refine (hhandle m event progress hm ⟨before, after, hspawn, hbefore.events⟩).mono
      fun progress' m' hsub hdone => ⟨fun e he => ?_, fun hfinal => ?_⟩
    · obtain he | he := List.mem_append.mp he
      · exact hmono m m' e hsub (hbefore.events e he)
      · cases List.mem_singleton.mp he
        exact hdone.1
    · obtain hearlier | hevent := hdone.2 hfinal
      · obtain ⟨e, he, hevent⟩ := hbefore.final hearlier
        exact ⟨e, List.mem_append_left _ he, hevent⟩
      · exact ⟨event, List.mem_append_right _ List.mem_cons_self, hevent⟩
  · exact follows_raise
  · exact follows_raise

/-- **The loop over the output**: every line is handled in its turn, or the attempt is abandoned. -/
theorem follows_superviseLines {m : Past} (hm : h ⊆ m) {before lines : List Line}
    {progress : Progress} (hspawn : m.Answered (.spawn executor context files) (before ++ lines))
    (hbefore : m.Handled handled before progress) :
    Follows env m (superviseLines handle lines progress) fun r m' =>
      (r = none → m'.Answered .abandoned true) ∧
        ∀ progress', r = some progress' → m'.Handled handled (before ++ lines) progress' := by
  induction lines generalizing m before progress with
  | nil =>
      refine follows_pure ⟨fun hr => (by cases hr), fun progress' hr => ?_⟩
      cases hr
      rwa [List.append_nil]
  | cons line rest ih =>
      refine follows_exec_bind trivial fun abandoned m₁ h₁ habandoned => ?_
      cases abandoned with
      | true => exact follows_pure ⟨fun _ => habandoned, fun progress' hr => by cases hr⟩
      | false =>
          have hbefore₁ : m₁.Handled handled before progress :=
            ⟨fun e he => hmono m m₁ e h₁ (hbefore.events e he), hbefore.final⟩
          refine Follows.bind (follows_handleLine hmono hhandle (fun _ hd => h₁ (hm hd))
            (hspawn.mono h₁) hbefore₁) fun progress₂ m₂ h₂ hbefore₂ => ?_
          have hlines : before ++ line :: rest = before ++ [line] ++ rest := by simp
          rw [hlines] at hspawn ⊢
          exact ih (fun _ hd => h₂ (h₁ (hm hd))) (hspawn.mono fun _ hd => h₂ (h₁ hd)) hbefore₂

theorem follows_supervise (hspawn : h.Justifies env (.spawn executor context files)) :
    Follows env h (supervise executor context files handle) fun r m =>
      (r = none → m.Answered .abandoned true) ∧
        ∀ progress, r = some progress → ∃ lines,
          m.Answered (.spawn executor context files) lines ∧ m.Handled handled lines progress := by
  refine follows_exec_bind hspawn fun lines m₁ h₁ hlines => ?_
  have hnothing : m₁.Handled handled [] {} :=
    ⟨fun e he => (by cases he), fun hfinal => (by cases hfinal)⟩
  have hall : m₁.Answered (.spawn executor context files) ([] ++ lines) := hlines
  refine Follows.bind (follows_superviseLines hmono hhandle h₁ hall hnothing)
    fun r m₂ h₂ hr => ?_
  cases r with
  | none => exact follows_pure ⟨hr.1, fun progress hp => by cases hp⟩
  | some progress =>
      refine follows_exec_bind trivial fun abandoned m₃ h₃ habandoned => ?_
      cases abandoned with
      | true => exact follows_pure ⟨fun _ => habandoned, fun progress hp => by cases hp⟩
      | false =>
          refine follows_pure ⟨fun hp => (by cases hp), fun progress' hp => ?_⟩
          cases hp
          have hdone := hr.2 progress rfl
          exact ⟨lines, hlines.mono fun _ hd => h₃ (h₂ hd),
            fun e he => hmono m₂ m₃ e h₃ (hdone.events e he), hdone.final⟩

end Supervise

theorem Progress.outcome_eq_succeeded {progress : Progress} {nothing : String} :
    progress.outcome nothing = .succeeded ↔ progress.producedFinal = true := by
  unfold Progress.outcome
  split
  · simp_all
  · split <;> simp_all

/-! ### Training -/

section Training

variable {h : Past} {t : Ticket} {run : TrainingRun}

theorem follows_isCompatible (candidate : Checkpoint) :
    Follows env h (isCompatible run candidate) fun _ _ => True :=
  follows_of_free (Prog.all_mono (fun _ => free_of_inside) (all_isCompatible run candidate))

theorem follows_firstCompatible (candidates : List ((RunId × ℕ × ℤ) × Checkpoint)) :
    Follows env h (firstCompatible run candidates) fun r _ => ∀ step checkpoint,
      r = some (step, checkpoint) → ∃ key, (key, checkpoint) ∈ candidates ∧ key.2.2 = step := by
  induction candidates generalizing h with
  | nil => exact follows_pure fun _ _ hr => by cases hr
  | cons candidate rest ih =>
      refine Follows.bind (follows_isCompatible candidate.2) fun ok m h₁ _ => ?_
      cases ok with
      | true =>
          refine follows_pure fun step checkpoint hr => ?_
          cases hr
          exact ⟨candidate.1, List.mem_cons_self, rfl⟩
      | false =>
          refine ih.mono fun r m' _ hr step checkpoint heq => ?_
          obtain ⟨key, hmem, hstep⟩ := hr step checkpoint heq
          exact ⟨key, List.mem_cons_of_mem _ hmem, hstep⟩

theorem follows_prepareResume (runId : RunId) :
    Follows env h (prepareResume runId run) fun r m => m.Resumes runId r := by
  have hfind : Follows env h (findResumeCheckpoint runId run) fun r m => ∀ step checkpoint,
      r = some (step, checkpoint) → ∃ rows key, m.Answered (.listCheckpoints runId) rows ∧
        (key, checkpoint) ∈ rows ∧ key.2.2 = step := by
    refine follows_exec_bind trivial fun rows m₁ h₁ hrows => ?_
    refine (follows_firstCompatible _).mono fun r m₂ h₂ hr step checkpoint heq => ?_
    obtain ⟨key, hmem, hstep⟩ := hr step checkpoint heq
    exact ⟨rows, key, hrows.mono h₂, (List.mem_insertionSort _).mp hmem, hstep⟩
  refine Follows.bind hfind fun found m₁ h₁ hfound => ?_
  cases found with
  | none => exact follows_pure fun step data heq => by cases heq
  | some found =>
      obtain ⟨step, checkpoint⟩ := found
      obtain ⟨rows, key, hrows, hmem, hstep⟩ := hfound step checkpoint rfl
      refine follows_exec_bind trivial fun artifact m₂ h₂ hartifact => ?_
      refine follows_found_bind fun row hrow => ?_
      subst hrow
      refine follows_exec_bind trivial fun data m₃ h₃ hdata => ?_
      refine follows_pure fun step' data' heq => ?_
      cases heq
      exact ⟨rows, key, checkpoint, row, hrows.mono fun _ hd => h₃ (h₂ hd), hmem, hstep,
        hartifact.mono h₃, hdata⟩

/-- A file that the training subprocess reports is read and uploaded. -/
theorem follows_upload_bind {event : Dict} (hevent : h.TrainingEvent t event)
    {f : ArtifactId × Artifact → Service Unit} {Q : Unit → Past → Prop}
    (hf : ∀ a artifact m, h ⊆ m →
      (artifact.status = .uploaded → m.TrainingFile env t event a) →
      (artifact.status ≠ .uploaded → m.Odd) → Follows env m (f (a, artifact)) Q) :
    Follows env h (do
      let path ← field event "local_path"
      let data ← exec (.readFile path)
      let r ← uploadArtifact env data t.workerId
      f r) Q := by
  refine follows_found_bind fun path hpath => ?_
  have hspawn : ∃ executor context files lines, h.Answered (.spawn executor context files) lines := by
    obtain ⟨_, context, files, _, before, after, hspawn, _⟩ := hevent
    exact ⟨_, _, _, _, hspawn⟩
  refine follows_exec_bind hspawn fun data m₁ h₁ hread => ?_
  refine Follows.bind (follows_uploadArtifact data t.workerId) fun r m₂ h₂ hr => ?_
  obtain ⟨a, artifact⟩ := r
  refine hf a artifact m₂ (fun _ hd => h₂ (h₁ hd)) (fun hs => ?_) hr.2.2
  exact ⟨hevent.mono fun _ hd => h₂ (h₁ hd), data, ⟨path, hpath, hread.mono h₂⟩, hr.1, hr.2.1 hs⟩

theorem follows_uploadAndRegisterCheckpoint {event : Dict} (hevent : h.TrainingEvent t event)
    (hkind : event.get? "event" = some (.str "checkpoint")) :
    Follows env h (uploadAndRegisterCheckpoint env t run event) fun _ _ => True := by
  refine follows_upload_bind hevent fun a artifact m h₁ hfile _ => ?_
  simp only
  split
  · exact follows_pure trivial
  · rename_i hs
    refine follows_found_bind fun step hstep => ?_
    refine follows_exec_bind ?_ fun b m₂ h₂ _ => follows_pure trivial
    exact ⟨event, hfile (not_not.mp hs), hkind, hstep⟩

theorem follows_uploadAndRegisterFinal {event : Dict} (hevent : h.TrainingEvent t event)
    (hkind : IsFinal event) :
    Follows env h (uploadAndRegisterFinal env t event) fun _ m => m.Odd ∨ ∃ a b,
      m.Answered (.registerOutput t.jobId t.workerId t.runId t.attemptNumber a) b := by
  refine follows_upload_bind hevent fun a artifact m h₁ hfile hodd => ?_
  simp only
  split
  · rename_i hs
    exact follows_pure (Or.inl (hodd hs))
  · rename_i hs
    refine follows_exec_bind ⟨event, hfile (not_not.mp hs), hkind⟩ fun b m₂ h₂ hregister => ?_
    exact follows_pure (Or.inr ⟨a, b, hregister⟩)

/-- **The training supervisor's handler.** -/
theorem handles_training {context : Dict} {files : List (String × Bytes)}
    (hstart : h.StartsTraining t run context files) :
    Handles env h (fun m e => m.HandledTraining t e) (handleTrainingEvent env t run) .training
      context files := by
  intro m event progress hsub hreports
  have hevent : m.TrainingEvent t event := ⟨run, context, files, hstart.mono hsub, hreports⟩
  -- an event of another kind than those recorded has nothing to be recorded
  have hother : ∀ {m' : Past}, event.get? "event" ≠ some (.str "metric") → ¬ IsFinal event →
      m'.HandledTraining t event := fun hm hf => ⟨fun h => absurd h hm, fun h => absurd h hf⟩
  unfold handleTrainingEvent
  split
  · rename_i hkind
    refine Follows.bind follows_refresh fun job m₁ h₁ _ => ?_
    exact follows_pure ⟨hother (by rw [hkind]; simp) (by rw [IsFinal, hkind]; simp), Or.inl⟩
  · rename_i hkind
    refine Follows.bind follows_refresh fun job m₁ h₁ _ => ?_
    refine follows_check_bind fun _ => ?_
    exact follows_pure ⟨hother (by rw [hkind]; simp) (by rw [IsFinal, hkind]; simp), Or.inl⟩
  · rename_i hkind
    refine follows_found_bind fun step hstep => ?_
    refine follows_exec_bind ⟨event, hevent, hkind, hstep⟩ fun b m₁ h₁ hrecord => ?_
    refine follows_pure ⟨⟨fun _ => ⟨step, _, b, hstep, hrecord⟩, fun hf => ?_⟩, Or.inl⟩
    rw [hkind] at hf
    simp at hf
  · rename_i hkind
    refine Follows.bind (follows_uploadAndRegisterCheckpoint hevent hkind) fun _ m₁ h₁ _ => ?_
    exact follows_pure ⟨hother (by rw [hkind]; simp) (by rw [IsFinal, hkind]; simp), Or.inl⟩
  · rename_i hkind
    refine Follows.bind (follows_uploadAndRegisterFinal hevent hkind) fun _ m₁ h₁ hfinal => ?_
    refine follows_pure ⟨⟨fun hm => ?_, fun _ => hfinal⟩, fun _ => Or.inr hkind⟩
    rw [hkind] at hm
    simp at hm
  · rename_i hmetric hcheckpoint hfinal
    exact follows_pure ⟨hother hmetric hfinal, Or.inl⟩

theorem follows_runTrainingAttempt (htrains : h.Trains t run) :
    Follows env h (runTrainingAttempt env t run) fun r m =>
      m.Concludes t.jobId t.workerId t.attemptNumber r.1 := by
  refine follows_exec_bind trivial fun _ m₁ h₁ _ => ?_
  refine Follows.bind follows_refresh fun job m₂ h₂ _ => ?_
  refine Follows.bind (follows_prepareResume t.runId) fun resumed m₃ h₃ hresumed => ?_
  refine follows_found_bind fun resources _ => ?_
  have htrains₃ : m₃.Trains t run := htrains.mono fun _ hd => h₃ (h₂ (h₁ hd))
  refine follows_exec_bind ⟨run, resumed, htrains₃, hresumed, rfl⟩ fun b m₄ h₄ hdecision => ?_
  have hstart : m₄.StartsTraining t run (trainingContext t run resources resumed)
      (trainingFiles t resumed) :=
    ⟨htrains₃.mono h₄, resources, resumed, b, hresumed.mono h₄, hdecision, rfl, rfl⟩
  refine Follows.bind (follows_supervise (fun m m' e hsub he => he.mono hsub)
    (handles_training hstart) ⟨fun _ => ⟨t, run, hstart⟩, fun he => by cases he⟩)
    fun r m₅ h₅ hr => ?_
  have hfound : m₅.Answered (.findTrainingRun t.jobId) (some (t.runId, run)) :=
    htrains₃.found.mono fun _ hd => h₅ (h₄ hd)
  cases r with
  | none => exact follows_pure (.training hfound fun hs => by cases hs)
  | some progress =>
      obtain ⟨lines, _, hdone⟩ := hr.2 progress rfl
      refine follows_pure (.training hfound fun hs => ?_)
      obtain ⟨event, hevent, hfinal⟩ := hdone.final (Progress.outcome_eq_succeeded.mp hs)
      exact (hdone.events event hevent).final hfinal

end Training

/-! ### Evaluation -/

section Evaluation

variable {h : Past} {t : Ticket} {run : EvaluationRun}

theorem follows_prepareArtifact (a : Option ArtifactId) :
    Follows env h (prepareArtifact a) fun r m => ∀ file, r = some file →
      ∃ a', a = some a' ∧ m.Fetched a' file := by
  cases a with
  | none => exact follows_pure fun file hr => by cases hr
  | some a =>
      refine follows_exec_bind trivial fun artifact m₁ h₁ hartifact => ?_
      cases artifact with
      | none => exact follows_pure fun file hr => by cases hr
      | some artifact =>
          simp only
          split
          · exact follows_pure fun file hr => by cases hr
          · rename_i hs
            refine Follows.bind (Q := fun r m => m₁ ⊆ m ∧
              ∀ data, r = .ok data → m.Answered (.download artifact.contentHash) data) ?_
              fun r m₂ h₂ hr => follows_pure fun file hfile => ?_
            · refine follows_attempt (Prog.justified_perform trivial fun r => ?_)
              refine ⟨List.subset_cons_self _ _, fun data hdata => ?_⟩
              rw [hdata]
              exact History.answered_cons_self _ _ _
            · cases r with
              | error e => cases hfile
              | ok data =>
                  cases hfile
                  exact ⟨a, rfl, artifact, hartifact.mono h₂, not_not.mp hs, hr.2 data rfl, rfl⟩

/-- The two artifacts have been fetched. -/
def Past.FetchedInputs (h : Past) (run : EvaluationRun) (inputs : EvaluationInputs) : Prop :=
  ∃ version dataset, h.Answered (.getModelVersion run.model) (some version) ∧
    h.Answered (.getDatasetVersion run.dataset) (some dataset) ∧
    h.Fetched version.artifactId inputs.model ∧ h.Fetched dataset inputs.dataset

theorem Past.FetchedInputs.mono {h' : Past} (hsub : h ⊆ h') {inputs : EvaluationInputs}
    (hh : h.FetchedInputs run inputs) : h'.FetchedInputs run inputs := by
  obtain ⟨version, dataset, hversion, hdataset, hmodel, hdata⟩ := hh
  exact ⟨version, dataset, hversion.mono hsub, hdataset.mono hsub, hmodel.mono hsub,
    hdata.mono hsub⟩

theorem follows_prepareInputs : Follows env h (prepareInputs run) fun r m =>
    ∀ inputs, r = .ok inputs → m.FetchedInputs run inputs := by
  refine follows_exec_bind trivial fun version m₁ h₁ hversion => ?_
  refine Follows.bind (follows_prepareArtifact _) fun model m₂ h₂ hmodel => ?_
  cases model with
  | none => exact follows_pure fun inputs hr => by cases hr
  | some model =>
      obtain ⟨a, ha, hmodel⟩ := hmodel model rfl
      obtain ⟨row, rfl, rfl⟩ := Option.map_eq_some_iff.mp ha
      refine follows_exec_bind trivial fun dataset m₃ h₃ hdataset => ?_
      refine Follows.bind (follows_prepareArtifact _) fun file m₄ h₄ hfile => ?_
      cases file with
      | none => exact follows_pure fun inputs hr => by cases hr
      | some file =>
          obtain ⟨a', rfl, hfetched⟩ := hfile file rfl
          refine follows_pure fun inputs hr => ?_
          cases hr
          exact ⟨row, a', hversion.mono fun _ hd => h₄ (h₃ (h₂ hd)), hdataset.mono h₄,
            hmodel.mono fun _ hd => h₄ (h₃ hd), hfetched⟩

/-- **The evaluation supervisor's handler.** -/
theorem handles_evaluation {context : Dict} {files : List (String × Bytes)}
    (hstart : h.StartsEvaluation t run context files) :
    Handles env h (fun m e => m.HandledEvaluation env t e) (handleEvaluationEvent env t) .evaluation
      context files := by
  intro m event progress hsub hreports
  have hevent : m.EvaluationEvent env t event := ⟨run, context, files, hstart.mono hsub, hreports⟩
  have hother : ∀ {m' : Past}, event.get? "event" ≠ some (.str "result") →
      event.get? "event" ≠ some (.str "metric") → m'.HandledEvaluation env t event :=
    fun hr hm => ⟨fun h => absurd h hr, fun h => absurd h hm⟩
  unfold handleEvaluationEvent
  split
  · rename_i hkind
    exact follows_pure ⟨hother (by rw [hkind]; simp) (by rw [hkind]; simp), Or.inl⟩
  · rename_i hkind
    exact follows_pure ⟨hother (by rw [hkind]; simp) (by rw [hkind]; simp), Or.inl⟩
  · rename_i hkind
    refine follows_check_bind fun _ => ?_
    exact follows_pure ⟨hother (by rw [hkind]; simp) (by rw [hkind]; simp), Or.inl⟩
  · rename_i hkind
    refine follows_found_bind fun exampleId hid => ?_
    refine follows_exec_bind ⟨event, exampleId, hevent, hkind, hid, rfl, rfl, rfl, rfl, rfl⟩
      fun b m₁ h₁ hrecord => ?_
    refine follows_pure ⟨⟨fun _ => ⟨exampleId, b, hid, hrecord⟩, fun hm => ?_⟩, Or.inl⟩
    rw [hkind] at hm
    simp at hm
  · rename_i hkind
    refine follows_found_bind fun metricName hname => ?_
    refine follows_found_bind fun metricValue hvalue => ?_
    refine follows_exec_bind ⟨event, hevent, hkind, hname, hvalue, rfl, rfl⟩
      fun b m₁ h₁ hrecord => ?_
    refine follows_pure
      ⟨⟨fun hr => ?_, fun _ => ⟨metricName, metricValue, b, hname, hvalue, hrecord⟩⟩, Or.inl⟩
    rw [hkind] at hr
    simp at hr
  · rename_i hkind
    exact follows_pure ⟨hother (by rw [hkind]; simp) (by rw [hkind]; simp), fun _ => Or.inr hkind⟩
  · rename_i hresult hmetric hfinal
    exact follows_pure ⟨hother hresult hmetric, Or.inl⟩

/-- What `mark_status` has answered. -/
theorem marked_or_fencedOut {status : RunStatus} {setCompleted b : Bool}
    (hmark : h.Answered (.markRunStatus t.runId t.jobId t.workerId t.attemptNumber status
      setCompleted) b) : h.Marked t status ∨ h.FencedOut t := by
  cases b with
  | true => exact Or.inl ⟨setCompleted, hmark⟩
  | false => exact Or.inr (Or.inl ⟨status, setCompleted, hmark⟩)

/-- What stands behind the outcome of an evaluation. -/
def Past.Ended (h : Past) (t : Ticket) (outcome : AttemptOutcome) : Prop :=
  (outcome = .succeeded → h.Marked t .succeeded) ∧
    (outcome ≠ .succeeded → h.Marked t .failed ∨ h.FencedOut t)

theorem Past.Ended.fencedOut (hfenced : h.FencedOut t) : h.Ended t fencedOutOutcome :=
  ⟨fun hs => (by cases hs), fun _ => Or.inr hfenced⟩

theorem follows_failRun (hevaluates : h.Evaluates t run) {outcome : AttemptOutcome}
    (houtcome : outcome ≠ .succeeded) :
    Follows env h (failRun t outcome) fun r m => m.Ended t r := by
  refine follows_exec_bind ⟨⟨run, hevaluates⟩, by decide, fun hs => by cases hs⟩
    fun b m₁ h₁ hmark => ?_
  exact follows_pure ⟨fun hs => absurd hs houtcome, fun _ => marked_or_fencedOut hmark⟩

theorem follows_concludeEvaluation (hevaluates : h.Evaluates t run) {progress : Progress}
    (hdone : progress.producedFinal = true → h.Evaluated env t) :
    Follows env h (concludeEvaluation t progress) fun r m => m.Ended t r := by
  unfold concludeEvaluation
  split
  · rename_i hfinal
    refine follows_exec_bind ⟨⟨run, hevaluates⟩, by decide, fun _ => hdone hfinal⟩
      fun b m₁ h₁ hmark => ?_
    cases b with
    | true => exact follows_pure ⟨fun _ => ⟨true, hmark⟩, fun hs => absurd rfl hs⟩
    | false => exact follows_pure (.fencedOut (Or.inl ⟨_, _, hmark⟩))
  · rename_i hfinal
    refine follows_failRun hevaluates fun hs => ?_
    exact hfinal (Progress.outcome_eq_succeeded.mp hs)

theorem follows_runEvaluationAttempt (hevaluates : h.Evaluates t run) :
    Follows env h (runEvaluationAttempt env t run) fun r m => m.Ended t r := by
  refine follows_exec_bind trivial fun _ m₁ h₁ _ => ?_
  refine Follows.bind follows_refresh fun job m₂ h₂ _ => ?_
  refine follows_exec_bind trivial fun config m₃ h₃ hconfig => ?_
  refine Follows.bind follows_prepareInputs fun inputs m₄ h₄ hinputs => ?_
  have hevaluates₄ : m₄.Evaluates t run := hevaluates.mono fun _ hd => h₄ (h₃ (h₂ (h₁ hd)))
  cases inputs with
  | error message => exact follows_failRun hevaluates₄ fun hs => by cases hs
  | ok inputs =>
      obtain ⟨version, dataset, hversion, hdataset, hmodel, hdata⟩ := hinputs inputs rfl
      refine follows_found_bind fun resources _ => ?_
      refine follows_exec_bind ⟨⟨run, hevaluates₄⟩, by decide, fun hs => by cases hs⟩
        fun marked m₅ h₅ hmark => ?_
      cases marked with
      | false => exact follows_pure (.fencedOut (Or.inl ⟨_, _, hmark⟩))
      | true =>
          have hstart : m₅.StartsEvaluation t run (evaluationContext t config resources inputs)
              (evaluationFiles t inputs) :=
            Past.StartsEvaluation.mono h₅ ⟨hevaluates₄, config, resources, inputs, version, dataset,
              hconfig.mono h₄, hversion, hdataset, hmodel, hdata, rfl, rfl⟩
          refine Follows.bind (follows_supervise (fun m m' e hsub he => he.mono hsub)
            (handles_evaluation hstart) ⟨fun he => (by cases he), fun _ => ⟨t, run, hstart⟩⟩)
            fun r m₆ h₆ hr => ?_
          cases r with
          | none => exact follows_pure (.fencedOut (Or.inr (hr.1 rfl)))
          | some progress =>
              obtain ⟨lines, hspawn, hdone⟩ := hr.2 progress rfl
              refine follows_concludeEvaluation (hstart.mono h₆).evaluates fun hfinal => ?_
              exact ⟨run, _, _, lines, hstart.mono h₆, hspawn, hdone.events, hdone.final hfinal⟩

end Evaluation

/-! ### The worker -/

section Worker

variable {h : Past} {j : JobId} {w : WorkerId} {k : ℕ}

/-- **The body of an attempt.** -/
theorem follows_runBody (hattempts : h.Attempts j w k) :
    Follows env h (runBody env j w k) fun r m => m.Concludes j w k r.1 := by
  refine follows_exec_bind trivial fun training m₁ h₁ htraining => ?_
  cases training with
  | some run =>
      obtain ⟨runId, run⟩ := run
      exact follows_runTrainingAttempt (t := ⟨j, w, k, runId⟩) ⟨hattempts.mono h₁, htraining⟩
  | none =>
      refine follows_exec_bind trivial fun evaluation m₂ h₂ hevaluation => ?_
      cases evaluation with
      | some run =>
          obtain ⟨runId, run⟩ := run
          refine Follows.bind (follows_runEvaluationAttempt (t := ⟨j, w, k, runId⟩)
            ⟨hattempts.mono fun _ hd => h₂ (h₁ hd), hevaluation⟩) fun outcome m₃ h₃ hended => ?_
          exact follows_pure (.evaluation (htraining.mono fun _ hd => h₃ (h₂ hd))
            (hevaluation.mono h₃) hended.1 hended.2)
      | none =>
          have hsimulated : ∀ {m : Past} (outcome : AttemptOutcome), m₂ ⊆ m →
              m.Concludes j w k outcome := fun _ hsub =>
            .simulated (htraining.mono fun _ hd => hsub (h₂ hd)) (hevaluation.mono hsub)
          refine follows_exec_bind trivial fun _ m₃ h₃ _ => ?_
          refine Follows.bind follows_refresh fun job m₄ h₄ _ => ?_
          refine Follows.bind (follows_of_free (all_sleep _)) fun _ m₅ h₅ _ => ?_
          exact follows_pure (hsimulated _ fun _ hd => h₅ (h₄ (h₃ hd)))

theorem follows_endingOf (outcome : AttemptOutcome) :
    Follows env h (endingOf env k outcome) fun ending _ =>
      (ending = .succeeded → outcome = .succeeded) ∧
        ∀ message classification domain, ending = .failed message classification domain →
          outcome ≠ .succeeded := by
  cases outcome with
  | succeeded => exact follows_pure ⟨fun _ => rfl, fun _ _ _ he => by cases he⟩
  | failed message classification domain =>
      simp only [endingOf]
      split
      · refine follows_exec_bind trivial fun at₀ m₁ h₁ _ => follows_pure ⟨fun he => ?_, ?_⟩
        · cases he
        · exact fun _ _ _ he => by cases he
      · exact follows_pure ⟨fun he => (by cases he), fun _ _ _ _ hs => by cases hs⟩

theorem follows_conclude (hattempts : h.Attempts j w k) {outcome : AttemptOutcome}
    (hconcludes : h.Concludes j w k outcome) (loaded : Option Job) :
    Follows env h (conclude env j w k outcome loaded) fun _ _ => True := by
  have hfinish : ∀ {m : Past} (ending : Ending), h ⊆ m →
      (ending = .succeeded → outcome = .succeeded) →
      (∀ message classification domain, ending = .failed message classification domain →
        outcome ≠ .succeeded) → Follows env m (finish j w k ending) fun _ _ => True := by
    intro m ending hsub hsucceeded hfailed
    refine follows_exec_bind ⟨hattempts.mono hsub, outcome, hconcludes.mono hsub, hsucceeded,
      hfailed⟩ fun b m₁ h₁ _ => ?_
    cases b <;> exact follows_pure trivial
  refine follows_exec_bind trivial fun abandoned m₁ h₁ _ => ?_
  cases abandoned with
  | true => exact follows_pure trivial
  | false =>
      refine follows_exec_bind trivial fun row m₂ h₂ _ => ?_
      split
      · exact hfinish _ (fun _ hd => h₂ (h₁ hd)) (fun he => by cases he) fun _ _ _ he => by cases he
      · refine Follows.bind (follows_endingOf outcome) fun ending m₃ h₃ hending => ?_
        exact hfinish ending (fun _ hd => h₃ (h₂ (h₁ hd))) hending.1 hending.2

theorem follows_processJobMessage (j : JobId) (w : WorkerId) :
    Follows env h (processJobMessage env j w) fun _ _ => True := by
  refine follows_exec_bind trivial fun matched m₁ h₁ hclaim => ?_
  refine Follows.bind (Q := fun job m => ∀ row, job = some row →
    m.Answered (.claim j w) true ∧ m.Answered (.getJob j) (some row)) ?_ fun job m₂ h₂ hjob => ?_
  · cases matched with
    | false => exact follows_pure fun row hr => by cases hr
    | true =>
        refine follows_exec trivial fun job m₂ h₂ hjob row hrow => ?_
        subst hrow
        exact ⟨hclaim.mono h₂, hjob⟩
  · cases job with
    | none => exact follows_pure trivial
    | some job =>
        obtain ⟨hclaimed, hread⟩ := hjob job rfl
        refine follows_exec_bind ⟨w, job, hclaimed, hread, rfl⟩ fun _ m₃ h₃ hinsert => ?_
        have hattempts : m₃.Attempts j w job.attemptNumber :=
          ⟨hclaimed.mono h₃, ⟨job, hread.mono h₃, rfl⟩, hinsert⟩
        refine follows_exec_bind hattempts fun _ m₄ h₄ _ => ?_
        have hattempts₄ := hattempts.mono h₄
        refine Follows.bind (Q := fun r m => m₄ ⊆ m ∧ m.Concludes j w job.attemptNumber r.1) ?_
          fun r m₅ h₅ hr => ?_
        · refine Prog.justified_ensuring (follows_runBody hattempts₄) fun r m hm => ?_
          refine Prog.justified_perform trivial fun o => ?_
          refine ⟨fun _ hd => List.mem_cons_of_mem _ (hm.1 hd), fun a ha => ?_⟩
          cases o with
          | error e => cases ha
          | ok u =>
              have hr : r = .ok a := ha
              exact ⟨fun _ hd => List.mem_cons_of_mem _ (hm.1 hd),
                (hm.2 a hr).mono (List.subset_cons_self _ _)⟩
        · obtain ⟨outcome, loaded⟩ := r
          exact follows_conclude (hattempts₄.mono h₅) hr.2 loaded

end Worker

/-! ### All calls -/

theorem follows_checkNullableVersion {h : Past} (v : NullableVersionRef) :
    Follows env h (checkNullableVersion v) fun _ m => m.FoundVersion v := by
  obtain ⟨m, n⟩ := v
  cases m with
  | none => exact follows_pure fun m hm => by cases hm
  | some m =>
      cases n with
      | none => exact follows_raise
      | some n =>
          refine follows_exec_bind trivial fun version m₁ h₁ hversion => ?_
          refine follows_found_bind fun row hrow => follows_pure fun m' hm' => ?_
          cases hm'
          rw [hrow] at hversion
          exact ⟨n, row, rfl, hversion⟩

theorem follows_createTrainingRun {h : Past} (payload : TrainingRunCreate) :
    Follows env h (createTrainingRun payload) fun _ _ => True := by
  refine Follows.bind (Q := fun _ m => m.FoundVersion payload.baseModel) ?_ fun _ m₁ h₁ hbase => ?_
  · refine follows_exec_bind trivial fun version m₀ h₀ _ => ?_
    exact follows_found_bind fun _ _ => follows_checkNullableVersion _
  · refine follows_exec_bind trivial fun j m₂ h₂ hcreated => ?_
    exact follows_exec ⟨⟨_, _, _, hcreated⟩, hbase.mono h₂⟩ fun _ _ _ _ => trivial

theorem follows_createEvaluation {h : Past} (payload : EvaluationCreate) :
    Follows env h (createEvaluation payload) fun _ _ => True := by
  refine Follows.bind (follows_of_free (Prog.all_mono (fun _ => free_of_inside)
    (all_checkEvaluation payload))) fun _ m₁ h₁ _ => ?_
  refine follows_exec_bind trivial fun j m₂ h₂ hcreated => ?_
  exact follows_exec ⟨rfl, _, _, _, hcreated⟩ fun _ _ _ _ => trivial

/-- Whoever neither uploads nor registers nor works needs nothing behind its statements. -/
theorem free_of_role {op : Op} {ρ : Role} (hρ : ρ ∈ [Role.plain, .reserve, .patch])
    {δ : Duty} (hδ : δ ≠ .worker) (hop : op.Inside ρ δ) : op.Free := by
  intro env h
  have hrole : op.role = .plain ∨ op.role = .reserve ∨ op.role = .patch := by
    obtain hplain | hcovers := hop.1
    · exact Or.inl hplain
    · simp only [List.mem_cons, List.not_mem_nil, or_false] at hρ
      obtain rfl | rfl | rfl := hρ
      · exact Or.inl (by simpa [Role.covers] using hcovers)
      · exact Or.inr (Or.inl (by simpa [Role.covers] using hcovers))
      · exact Or.inr (Or.inr (by simpa [Role.covers] using hcovers))
  have hduty : op.duty ≠ .worker := by
    obtain hd | hd := hop.2
    · rw [hd]
      decide
    · rwa [hd]
  cases op <;> simp [Op.role, Op.duty] at hrole hduty <;> trivial

/-- **Every call executes only justified statements.** -/
theorem justified_program (env : Env) (call : Call) :
    (call.program env).Justified (Past.Justifies env) [] fun _ _ => True := by
  have hreply : ∀ {α : Type} {p : Service α} {f : α → Service Reply},
      Follows env [] p (fun _ _ => True) → (∀ a, ∃ r, f a = pure r) →
        (p >>= f).Justified (Past.Justifies env) [] fun _ _ => True := by
    intro α p f hp hf
    refine Prog.Justified.mono (Follows.bind (R := fun _ _ => True) hp fun a m _ _ => ?_)
      fun _ _ _ => trivial
    obtain ⟨r, hr⟩ := hf a
    rw [hr]
    exact follows_pure trivial
  have hfree : ∀ {α : Type} {p : Service α} {f : α → Service Reply}, p.All Op.Free →
      (∀ a, ∃ r, f a = pure r) →
        (p >>= f).Justified (Past.Justifies env) [] fun _ _ => True :=
    fun hp hf => hreply (follows_of_free hp) hf
  cases call with
  | createJob payload => exact hfree (Prog.all_perform.mpr fun _ _ => trivial) fun a => ⟨_, rfl⟩
  | createTrainingRun payload => exact hreply (follows_createTrainingRun payload) fun a => ⟨_, rfl⟩
  | createEvaluation payload => exact hreply (follows_createEvaluation payload) fun a => ⟨_, rfl⟩
  | processJobMessage j w => exact hreply (follows_processJobMessage j w) fun a => ⟨_, rfl⟩
  | workerRunOnce w =>
      refine hreply ?_ fun a => ⟨_, rfl⟩
      refine follows_exec_bind trivial fun message m₁ h₁ _ => ?_
      cases message with
      | none => exact follows_pure trivial
      | some message =>
          refine Follows.bind (follows_attempt (Q := fun _ _ => True)
            (Prog.Justified.mono (follows_processJobMessage _ w) fun _ _ _ => trivial))
            fun _ m₂ h₂ _ => ?_
          exact follows_exec trivial fun _ _ _ _ => trivial
  | uploadArtifact data uploader =>
      refine hreply ?_ fun a => ⟨_, rfl⟩
      exact (follows_uploadArtifact data uploader).mono fun _ _ _ _ => trivial
  | reconcileOnce => exact hreply follows_reconcilePendingArtifacts fun a => ⟨_, rfl⟩
  | createDatasetVersion d data uploader =>
      exact hreply (follows_createDatasetVersion d data uploader) fun a => ⟨_, rfl⟩
  | registerVersion m a runId => exact hreply (follows_registerVersion m a runId) fun a => ⟨_, rfl⟩
  | updateJob | cancelJob | deleteJob | schedulerRunOnce | recoveryRunOnce | relayOnce
  | renewUploadLease | createDataset | createModel | evaluateQualityGate =>
      refine Prog.Justified.mono (follows_of_free (Prog.all_mono (fun op hop => ?_)
        (inside_program env _))) fun _ _ _ => trivial
      exact free_of_role (by simp [Call.role]) (by simp [Call.duty]) hop

end PosttrainPlatform
