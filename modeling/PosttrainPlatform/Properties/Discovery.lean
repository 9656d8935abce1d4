import Mathlib.Data.Prod.Lex
import PosttrainPlatform.Lib.Selection
import PosttrainPlatform.Properties.Alone
import PosttrainPlatform.Properties.Storage

/-!
# Checkpoint discovery

The candidates are ordered by step, attempt and creation time.  `find_resume_checkpoint` is a search
of the ordered candidates for the first one that passes the compatibility rules, and so finds the
greatest one that does.
-/

namespace PosttrainPlatform

open Programs Service

/-- A checkpoint with its key. -/
abbrev ResumeCandidate := (RunId × ℕ × ℤ) × Checkpoint

/-! ### The order of the candidates -/

/-- The place of a checkpoint: step, then attempt, then creation time. -/
def ResumeCandidate.place (c : ResumeCandidate) : ℤ ×ₗ ℕ ×ₗ Time :=
  toLex (c.1.2.2, toLex (c.1.2.1, c.2.createdAt))

/-- The query lists greater places first. -/
theorem resumesBefore_iff {a b : ResumeCandidate} :
    ResumesBefore a b ↔ ResumeCandidate.place b ≤ ResumeCandidate.place a := by
  unfold ResumesBefore ResumeCandidate.place
  rw [Prod.Lex.toLex_le_toLex, Prod.Lex.toLex_le_toLex]
  refine or_congr Iff.rfl (and_congr eq_comm (or_congr Iff.rfl (and_congr eq_comm Iff.rfl)))

instance total_resumesBefore : Std.Total ResumesBefore where
  total a b := by
    rw [resumesBefore_iff, resumesBefore_iff]
    exact le_total _ _

instance trans_resumesBefore : IsTrans ResumeCandidate ResumesBefore where
  trans a b c hab hbc := by
    rw [resumesBefore_iff] at *
    exact hbc.trans hab

/-- Two checkpoints of a run at one place have one key. -/
theorem key_of_place {a b : ResumeCandidate} (hrun : a.1.1 = b.1.1)
    (h : ResumeCandidate.place a = ResumeCandidate.place b) : a.1 = b.1 := by
  obtain ⟨hstep, hrest⟩ := Prod.mk.inj (toLex.injective h)
  obtain ⟨hattempt, _⟩ := Prod.mk.inj (toLex.injective hrest)
  exact Prod.ext hrun (Prod.ext hattempt hstep)

/-! ### The compatibility rules -/

/-- The rules of `_is_compatible`: the artifact is UPLOADED, its stored bytes have its content hash,
and the checkpoint has the base model of the run and the supported format. -/
structure Compatible (env : Env) (s : World) (run : TrainingRun) (row : Checkpoint) : Prop where
  content : ∃ artifact, s.db.artifacts.lookup row.artifactId = some artifact ∧
    artifact.status = .uploaded ∧ s.store.Intact env artifact.contentHash
  baseModel : row.baseModel = run.baseModel
  format : row.checkpointFormatVersion = supportedCheckpointFormatVersion

/-- The checkpoint is one of the run, and compatible. -/
structure Resumable (env : Env) (s : World) (runId : RunId) (run : TrainingRun) (c : ResumeCandidate) :
    Prop where
  stored : s.db.checkpoints.lookup c.1 = some c.2
  own : c.1.1 = runId
  compatible : Compatible env s run c.2

/-- What `_is_compatible` answers. -/
def World.accepts (env : Env) (s : World) (run : TrainingRun) (row : Checkpoint) : Bool :=
  (s.db.artifacts.lookup row.artifactId).any fun artifact =>
    decide (artifact.status = .uploaded) &&
      (s.store.objectExistsWithHash env artifact.contentHash artifact.contentHash &&
        decide (row.baseModel = run.baseModel) &&
        decide (row.checkpointFormatVersion = supportedCheckpointFormatVersion))

theorem objectExistsWithHash_iff {env : Env} {store : Store} {key : Hash} :
    store.objectExistsWithHash env key key = true ↔ store.Intact env key := by
  unfold Store.objectExistsWithHash Store.Intact
  cases store.lookup key with
  | none => simp
  | some data => simp

theorem accepts_iff {env : Env} {s : World} {run : TrainingRun} {row : Checkpoint} :
    s.accepts env run row = true ↔ Compatible env s run row := by
  unfold World.accepts
  rw [Option.any_eq_true]
  simp only [Bool.and_eq_true, decide_eq_true_eq, objectExistsWithHash_iff]
  constructor
  · rintro ⟨artifact, hartifact, hs, ⟨hintact, hbase⟩, hformat⟩
    exact ⟨⟨artifact, hartifact, hs, hintact⟩, hbase, hformat⟩
  · rintro ⟨⟨artifact, hartifact, hs, hintact⟩, hbase, hformat⟩
    exact ⟨artifact, hartifact, hs, ⟨hintact, hbase⟩, hformat⟩

/-! ### The search -/

section Alone

variable {env : Env} {p : ℕ} {supply : Supply} {s : World} {runId : RunId} {run : TrainingRun}

theorem objectExistsWithHash_alone {α : Type} {key expected : Hash} (f : Bool → Service α) :
    evalAlone env p supply (objectExistsWithHash key expected >>= f) s =
      evalAlone env p supply (f (s.store.objectExistsWithHash env key expected)) s := rfl

theorem isCompatible_alone {α : Type} (row : Checkpoint) (f : Bool → Service α) :
    evalAlone env p supply (isCompatible run row >>= f) s =
      evalAlone env p supply (f (s.accepts env run row)) s := by
  unfold isCompatible World.accepts
  simp only [Prog.bind_assoc]
  refine (evalAlone_read rfl).trans ?_
  cases s.db.artifacts.lookup row.artifactId with
  | none => rfl
  | some artifact =>
      simp only [Option.any_some]
      split
      · rename_i hs
        rw [decide_eq_false hs]
        rfl
      · rename_i hs
        rw [decide_eq_true (not_not.mp hs), Prog.bind_assoc]
        exact objectExistsWithHash_alone _

theorem firstCompatible_alone (candidates : List ResumeCandidate) :
    evalAlone env p supply (firstCompatible run candidates) s =
      (.ok ((candidates.find? fun c => s.accepts env run c.2).map fun c => (c.1.2.2, c.2)), s) := by
  induction candidates with
  | nil => rfl
  | cons candidate rest ih =>
      refine (isCompatible_alone candidate.2 _).trans ?_
      rw [List.find?_cons]
      cases s.accepts env run candidate.2 with
      | true => rfl
      | false => exact ih

/-- The candidates of the run. -/
def Db.candidates (db : Db) (runId : RunId) : List ResumeCandidate :=
  db.checkpoints.rows.filter fun c => c.1.1 = runId

theorem mem_candidates {db : Db} {c : ResumeCandidate} :
    c ∈ db.candidates runId ↔ db.checkpoints.lookup c.1 = some c.2 ∧ c.1.1 = runId := by
  unfold Db.candidates
  rw [List.mem_filter, ← Table.mem_rows, decide_eq_true_eq]

/-- The checkpoint that the search finds. -/
def World.resumeCheckpoint (env : Env) (s : World) (runId : RunId) (run : TrainingRun) :
    Option ResumeCandidate :=
  Selection.best ResumesBefore (fun c => s.accepts env run c.2) (s.db.candidates runId)

/-- **Discovery is the search of the ordered candidates.** -/
theorem findResumeCheckpoint_alone :
    evalAlone env p supply (findResumeCheckpoint runId run) s =
      (.ok ((s.resumeCheckpoint env runId run).map fun c => (c.1.2.2, c.2)), s) :=
  (evalAlone_read rfl).trans (firstCompatible_alone _)

theorem resumable_iff {c : ResumeCandidate} : Resumable env s runId run c ↔
    c ∈ s.db.candidates runId ∧ s.accepts env run c.2 = true := by
  rw [mem_candidates, accepts_iff]
  exact ⟨fun h => ⟨⟨h.stored, h.own⟩, h.compatible⟩, fun h => ⟨h.1.1, h.1.2, h.2⟩⟩

/-- **It is the greatest compatible checkpoint of the run.** -/
theorem resumeCheckpoint_eq_some {c : ResumeCandidate} : s.resumeCheckpoint env runId run = some c ↔
    Resumable env s runId run c ∧
      ∀ c', Resumable env s runId run c' → ResumeCandidate.place c' ≤ ResumeCandidate.place c := by
  have hkeys : ∀ a ∈ s.db.candidates runId, ∀ b ∈ s.db.candidates runId,
      ResumesBefore a b → ResumesBefore b a → a = b := by
    intro a ha b hb hab hba
    obtain ⟨hrow, hrun⟩ := mem_candidates.mp ha
    obtain ⟨hrow', hrun'⟩ := mem_candidates.mp hb
    have hplace := le_antisymm (resumesBefore_iff.mp hba) (resumesBefore_iff.mp hab)
    have hkey := key_of_place (hrun.trans hrun'.symm) hplace
    rw [hkey, hrow'] at hrow
    exact Prod.ext hkey (Option.some.inj hrow).symm
  unfold World.resumeCheckpoint
  rw [Selection.best_eq_some hkeys, resumable_iff, and_assoc]
  refine and_congr Iff.rfl (and_congr Iff.rfl ⟨fun h c' hc' => ?_, fun h c' hc' hp => ?_⟩)
  · obtain ⟨hmem, hp⟩ := resumable_iff.mp hc'
    exact resumesBefore_iff.mp (h c' hmem hp)
  · exact resumesBefore_iff.mpr (h c' (resumable_iff.mpr ⟨hc', hp⟩))

/-- **There is none exactly if no checkpoint of the run is compatible.** -/
theorem resumeCheckpoint_eq_none : s.resumeCheckpoint env runId run = none ↔
    ∀ c, ¬ Resumable env s runId run c := by
  unfold World.resumeCheckpoint
  rw [Selection.best_eq_none]
  simp only [resumable_iff, not_and, Bool.not_eq_true]

end Alone

end PosttrainPlatform
