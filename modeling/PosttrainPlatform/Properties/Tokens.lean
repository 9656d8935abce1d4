import PosttrainPlatform.Properties.Lifecycle

/-!
# The fencing token of a claim

`claim` commits its `UPDATE` and reads the row again to return it.  The token that the caller works
with is the attempt number of that read.  It is the one that the `UPDATE` has written exactly if no
other claim of the job takes effect in between.
-/

namespace PosttrainPlatform

open Programs

/-- The statement reads job `j` again. -/
def Op.rereads (j : JobId) : Op → Bool
  | .getJob i => i == j
  | _ => false

/-- **A claim call that takes effect and returns**, in a run that starts in `c₀`: its `UPDATE`, the
events until its read, and the read. -/
structure ClaimCall {env : Env} (c₀ : System env) (es : List (SysEvent env)) (j : JobId) where
  before : List (SysEvent env)
  thread : ℕ
  update : Input
  between : List (SysEvent env)
  read : Input
  found : System env
  updated : System env
  reread : System env
  row : Job
  splits : before ++ .step thread update :: (between ++ [.step thread read]) <+: es
  reaches : Runs.runFrom Config.step c₀ before = some found
  claims : ClaimsJob j found (.step thread update) = true
  updates : found.step (.step thread update) = some updated
  waits : ∀ e ∈ between, e.thread ≠ some thread
  pauses : Runs.runFrom Config.step updated between = some reread
  reads : (reread.pending thread).any (Op.rereads j) = true
  returns : JobsRepo.get reread.shared.db j = some row

namespace ClaimCall

variable {env : Env} {c₀ : System env} {es : List (SysEvent env)} {j : JobId}

/-- The attempt number that the `UPDATE` writes. -/
def written (x : ClaimCall c₀ es j) : ℕ := x.updated.shared.db.attemptsOf j

/-- The attempt number that the call returns. -/
def token (x : ClaimCall c₀ es j) : ℕ := x.row.attemptNumber

/-- No claim of the job takes effect between the `UPDATE` and the read. -/
def Undisturbed (x : ClaimCall c₀ es j) : Prop :=
  Runs.Always Config.step (fun c e => ClaimsJob j c e = false) x.updated x.between

theorem written_eq (x : ClaimCall c₀ es j) : x.written = x.found.shared.db.attemptsOf j + 1 := by
  have hstep := (lifeStep_of_step x.updates).attemptsOf j
  rw [x.claims] at hstep
  exact hstep

/-- **The token is ahead of the written number by the claims in between.** -/
theorem token_eq (x : ClaimCall c₀ es j) :
    x.token = x.written + Runs.tally Config.step (ClaimsJob j) x.updated x.between := by
  have hcount := attempts_counted x.pauses j
  have hrow : x.reread.shared.db.attemptsOf j = x.row.attemptNumber := by
    have hj := (Option.filter_eq_some_iff.mp x.returns).1
    unfold Db.attemptsOf
    rw [hj]
    rfl
  rw [hrow] at hcount
  exact hcount

/-- **A call returns what it has written exactly if it is undisturbed.** -/
theorem token_eq_written_iff (x : ClaimCall c₀ es j) : x.token = x.written ↔ x.Undisturbed := by
  rw [x.token_eq, Nat.add_eq_left]
  exact Runs.tally_eq_zero x.pauses

/-- A later claim of the job writes a larger number. -/
theorem written_lt_of_prefix (x y : ClaimCall c₀ es j)
    (h : x.before ++ [.step x.thread x.update] <+: y.before) : x.written < y.written := by
  obtain ⟨gs, hgs⟩ := h
  have hreach := y.reaches
  rw [← hgs] at hreach
  obtain ⟨m, hm, hrest⟩ := Runs.runFrom_append.mp hreach
  obtain ⟨found, hfound, hlast⟩ := Runs.runFrom_append.mp hm
  have hsame : found = x.found := Option.some.inj (hfound.symm.trans x.reaches)
  subst hsame
  obtain ⟨updated, hupdated, hnil⟩ := Runs.runFrom_cons.mp hlast
  cases hnil
  have hsame : m = x.updated := Option.some.inj (hupdated.symm.trans x.updates)
  subst hsame
  have hcount := attempts_counted hrest j
  have hy := y.written_eq
  show x.updated.shared.db.attemptsOf j < y.written
  omega

/-- Two calls whose claims are different events write different numbers. -/
theorem written_ne (x y : ClaimCall c₀ es j) (h : y.before ≠ x.before) : y.written ≠ x.written := by
  have hcut : ∀ z : ClaimCall c₀ es j, z.before ++ [.step z.thread z.update] <+: es := by
    intro z
    apply List.IsPrefix.trans ?_ z.splits
    exact ⟨z.between ++ [.step z.thread z.read], by simp⟩
  have hbefore : ∀ z : ClaimCall c₀ es j, z.before <+: es := fun z =>
    (List.prefix_append _ _).trans (hcut z)
  rcases Nat.lt_trichotomy x.before.length y.before.length with hlt | heq | hlt
  · apply Nat.ne_of_gt
    apply x.written_lt_of_prefix y
    apply List.prefix_of_prefix_length_le (hcut x) (hbefore y)
    rw [List.length_append, List.length_singleton]
    omega
  · exact absurd ((List.prefix_of_prefix_length_le (hbefore y) (hbefore x) heq.ge).eq_of_length heq.symm)
      h
  · apply Nat.ne_of_lt
    apply y.written_lt_of_prefix x
    apply List.prefix_of_prefix_length_le (hcut y) (hbefore x)
    rw [List.length_append, List.length_singleton]
    omega

end ClaimCall

/-- **Every claim call of a run returns the number it has written, and no two calls on a job return
the same one, exactly if no claim of the job takes effect between the `UPDATE` and the read of
another.** -/
theorem claim_tokens_unique_iff {env : Env} (c₀ : System env) (es : List (SysEvent env)) :
    (∀ j (x : ClaimCall c₀ es j), x.token = x.written ∧
      ∀ y : ClaimCall c₀ es j, y.before ≠ x.before → y.token ≠ x.token) ↔
      ∀ j (x : ClaimCall c₀ es j), x.Undisturbed := by
  constructor
  · intro h j x
    exact x.token_eq_written_iff.mp (h j x).1
  · intro h j x
    have hown : ∀ z : ClaimCall c₀ es j, z.token = z.written := fun z =>
      z.token_eq_written_iff.mpr (h j z)
    refine ⟨hown x, fun y hne => ?_⟩
    rw [hown x, hown y]
    exact x.written_ne y hne

/-- A claim call from what executing its parts shows. -/
theorem exists_claimCall {env : Env} (c₀ : System env) (es : List (SysEvent env)) (j : JobId)
    (before : List (SysEvent env)) (thread : ℕ) (update : Input) (between : List (SysEvent env))
    (read : Input) {P : System env → Job → Prop}
    (hsplit : ∃ rest, before ++ .step thread update :: (between ++ [.step thread read]) ++ rest = es)
    (hwait : ∀ e ∈ between, e.thread ≠ some thread)
    (h : ∃ found ∈ Runs.runFrom Config.step c₀ before,
      ClaimsJob j found (.step thread update) = true ∧
        ∃ updated ∈ found.step (.step thread update),
          ∃ reread ∈ Runs.runFrom Config.step updated between,
            (reread.pending thread).any (Op.rereads j) = true ∧
              ∃ row ∈ JobsRepo.get reread.shared.db j, P updated row) :
    ∃ x : ClaimCall c₀ es j, x.before = before ∧ P x.updated x.row := by
  obtain ⟨found, hfound, hclaims, updated, hupdated, reread, hreread, hreads, row, hrow, hP⟩ := h
  exact ⟨{ before, thread, update, between, read, found, updated, reread, row, splits := hsplit,
           reaches := hfound, claims := hclaims, updates := hupdated, waits := hwait,
           pauses := hreread, reads := hreads, returns := hrow }, rfl, hP⟩

/-- Worker 7 has claimed job 1. -/
def firstUpdate : List (SysEvent Env.standard) := admitJob noop ++ [.start 2 (.processJobMessage 1 7)]

/-- While worker 7 pauses before its read, its lease is reclaimed and the job is admitted again. -/
def pause : List (SysEvent Env.standard) :=
  session 3 .recoveryRunOnce 4 { now := 31 } ++ session 4 .schedulerRunOnce 8 { now := 40 } ++
    [.start 5 (.processJobMessage 1 8)]

/-- Worker 8 claims and reads, and then worker 7 reads. -/
def secondClaim : List (SysEvent Env.standard) := proceed 5 2 { now := 40 }

def tokenShared : List (SysEvent Env.standard) :=
  firstUpdate ++ .step 2 {} :: (pause ++ secondClaim ++ [.step 2 { now := 40 }])

/-- **Two claim calls return the same token**: worker 7 has written 1, and is given 2 like worker 8. -/
theorem token_given_twice : ∃ x y : ClaimCall ({ shared := World.fresh } : System Env.standard)
    tokenShared 1, y.before ≠ x.before ∧ x.written = 1 ∧ x.token = 2 ∧ y.token = 2 := by
  obtain ⟨x, hx, hwritten, htoken⟩ := exists_claimCall { shared := World.fresh } tokenShared 1
    firstUpdate 2 {} (pause ++ secondClaim) { now := 40 }
    (P := fun updated row => updated.shared.db.attemptsOf 1 = 1 ∧ row.attemptNumber = 2)
    ⟨[], rfl⟩ (by decide) (by decide +kernel)
  obtain ⟨y, hy, htoken'⟩ := exists_claimCall { shared := World.fresh } tokenShared 1
    (firstUpdate ++ .step 2 {} :: pause) 5 { now := 40 } [] { now := 40 }
    (P := fun _ row => row.attemptNumber = 2)
    ⟨[.step 2 { now := 40 }], rfl⟩ (by simp) (by decide +kernel)
  refine ⟨x, y, ?_, hwritten, htoken, htoken'⟩
  rw [hx, hy]
  intro heq
  have hlength := congrArg List.length heq
  revert hlength
  decide

end PosttrainPlatform
