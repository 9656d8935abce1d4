import PosttrainPlatform.Lib.Loops
import PosttrainPlatform.Properties.Scheduling

/-!
# One pass of the reconciler

A pass that runs alone settles every abandoned upload: the ones whose object has arrived become
UPLOADED, the others FAILED.  No other row changes, and none of the listed ones is left pending.
-/

namespace PosttrainPlatform

open Programs Service

/-- The object of an artifact is in the store, with its content. -/
def Store.Holds (env : Env) (store : Store) (row : Artifact) : Bool :=
  store.objectExistsWithHash env row.contentHash row.contentHash

/-- The row that the reconciler leaves. -/
def Artifact.reconciled (row : Artifact) (held : Bool) : Artifact :=
  { row with status := if held then .uploaded else .failed, uploadLeaseExpiresAt := none }

/-- The uploads that the reconciler lists. -/
abbrev Db.abandonedUploads (env : Env) (db : Db) (now : Time) : List (ArtifactId × Artifact) :=
  ArtifactsRepo.listReconcilable db now env.settings.artifactPendingGracePeriodSeconds

theorem mem_abandonedUploads {env : Env} {db : Db} {now : Time} {a : ArtifactId} {row : Artifact} :
    (a, row) ∈ db.abandonedUploads env now ↔ db.artifacts.lookup a = some row ∧
      ArtifactsRepo.Abandoned row now env.settings.artifactPendingGracePeriodSeconds := by
  unfold Db.abandonedUploads ArtifactsRepo.listReconcilable
  rw [List.mem_filter, Table.mem_rows, decide_eq_true_eq]

/-- **The pass has settled the uploads `done`**, of those listed as abandoned. -/
structure Settled (env : Env) (listed : List (ArtifactId × Artifact)) (s : World)
    (done : List ArtifactId) (s' : World) : Prop where
  settled : ∀ r ∈ listed, r.1 ∈ done →
    s'.db.artifacts.lookup r.1 = some (r.2.reconciled (s.store.Holds env r.2))
  others : ∀ a, a ∉ done → s'.db.artifacts.lookup a = s.db.artifacts.lookup a
  rest : s' = { s with db := { s.db with artifacts := s'.db.artifacts } }

section Pass

variable {env : Env} {p : ℕ} {s s' : World × Time}

/-- The store answers. -/
theorem ends_objectExistsWithHash {α : Type} {key expected : Hash} {f : Bool → Service α}
    {r : Except Exn α} (hend : EndsClocked env p (objectExistsWithHash key expected >>= f) s r s') :
    ∃ i : Input, 0 ≤ i.now ∧ EndsClocked env p (f (s.1.store.objectExistsWithHash env key expected))
      (s.1, s.2 + i.now) r s' :=
  Prog.ends_call.mp hend

/-- **One artifact**: a pending row is settled by what the store holds. -/
theorem ends_reconcile {a : ArtifactId} {row : Artifact} {r : Except Exn (ℕ × ℕ)}
    (hrow : s.1.db.artifacts.lookup a = some row) (hpending : row.status = .pending)
    (hend : EndsClocked env p (reconcile a row) s r s') :
    r = .ok (if s.1.store.Holds env row then (1, 0) else (0, 1)) ∧ s.2 ≤ s'.2 ∧
      s'.1 = { s.1 with db := { s.1.db with
        artifacts := s.1.db.artifacts.insert a (row.reconciled (s.1.store.Holds env row)) } } := by
  obtain ⟨i, hi, hend⟩ := ends_objectExistsWithHash hend
  unfold Store.Holds
  cases hheld : s.1.store.objectExistsWithHash env row.contentHash row.contentHash with
  | false =>
      rw [hheld] at hend
      have hput : ArtifactsRepo.reconcileToFailed s.1.db a =
          ({ s.1.db with artifacts := s.1.db.artifacts.insert a (row.reconciled false) },
            some (row.reconciled false)) := by
        unfold ArtifactsRepo.reconcileToFailed ArtifactsRepo.updateWhere
        simp only [hrow, hpending, if_true]
        rfl
      obtain ⟨i', hi', hend⟩ := Prog.ends_answer (a := fun _ => some (row.reconciled false))
        (fun _ => congrArg Except.ok (congrArg Prod.snd hput)) hend
      obtain ⟨rfl, rfl⟩ := Prog.ends_ret.mp hend
      refine ⟨rfl, ?_, congrArg (fun r => { s.1 with db := r.1 }) hput⟩
      show s.2 ≤ s.2 + i.now + i'.now
      linarith
  | true =>
      rw [hheld] at hend
      have hput : ArtifactsRepo.reconcileToUploaded s.1.db a =
          ({ s.1.db with artifacts := s.1.db.artifacts.insert a (row.reconciled true) },
            some (row.reconciled true)) := by
        unfold ArtifactsRepo.reconcileToUploaded ArtifactsRepo.updateWhere
        simp only [hrow, hpending, if_true]
        rfl
      obtain ⟨data, hdata⟩ : ∃ data, s.1.store.lookup row.contentHash = some data := by
        unfold Store.objectExistsWithHash at hheld
        cases hlookup : s.1.store.lookup row.contentHash with
        | none => simp [hlookup] at hheld
        | some data => exact ⟨data, rfl⟩
      have hsize : ∀ (now : Time) (i : Input), Op.clocked env p (.objectSize row.contentHash) i
          (s.1, now) = ((s.1, now + i.now), .ok data.length) := by
        intro now i
        unfold Op.clocked Op.perform
        simp only [hdata]
        rfl
      obtain ⟨i₁, hi₁, hend⟩ := Prog.ends_answer (a := fun _ => data.length)
        (fun i => congrArg Prod.snd (hsize _ i)) hend
      rw [hsize] at hend
      obtain ⟨i₂, hi₂, hend⟩ := Prog.ends_answer (a := fun _ => some (row.reconciled true))
        (fun _ => congrArg Except.ok (congrArg Prod.snd hput)) hend
      obtain ⟨rfl, rfl⟩ := Prog.ends_ret.mp hend
      refine ⟨rfl, ?_, congrArg (fun r => { s.1 with db := r.1 }) hput⟩
      show s.2 ≤ s.2 + i.now + i₁.now + i₂.now
      linarith

theorem isLoop_reconcileAll :
    Prog.IsLoop (fun listed (counts : ℕ × ℕ) => reconcileAll listed counts.1 counts.2)
      (fun r => reconcile r.1 r.2) fun counts more => (counts.1 + more.1, counts.2 + more.2) where
  nil _ := rfl
  cons _ _ _ := rfl

/-- What the loop counts. -/
theorem foldl_counts (held : ArtifactId × Artifact → Bool) (listed : List (ArtifactId × Artifact))
    (m n : ℕ) : (listed.map fun r => if held r then (1, 0) else (0, 1)).foldl
      (fun counts more : ℕ × ℕ => (counts.1 + more.1, counts.2 + more.2)) (m, n) =
        (m + listed.countP held, n + listed.countP fun r => !held r) := by
  induction listed generalizing m n with
  | nil => rfl
  | cons r rest ih =>
      rw [List.map_cons, List.foldl_cons, ih, List.countP_cons, List.countP_cons]
      cases held r with
      | false => simp only [Bool.false_eq_true, Bool.not_false, if_true, if_false, Prod.mk.injEq]; omega
      | true => simp only [Bool.not_true, Bool.false_eq_true, if_true, if_false, Prod.mk.injEq]; omega

/-- One upload more. -/
theorem Settled.snoc {listed : List (ArtifactId × Artifact)} {s s₁ s' : World}
    {done : List ArtifactId} {a : ArtifactId} {row : Artifact} (h : Settled env listed s done s₁)
    (hrows : ∀ r ∈ listed, s.db.artifacts.lookup r.1 = some r.2) (hlisted : (a, row) ∈ listed)
    (hnot : a ∉ done) (hs' : s' = { s₁ with db := { s₁.db with
      artifacts := s₁.db.artifacts.insert a (row.reconciled (s.store.Holds env row)) } }) :
    Settled env listed s (done ++ [a]) s' where
  settled r hr hmem := by
    subst hs'
    show (s₁.db.artifacts.insert a _).lookup r.1 = _
    rw [Table.lookup_insert_eq]
    rcases List.mem_append.mp hmem with hmem | hmem
    · have hne : r.1 ≠ a := fun heq => hnot (heq ▸ hmem)
      rw [if_neg hne]
      exact h.settled r hr hmem
    · have heq : r.1 = a := List.mem_singleton.mp hmem
      have hrow : some r.2 = some row := by rw [← hrows r hr, ← hrows (a, row) hlisted, heq]
      rw [if_pos heq, Option.some.inj hrow]
  others i hi := by
    subst hs'
    rw [List.mem_append, List.mem_singleton, not_or] at hi
    show (s₁.db.artifacts.insert a _).lookup i = _
    rw [Table.lookup_insert_eq, if_neg hi.2]
    exact h.others i hi.1
  rest := by
    rw [hs', h.rest]

/-- **The loop settles every upload that it has listed.** -/
theorem ends_reconcileAll {listed : List (ArtifactId × Artifact)} {r : Except Exn (ℕ × ℕ)}
    (hnodup : (listed.map Prod.fst).Nodup)
    (hrows : ∀ r ∈ listed, s.1.db.artifacts.lookup r.1 = some r.2)
    (hpending : ∀ r ∈ listed, r.2.status = .pending)
    (hend : EndsClocked env p (reconcileAll listed 0 0) s r s') :
    r = .ok (listed.countP fun r => s.1.store.Holds env r.2,
        listed.countP fun r => !s.1.store.Holds env r.2) ∧ s.2 ≤ s'.2 ∧
      Settled env listed s.1 (listed.map Prod.fst) s'.1 := by
  have hcounts := foldl_counts (fun r => s.1.store.Holds env r.2) listed 0 0
  rw [Nat.zero_add, Nat.zero_add] at hcounts
  rw [← hcounts]
  refine isLoop_reconcileAll.ends (fun r => if s.1.store.Holds env r.2 then (1, 0) else (0, 1))
    (P := fun (done : List (ArtifactId × Artifact)) (st : World × Time) =>
      s.2 ≤ st.2 ∧ Settled env listed s.1 (done.map Prod.fst) st.1)
    ?_ ⟨le_refl _, fun _ _ h => absurd h List.not_mem_nil, fun _ _ => rfl, rfl⟩ hend
  · rintro done ⟨a, row⟩ rest st r st' hsplit ⟨hlate, hsettled⟩ hturn
    have hlisted : (a, row) ∈ listed := by
      rw [hsplit]
      simp
    have hnot : a ∉ done.map Prod.fst := by
      rw [hsplit, List.map_append, List.map_cons] at hnodup
      intro hmem
      exact (List.nodup_append.mp hnodup).2.2 a hmem a List.mem_cons_self rfl
    have hstore : st.1.store = s.1.store := by rw [hsettled.rest]
    obtain ⟨hr, hlate', hworld⟩ := ends_reconcile
      ((hsettled.others a hnot).trans (hrows _ hlisted)) (hpending _ hlisted) hturn
    rw [hstore] at hr hworld
    rw [List.map_append]
    exact ⟨hr, hlate.trans hlate', hsettled.snoc hrows hlisted hnot hworld⟩

end Pass

/-- **What a pass does** with the uploads that it finds abandoned at a time. -/
structure Reconciled (env : Env) (s : World) (now : Time) (s' : World) (r : Except Exn (ℕ × ℕ)) :
    Prop where
  returns : r = .ok ((s.db.abandonedUploads env now).countP fun r => s.store.Holds env r.2,
    (s.db.abandonedUploads env now).countP fun r => !s.store.Holds env r.2)
  settled : Settled env (s.db.abandonedUploads env now) s
    ((s.db.abandonedUploads env now).map Prod.fst) s'
  noneLeft : s'.db.abandonedUploads env now = []

/-- **A pass of the reconciler settles what it finds**: each abandoned upload is UPLOADED if the store
holds its object and FAILED if it does not, nothing else changes, and the two counts are the numbers
of uploads. -/
theorem reconciler_pass_settles {env : Env} {p : ℕ} {s s' : World × Time} {r : Except Exn (ℕ × ℕ)}
    (hend : EndsClocked env p reconcilePendingArtifacts s r s') :
    ∃ now, s.2 ≤ now ∧ now ≤ s'.2 ∧ Reconciled env s.1 now s'.1 r := by
  obtain ⟨i, hi, hend⟩ := Prog.ends_answer (fun _ => rfl) hend
  have hlisted : ∀ r ∈ s.1.db.abandonedUploads env (s.2 + i.now),
      s.1.db.artifacts.lookup r.1 = some r.2 ∧ ArtifactsRepo.Abandoned r.2 (s.2 + i.now)
        env.settings.artifactPendingGracePeriodSeconds := fun r hr => mem_abandonedUploads.mp hr
  have hnodup : ((s.1.db.abandonedUploads env (s.2 + i.now)).map Prod.fst).Nodup :=
    (Table.nodup_rows s.1.db.artifacts).sublist (List.filter_sublist.map _)
  obtain ⟨hr, hlate, hsettled⟩ := ends_reconcileAll (s := (s.1, s.2 + i.now)) hnodup
    (fun r hr => (hlisted r hr).1) (fun r hr => (hlisted r hr).2.1) hend
  refine ⟨s.2 + i.now, by linarith, hlate, hr, hsettled, ?_⟩
  refine List.eq_nil_iff_forall_not_mem.mpr ?_
  rintro ⟨a, row⟩ hmem
  obtain ⟨hrow, hpending, habandoned⟩ := mem_abandonedUploads.mp hmem
  by_cases hin : a ∈ (s.1.db.abandonedUploads env (s.2 + i.now)).map Prod.fst
  · obtain ⟨r, hr, rfl⟩ := List.mem_map.mp hin
    have hdone := hrow.symm.trans (hsettled.settled r hr hin)
    cases hdone
    unfold Artifact.reconciled at hpending
    split at hpending <;> cases hpending
  · have hbefore := (hsettled.others a hin).symm.trans hrow
    exact hin (List.mem_map_of_mem (mem_abandonedUploads.mpr ⟨hbefore, hpending, habandoned⟩))

/-- Two uploads are abandoned, one after its object was put and one before. -/
def abandonedTwice : List (SysEvent Env.standard) :=
  session 0 (.uploadArtifact [1, 2] 7) 4 { uuid := 1 } ++ [.crash 0] ++
    session 1 (.uploadArtifact [4] 7) 3 { uuid := 2 } ++ [.crash 1]

/-- The pass at time 1000 heals one of them. -/
theorem abandonedTwice_settled : ∃ (c : System Env.standard) (r : Except Exn (ℕ × ℕ))
    (s' : World × Time), Reaches World.fresh abandonedTwice c ∧
      (c.shared.db.abandonedUploads Env.standard 1000).map (fun r =>
        c.shared.store.Holds Env.standard r.2) = [false, true] ∧
      ∃ now, 1000 ≤ now ∧ now ≤ s'.2 ∧ Reconciled Env.standard c.shared now s'.1 r := by
  obtain ⟨c, hreach, hheld⟩ := exists_reaches World.fresh_initial abandonedTwice
    (P := fun c => (c.shared.db.abandonedUploads Env.standard 1000).map (fun r =>
      c.shared.store.Holds Env.standard r.2) = [false, true]) (by decide +kernel)
  exact ⟨c, _, _, hreach, hheld, reconciler_pass_settles
    (ends_passAt Env.standard 3 reconcilePendingArtifacts (c.shared, 1000))⟩

end PosttrainPlatform
