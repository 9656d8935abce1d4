import PosttrainPlatform.Lib.Batches
import PosttrainPlatform.Lib.Loops
import PosttrainPlatform.Properties.Scheduling

/-!
# Passes of the outbox relay

A pass that runs alone publishes the oldest hundred events and marks exactly them.  Pass after pass
the outbox is drained in the order of creation: every event that was unpublished is sent once.
-/

namespace PosttrainPlatform

open Programs Service

/-! ### Unpublished events -/

/-- The unpublished rows, with their positions. -/
def Db.unpublished (db : Db) : List (Outbox × ℕ) :=
  db.outbox.zipIdx.filter fun r => r.1.publishedAt.isNone

/-- The rows of one pass. -/
def Db.batch (db : Db) : List (Outbox × ℕ) :=
  (db.unpublished.insertionSort fun a b => a.1.createdAt ≤ b.1.createdAt).take 100

theorem listUnpublished_eq (db : Db) :
    OutboxRepo.listUnpublished db = db.batch.map fun r => (r.2, r.1.jobId) := rfl

theorem mem_unpublished {db : Db} {r : Outbox × ℕ} :
    r ∈ db.unpublished ↔ db.outbox[r.2]? = some r.1 ∧ r.1.publishedAt = none := by
  unfold Db.unpublished
  rw [List.mem_filter, List.mem_zipIdx_iff_getElem?, Option.isNone_iff_eq_none]

theorem nodup_unpublished (db : Db) : (db.unpublished.map Prod.snd).Nodup := by
  refine List.Nodup.sublist (List.filter_sublist.map Prod.snd) ?_
  rw [List.zipIdx_map_snd]
  exact List.nodup_range'

/-- **Marking a row takes it from the unpublished ones.** -/
theorem mem_unpublished_markPublished {db : Db} {k : ℕ} {now : Time} {r : Outbox × ℕ} :
    r ∈ (OutboxRepo.markPublished db k now).unpublished ↔ r ∈ db.unpublished ∧ r.2 ≠ k := by
  rw [mem_unpublished, mem_unpublished]
  show ((db.outbox.modify k fun row => { row with publishedAt := some now })[r.2]? = some r.1 ∧ _) ↔ _
  rw [List.getElem?_modify]
  by_cases hk : k = r.2
  · simp only [hk, if_true]
    refine ⟨fun h => ?_, fun h => absurd rfl h.2⟩
    obtain ⟨row, _, heq⟩ := Option.map_eq_some_iff.mp h.1
    rw [← heq] at h
    cases h.2
  · simp only [hk, if_false, id_map', ne_eq, Ne.symm hk, not_false_eq_true, and_true]

/-! ### The loop -/

/-- One round of `relay_once`. -/
def publishRound (o : ℕ × JobId) : Service Unit := do
  exec (.send o.2)
  exec (.markPublished o.1)

theorem isLoop_publishAll : Prog.IsLoop publishAll publishRound fun n _ => n + 1 where
  nil _ := rfl
  cons o rest n := by
    obtain ⟨row, j⟩ := o
    simp only [publishAll, publishRound, Prog.bind_assoc]

/-- **The pass has published the rows `done`**, and done nothing else. -/
structure Published (s : World) (done : List (ℕ × JobId)) (s' : World) : Prop where
  topic : s'.topic = s.topic ++ done.map Prod.snd
  unpublished : ∀ r, r ∈ s'.db.unpublished ↔ r ∈ s.db.unpublished ∧ r.2 ∉ done.map Prod.fst
  rows : s'.db.outbox.map (fun row => (row.jobId, row.createdAt)) =
    s.db.outbox.map fun row => (row.jobId, row.createdAt)
  rest : s' = { s with db := { s.db with outbox := s'.db.outbox }, topic := s'.topic }

theorem Published.snoc {s s' : World} {done : List (ℕ × JobId)} (h : Published s done s')
    (o : ℕ × JobId) (now : Time) : Published s (done ++ [o])
      { s' with db := OutboxRepo.markPublished s'.db o.1 now, topic := s'.topic ++ [o.2] } where
  topic := by
    rw [h.topic, List.map_append, List.append_assoc]
    rfl
  unpublished r := by
    rw [mem_unpublished_markPublished, h.unpublished, List.map_append, List.mem_append, not_or,
      and_assoc]
    simp
  rows := by
    rw [← h.rows]
    apply List.ext_getElem?
    intro n
    show ((s'.db.outbox.modify o.1 fun row => { row with publishedAt := some now }).map _)[n]? = _
    rw [List.getElem?_map, List.getElem?_map, List.getElem?_modify]
    cases s'.db.outbox[n]? with
    | none => rfl
    | some row =>
        by_cases hn : o.1 = n
        · simp [hn]
        · simp [hn]
  rest := by
    rw [h.rest]
    rfl

section Pass

variable {env : Env} {p : ℕ} {s s' : World × Time}

theorem ends_publishAll {rows : List (ℕ × JobId)} {r : Except Exn ℕ}
    (hend : EndsClocked env p (publishAll rows 0) s r s') :
    r = .ok rows.length ∧ s.2 ≤ s'.2 ∧ Published s.1 rows s'.1 := by
  refine isLoop_publishAll.ends_count (fun _ => ())
    (P := fun done st => s.2 ≤ st.2 ∧ Published s.1 done st.1) (fun _ _ => rfl) ?_
    ⟨le_refl _, by simp, by simp, rfl, rfl⟩ hend
  rintro done o rest st r st' _ ⟨hlate, hsent⟩ hturn
  obtain ⟨i, hi, hturn⟩ := Prog.ends_answer (fun _ => rfl) hturn
  obtain ⟨i', hi', rfl, rfl⟩ := Prog.ends_perform.mp hturn
  refine ⟨rfl, ?_, hsent.snoc o (st.2 + i.now + i'.now)⟩
  show s.2 ≤ st.2 + i.now + i'.now
  linarith

/-- **One pass** publishes its batch, and drains the outbox by it. -/
theorem ends_relayOnce {r : Except Exn ℕ} (hend : EndsClocked env p relayOnce s r s') :
    r = .ok (min 100 s.1.db.unpublished.length) ∧
      Drains (fun r => r.1.createdAt) s.1.db.unpublished s.1.db.batch s'.1.db.unpublished ∧
      Published s.1 (s.1.db.batch.map fun r => (r.2, r.1.jobId)) s'.1 := by
  obtain ⟨i, hi, hend⟩ := Prog.ends_answer (fun _ => rfl) hend
  obtain ⟨hr, _, hsent⟩ := ends_publishAll (s := (s.1, s.2 + i.now)) hend
  rw [listUnpublished_eq] at hr hsent
  have hlength : s.1.db.batch.length = min 100 s.1.db.unpublished.length := by
    rw [Db.batch, List.length_take, List.length_insertionSort]
  refine ⟨by rw [hr, List.length_map, hlength], Drains.of_sorted 100 ?_, hsent⟩
  have hperm := List.perm_insertionSort (fun a b : Outbox × ℕ => a.1.createdAt ≤ b.1.createdAt)
    s.1.db.unpublished
  have hids := (hperm.map Prod.snd).nodup_iff.mpr (nodup_unpublished s.1.db)
  refine (List.perm_ext_iff_of_nodup (nodup_unpublished s'.1.db).of_map
    (hids.of_map.sublist (List.drop_sublist 100 _))).mpr fun r => ?_
  rw [mem_drop_iff_of_nodup hids, hperm.mem_iff, hsent.unpublished, List.map_map]
  rfl

end Pass

/-- **What `n` passes do**: the oldest events have been `sent`, a hundred in each pass as long as there
are so many, each once and in order; no row is lost, and nothing beside outbox and topic has
changed. -/
structure Relayed (n : ℕ) (s : World) (sent : List (Outbox × ℕ)) (s' : World) : Prop where
  drains : Drains (fun r => r.1.createdAt) s.db.unpublished sent s'.db.unpublished
  length : sent.length = min (100 * n) s.db.unpublished.length
  topic : s'.topic = s.topic ++ sent.map fun r => r.1.jobId
  rows : s'.db.outbox.map (fun row => (row.jobId, row.createdAt)) =
    s.db.outbox.map fun row => (row.jobId, row.createdAt)
  rest : s' = { s with db := { s.db with outbox := s'.db.outbox }, topic := s'.topic }

theorem Relayed.snoc {env : Env} {p n : ℕ} {s : World} {s₁ s₂ : World × Time}
    {sent : List (Outbox × ℕ)} {r : Except Exn ℕ} (h : Relayed n s sent s₁.1)
    (hend : EndsClocked env p relayOnce s₁ r s₂) :
    Relayed (n + 1) s (sent ++ s₁.1.db.batch) s₂.1 := by
  obtain ⟨_, hbatch, hsent⟩ := ends_relayOnce hend
  refine ⟨h.drains.trans hbatch, ?_, ?_, hsent.rows.trans h.rows, ?_⟩
  · have hleft := h.drains.length
    rw [List.length_append, h.length, Db.batch, List.length_take, List.length_insertionSort]
    rw [h.length] at hleft
    omega
  · rw [hsent.topic, h.topic, List.map_append, List.append_assoc, List.map_map]
    rfl
  · rw [hsent.rest, h.rest]

/-- **Passes of the relay drain the outbox in the order of creation**, and each returns the number of
events that it publishes. -/
theorem relay_drains {env : Env} {p n : ℕ} {s s' : World × Time}
    (h : Prog.Repeats (Op.clocked env p) (fun i => 0 ≤ i.now) relayOnce n s s') :
    (∃ sent, Relayed n s.1 sent s'.1) ∧ ∀ r s'', EndsClocked env p relayOnce s' r s'' →
      r = .ok (min 100 s'.1.db.unpublished.length) := by
  refine ⟨h.invariant (P := fun n s' => ∃ sent, Relayed n s.1 sent s'.1) ?_ ?_,
    fun r s'' hend => (ends_relayOnce hend).1⟩
  · exact ⟨[], .refl _, by simp, by simp, rfl, rfl⟩
  · rintro n s₁ r s₂ ⟨sent, hsent⟩ hend
    exact ⟨_, hsent.snoc hend⟩

/-- Two jobs are admitted, and nothing is published yet. -/
def twoAdmitted : List (SysEvent Env.standard) :=
  session 0 (.createJob noop) 1 { uuid := 1 } ++ session 1 (.createJob noop) 1 { uuid := 2 } ++
    session 2 .schedulerRunOnce 15 {}

/-- One pass sends both events. -/
theorem twoAdmitted_relayed : ∃ (c : System Env.standard) (s' : World × Time)
    (sent : List (Outbox × ℕ)), Reaches World.fresh twoAdmitted c ∧
      c.shared.db.unpublished.length = 2 ∧ Relayed 1 c.shared sent s'.1 := by
  obtain ⟨c, hreach, htwo⟩ := exists_reaches World.fresh_initial twoAdmitted
    (P := fun c => c.shared.db.unpublished.length = 2) (by decide +kernel)
  obtain ⟨⟨sent, hsent⟩, _⟩ := relay_drains
    (.succ (.zero (c.shared, (0 : Time))) (ends_passAt Env.standard 3 relayOnce (c.shared, 0)))
  exact ⟨c, _, sent, hreach, htwo, hsent⟩

end PosttrainPlatform
