import Mathlib.Data.List.Sort

/-!
# Backlogs taken in batches

Entries of a backlog are taken in the order of a key, a batch at a time.  `Drains` relates a backlog
to what was taken from it and what is left; it does not depend on how entries with the same key are
ordered.  A batch from the front of the sorted backlog drains it, and draining twice is draining.
-/

namespace PosttrainPlatform

variable {α κ : Type*}

/-- What is behind a batch, when no two entries have the same id. -/
theorem mem_drop_iff_of_nodup {ι : Type*} {id : α → ι} {l : List α} (h : (l.map id).Nodup) {n : ℕ}
    {a : α} : a ∈ l.drop n ↔ a ∈ l ∧ id a ∉ (l.take n).map id := by
  have hsplit := List.take_append_drop n l
  rw [← hsplit, List.map_append] at h
  obtain ⟨_, _, hapart⟩ := List.nodup_append.mp h
  constructor
  · intro ha
    exact ⟨List.mem_of_mem_drop ha, fun hid => hapart _ hid _ (List.mem_map_of_mem ha) rfl⟩
  · rintro ⟨ha, hid⟩
    rw [← hsplit] at ha
    rcases List.mem_append.mp ha with ha | ha
    · exact absurd (List.mem_map_of_mem ha) hid
    · exact ha

/-- Of the backlog, `taken` was taken in order of the key, and `left` is left. -/
structure Drains [LE κ] (key : α → κ) (backlog taken left : List α) : Prop where
  perm : (taken ++ left).Perm backlog
  ordered : taken.Pairwise fun a b => key a ≤ key b
  first : ∀ a ∈ taken, ∀ b ∈ left, key a ≤ key b

namespace Drains

variable {key : α → κ} {backlog middle taken taken' left : List α}

theorem refl [LE κ] (backlog : List α) : Drains key backlog [] backlog where
  perm := .refl _
  ordered := .nil
  first _ h := absurd h List.not_mem_nil

theorem length [LE κ] (h : Drains key backlog taken left) :
    taken.length + left.length = backlog.length := by
  rw [← List.length_append]
  exact h.perm.length_eq

/-- **Draining what is left of a backlog drains the backlog.** -/
theorem trans [LE κ] (h : Drains key backlog taken middle) (h' : Drains key middle taken' left) :
    Drains key backlog (taken ++ taken') left where
  perm := by
    rw [List.append_assoc]
    exact (h'.perm.append_left taken).trans h.perm
  ordered := by
    refine List.pairwise_append.mpr ⟨h.ordered, h'.ordered, fun a ha b hb => h.first a ha b ?_⟩
    exact h'.perm.subset (List.mem_append_left left hb)
  first a ha b hb := by
    rcases List.mem_append.mp ha with ha | ha
    · exact h.first a ha b (h'.perm.subset (List.mem_append_right taken' hb))
    · exact h'.first a ha b hb

/-- **A batch from the front of the sorted backlog drains it.** -/
theorem of_sorted [LinearOrder κ] (n : ℕ)
    (hleft : left.Perm ((backlog.insertionSort fun a b => key a ≤ key b).drop n)) :
    Drains key backlog ((backlog.insertionSort fun a b => key a ≤ key b).take n) left := by
  have htotal : Std.Total fun a b : α => key a ≤ key b := ⟨fun a b => le_total (key a) (key b)⟩
  have htrans : IsTrans α fun a b => key a ≤ key b := ⟨fun _ _ _ => le_trans⟩
  have hsorted := List.pairwise_insertionSort (fun a b => key a ≤ key b) backlog
  rw [← List.take_append_drop n (backlog.insertionSort _)] at hsorted
  obtain ⟨htaken, _, hcross⟩ := List.pairwise_append.mp hsorted
  refine ⟨?_, htaken, fun a ha b hb => hcross a ha b (hleft.subset hb)⟩
  refine (hleft.append_left _).trans ?_
  rw [List.take_append_drop]
  exact List.perm_insertionSort _ backlog

end Drains

end PosttrainPlatform
