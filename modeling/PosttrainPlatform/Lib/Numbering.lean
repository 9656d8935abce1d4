import Mathlib.Order.MinMax

/-!
# Consecutive numbers

A counter without a row of its own: a number is given out by reading the largest one in use and
inserting its successor later.  Between the two anybody may insert.  `Numbered` says that the numbers in
use are the first ones, and `Proposed` what a number is worth that was read some time ago.
-/

namespace PosttrainPlatform.Numbering

variable {used used' : ℕ → Prop} {n N : ℕ}

/-- The numbers in use are the first positive ones. -/
structure Numbered (used : ℕ → Prop) : Prop where
  pos : ∀ n, used n → 0 < n
  below : ∀ n, used n → ∀ i, 0 < i → i ≤ n → used i

/-- Every number before this one is in use. -/
structure Proposed (used : ℕ → Prop) (n : ℕ) : Prop where
  pos : 0 < n
  below : ∀ i, 0 < i → i < n → used i

theorem Proposed.mono (h : Proposed used n) (hsub : ∀ i, used i → used' i) : Proposed used' n :=
  ⟨h.pos, fun i hpos hlt => hsub i (h.below i hpos hlt)⟩

/-- **A number that was proposed can be inserted late**, whatever was inserted meanwhile. -/
theorem Numbered.insert (h : Numbered used) (hn : Proposed used n)
    (hused : ∀ i, used' i ↔ used i ∨ i = n) : Numbered used' := by
  refine ⟨fun m hm => ?_, fun m hm i hpos hle => ?_⟩
  · obtain hm | rfl := (hused m).mp hm
    · exact h.pos m hm
    · exact hn.pos
  · obtain hm | rfl := (hused m).mp hm
    · exact (hused i).mpr (Or.inl (h.below m hm i hpos hle))
    · obtain hlt | rfl := Nat.lt_or_eq_of_le hle
      · exact (hused i).mpr (Or.inl (hn.below i hpos hlt))
      · exact (hused i).mpr (Or.inr rfl)

/-- With a largest number, the numbers in use are an interval. -/
theorem Numbered.interval (h : Numbered used) (hN : ∀ n, used n → n ≤ N) :
    ∃ N, ∀ n, used n ↔ 0 < n ∧ n ≤ N := by
  induction N with
  | zero =>
      refine ⟨0, fun n => ⟨fun hn => ⟨h.pos n hn, hN n hn⟩, fun hn => ?_⟩⟩
      omega
  | succ N ih =>
      by_cases hlast : used (N + 1)
      · exact ⟨N + 1, fun n => ⟨fun hn => ⟨h.pos n hn, hN n hn⟩,
          fun hn => h.below (N + 1) hlast n hn.1 hn.2⟩⟩
      · refine ih fun n hn => ?_
        obtain hle | rfl := Nat.le_or_eq_of_le_succ (hN n hn)
        · exact hle
        · exact absurd hn hlast

/-- The successor of the largest number is proposed, and it is free. -/
theorem Numbered.next (h : Numbered used) {l : List ℕ} (hl : ∀ n, n ∈ l ↔ used n) :
    Proposed used (l.foldr max 0 + 1) ∧ ¬used (l.foldr max 0 + 1) := by
  have hle : ∀ n ∈ l, n ≤ l.foldr max 0 := by
    clear hl
    induction l with
    | nil => exact fun n hn => by cases hn
    | cons m l ih =>
        intro n hn
        obtain rfl | hn := List.mem_cons.mp hn
        · exact le_max_left _ _
        · exact (ih n hn).trans (le_max_right _ _)
  have hmem : l.foldr max 0 = 0 ∨ l.foldr max 0 ∈ l := by
    clear hl hle
    induction l with
    | nil => exact Or.inl rfl
    | cons m l ih =>
        obtain hm | hm := max_choice m (l.foldr max 0)
        · exact Or.inr (by rw [List.foldr_cons, hm]; exact List.mem_cons_self)
        · rw [List.foldr_cons, hm]
          exact ih.imp_right (List.mem_cons_of_mem m)
  refine ⟨⟨Nat.succ_pos _, fun i hpos hlt => ?_⟩, fun hused => ?_⟩
  · obtain hzero | hmem := hmem
    · omega
    · exact h.below _ ((hl _).mp hmem) i hpos (Nat.le_of_lt_succ hlt)
  · exact absurd (hle _ ((hl _).mpr hused)) (Nat.not_succ_le_self _)

end PosttrainPlatform.Numbering
