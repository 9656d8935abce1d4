import Mathlib.Data.List.DropRight

/-!
# Words

A list over an alphabet with separators: without the separators at its ends (`strip`), and as the list
of its words, the maximal runs of other letters (`words`).  Two lists are compared position by
position (`agreements`).
-/

namespace Words

variable {α β : Type}

/-! ### Words and separators -/

section Split

variable (sep : α → Bool)

/-- The list without the separators at its ends. -/
def strip (xs : List α) : List α := (xs.dropWhile sep).rdropWhile sep

/-- The words of a list. -/
def words (xs : List α) : List (List α) := (xs.splitOnP sep).filter fun w => !w.isEmpty

variable {sep}

/-- A separator ends a word, and begins none. -/
theorem words_append_cons {x : α} (hx : sep x = true) (xs ys : List α) :
    words sep (xs ++ x :: ys) = words sep xs ++ words sep ys := by
  unfold words
  rw [List.splitOnP_append_cons xs ys hx, List.filter_append]

theorem words_cons {x : α} (hx : sep x = true) (xs : List α) : words sep (x :: xs) = words sep xs :=
  words_append_cons hx [] xs

theorem words_concat {x : α} (hx : sep x = true) (xs : List α) :
    words sep (xs ++ [x]) = words sep xs := by
  rw [words_append_cons hx xs []]
  exact List.append_nil _

theorem words_dropWhile (xs : List α) : words sep (xs.dropWhile sep) = words sep xs := by
  induction xs with
  | nil => rfl
  | cons x xs ih =>
      by_cases hx : sep x = true
      · rw [List.dropWhile_cons_of_pos hx, words_cons hx, ih]
      · rw [List.dropWhile_cons_of_neg hx]

theorem words_rdropWhile (xs : List α) : words sep (xs.rdropWhile sep) = words sep xs := by
  induction xs using List.reverseRecOn with
  | nil => rfl
  | append_singleton xs x ih =>
      by_cases hx : sep x = true
      · rw [List.rdropWhile_concat_pos _ _ _ hx, words_concat hx, ih]
      · rw [List.rdropWhile_concat_neg _ _ _ hx]

/-- **Stripping changes no word.** -/
theorem words_strip (xs : List α) : words sep (strip sep xs) = words sep xs := by
  unfold strip
  rw [words_rdropWhile, words_dropWhile]

end Split

/-! ### Agreement position by position -/

section Agreements

variable [DecidableEq β]

/-- The number of positions at which both lists have the same element. -/
def agreements (xs ys : List β) : ℕ := (xs.zip ys).countP fun p => decide (p.1 = p.2)

@[simp] theorem agreements_nil_left (ys : List β) : agreements [] ys = 0 := rfl

@[simp] theorem agreements_nil_right (xs : List β) : agreements xs [] = 0 := by
  cases xs <;> rfl

theorem agreements_cons (x y : β) (xs ys : List β) :
    agreements (x :: xs) (y :: ys) = agreements xs ys + if x = y then 1 else 0 := by
  simp [agreements, List.countP_cons]

theorem agreements_comm (xs ys : List β) : agreements xs ys = agreements ys xs := by
  induction xs generalizing ys with
  | nil => rw [agreements_nil_left, agreements_nil_right]
  | cons x xs ih =>
      cases ys with
      | nil => rw [agreements_nil_left, agreements_nil_right]
      | cons y ys =>
          rw [agreements_cons, agreements_cons, ih]
          simp only [eq_comm]

theorem agreements_le_left (xs ys : List β) : agreements xs ys ≤ xs.length := by
  have hcount : agreements xs ys ≤ (xs.zip ys).length := List.countP_le_length
  have hzip : (xs.zip ys).length = min xs.length ys.length := List.length_zip
  omega

theorem agreements_le_right (xs ys : List β) : agreements xs ys ≤ ys.length := by
  rw [agreements_comm]
  exact agreements_le_left ys xs

theorem agreements_self (xs : List β) : agreements xs xs = xs.length := by
  induction xs with
  | nil => rfl
  | cons x xs ih => rw [agreements_cons, if_pos rfl, ih, List.length_cons]

/-- **Two lists agree at every position of the longer one when they are equal**, and only then. -/
theorem agreements_eq_max_iff {xs ys : List β} :
    agreements xs ys = max xs.length ys.length ↔ xs = ys := by
  constructor
  · intro h
    induction xs generalizing ys with
    | nil =>
        have hlength : ys.length = 0 := by simpa using h.symm
        exact (List.length_eq_zero_iff.mp hlength).symm
    | cons x xs ih =>
        cases ys with
        | nil => simp at h
        | cons y ys =>
            have hleft := agreements_le_left xs ys
            have hright := agreements_le_right xs ys
            rw [agreements_cons, List.length_cons, List.length_cons] at h
            split at h
            · rename_i hxy
              have hrest : agreements xs ys = max xs.length ys.length := by omega
              rw [hxy, ih hrest]
            · omega
  · intro h
    rw [h, agreements_self, max_self]

end Agreements

end Words
