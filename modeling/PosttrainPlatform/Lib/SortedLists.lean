import Mathlib.Data.List.Forall2
import Mathlib.Data.List.Sort

/-!
# Sorting numbers

Sorting does not depend on the order of a list, and is monotone: greater elements, one by one, make
a sorted list that is greater at every place.
-/

namespace SortedLists

variable {α : Type} [LinearOrder α] {l l' : List α} {a b : α}

/-- **Sorting does not see the order of a list.** -/
theorem insertionSort_eq_of_perm (h : l.Perm l') :
    l.insertionSort (· ≤ ·) = l'.insertionSort (· ≤ ·) := by
  have hsorted : ∀ m : List α, (m.insertionSort (· ≤ ·)).Pairwise (· ≤ ·) :=
    List.pairwise_insertionSort (· ≤ ·)
  have hperm : (l.insertionSort (· ≤ ·)).Perm (l'.insertionSort (· ≤ ·)) :=
    (List.perm_insertionSort _ l).trans (h.trans (List.perm_insertionSort _ l').symm)
  exact hperm.eq_of_pairwise' (hsorted l) (hsorted l')

/-- The insertion of an element that is at most all of a list. -/
theorem orderedInsert_of_forall_le (h : ∀ x ∈ l, a ≤ x) : l.orderedInsert (· ≤ ·) a = a :: l := by
  cases l with
  | nil => rfl
  | cons x l => exact List.orderedInsert_cons_of_le (· ≤ ·) l (h x List.mem_cons_self)

/-- **Insertion into sorted lists is monotone.** -/
theorem orderedInsert_mono (hab : a ≤ b) (h : List.Forall₂ (· ≤ ·) l l')
    (hl : l.Pairwise (· ≤ ·)) (hl' : l'.Pairwise (· ≤ ·)) :
    List.Forall₂ (· ≤ ·) (l.orderedInsert (· ≤ ·) a) (l'.orderedInsert (· ≤ ·) b) := by
  induction h generalizing a b with
  | nil => exact .cons hab .nil
  | @cons x y l l' hxy h ih =>
      obtain ⟨hx, hl⟩ := List.pairwise_cons.mp hl
      obtain ⟨hy, hl'⟩ := List.pairwise_cons.mp hl'
      rw [List.orderedInsert_cons, List.orderedInsert_cons]
      by_cases hax : a ≤ x
      · by_cases hby : b ≤ y
        · rw [if_pos hax, if_pos hby]
          exact .cons hab (.cons hxy h)
        · -- the head of the second list stays where it is
          rw [if_pos hax, if_neg hby]
          have hyb : y ≤ b := le_of_not_ge hby
          have hrest := ih (hxy.trans hyb) hl hl'
          rw [orderedInsert_of_forall_le hx] at hrest
          exact .cons (hax.trans hxy) hrest
      · have hxa : x ≤ a := le_of_not_ge hax
        by_cases hby : b ≤ y
        · -- the head of the first list stays where it is
          rw [if_neg hax, if_pos hby]
          have hrest := ih (hab.trans hby) hl hl'
          rw [orderedInsert_of_forall_le hy] at hrest
          exact .cons (hxa.trans hab) hrest
        · rw [if_neg hax, if_neg hby]
          exact .cons hxy (ih hab hl hl')

/-- **Sorting is monotone.** -/
theorem insertionSort_mono (h : List.Forall₂ (· ≤ ·) l l') :
    List.Forall₂ (· ≤ ·) (l.insertionSort (· ≤ ·)) (l'.insertionSort (· ≤ ·)) := by
  induction h with
  | nil => exact .nil
  | cons hxy h ih =>
      exact orderedInsert_mono hxy ih (List.pairwise_insertionSort _ _)
        (List.pairwise_insertionSort _ _)

/-- The first element of a sorted list is a least one. -/
theorem le_of_mem_of_head (hsorted : l.Pairwise (· ≤ ·)) (hhead : l[0]? = some a) (hb : b ∈ l) :
    a ≤ b := by
  cases l with
  | nil => cases hb
  | cons x l =>
      obtain rfl : x = a := Option.some.inj hhead
      obtain rfl | hb := List.mem_cons.mp hb
      · exact le_refl b
      · exact (List.pairwise_cons.mp hsorted).1 b hb

/-- The last element of a sorted list is a greatest one. -/
theorem le_of_mem_of_last (hsorted : l.Pairwise (· ≤ ·)) (hlast : l[l.length - 1]? = some b)
    (ha : a ∈ l) : a ≤ b := by
  obtain ⟨n, hn, rfl⟩ := List.mem_iff_getElem.mp ha
  obtain ⟨hend, rfl⟩ := List.getElem?_eq_some_iff.mp hlast
  obtain hlt | heq : n < l.length - 1 ∨ n = l.length - 1 := by omega
  · exact List.pairwise_iff_getElem.mp hsorted _ _ hn hend hlt
  · exact le_of_eq (getElem_congr_idx heq)

end SortedLists
