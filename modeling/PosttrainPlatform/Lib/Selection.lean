import Mathlib.Data.List.Find
import Mathlib.Data.List.Sort

/-!
# Searching a sorted list

The first element of a sorted list that a test accepts is a best one among those that it accepts.
Sorting commutes with filters, so that searches agree that differ in what neither of them finds.
-/

namespace Selection

variable {α : Type} (r : α → α → Prop) [DecidableRel r]

/-- The first element in the order that the test accepts. -/
def best (p : α → Bool) (l : List α) : Option α := (l.insertionSort r).find? p

variable {r} {p p' : α → Bool} {l l' : List α} {a : α}

theorem best_eq_none : best r p l = none ↔ ∀ a ∈ l, p a = false := by
  unfold best
  rw [List.find?_eq_none]
  simp only [List.mem_insertionSort, Bool.not_eq_true]

variable [Std.Total r] [IsTrans α r]

/-- **What the search finds is accepted, and ranks before everything else that is.** -/
theorem best_spec (h : best r p l = some a) : a ∈ l ∧ p a = true ∧ ∀ b ∈ l, p b = true → r a b := by
  obtain ⟨ha, before, after, hsorted, hbefore⟩ := List.find?_eq_some_iff_append.mp h
  have hmem : ∀ b, b ∈ l ↔ b ∈ before ++ a :: after := by
    intro b
    rw [← hsorted, List.mem_insertionSort]
  refine ⟨(hmem a).mpr (by simp), ha, fun b hb hpb => ?_⟩
  have hrefl : r a a := (Std.Total.total a a).elim id id
  have hpairwise : (before ++ a :: after).Pairwise r := by
    rw [← hsorted]
    exact List.pairwise_insertionSort r l
  obtain hin | hin := List.mem_append.mp ((hmem b).mp hb)
  · -- what comes before it is refused
    have hrefused := hbefore b hin
    rw [hpb] at hrefused
    cases hrefused
  · obtain rfl | hin := List.mem_cons.mp hin
    · exact hrefl
    · exact (List.pairwise_cons.mp (List.pairwise_append.mp hpairwise).2.1).1 b hin

/-- Something is found where something is accepted. -/
theorem exists_best (ha : a ∈ l) (hp : p a = true) : ∃ b, best r p l = some b ∧ r b a := by
  cases h : best r p l with
  | none =>
      have hrefused := best_eq_none.mp h a ha
      rw [hp] at hrefused
      cases hrefused
  | some b => exact ⟨b, rfl, (best_spec h).2.2 a ha hp⟩

/-- **The search finds the best accepted element**, where two elements that rank before each other are
one. -/
theorem best_eq_some (hanti : ∀ a ∈ l, ∀ b ∈ l, r a b → r b a → a = b) :
    best r p l = some a ↔ a ∈ l ∧ p a = true ∧ ∀ b ∈ l, p b = true → r a b := by
  constructor
  · exact best_spec
  · rintro ⟨ha, hp, hbest⟩
    obtain ⟨b, hb, hba⟩ := exists_best (r := r) ha hp
    obtain ⟨hmem, hpb, _⟩ := best_spec hb
    rw [hb, hanti a ha b hmem (hbest b hmem hpb) hba]

omit [Std.Total r] in
/-- An insertion, and what of it passes a filter. -/
theorem filter_orderedInsert (p : α → Bool) (a : α) (hl : l.Pairwise r) :
    (l.orderedInsert r a).filter p =
      if p a then (l.filter p).orderedInsert r a else l.filter p := by
  induction l with
  | nil =>
      cases hp : p a with
      | true => simp [hp]
      | false => simp [hp]
  | cons x l ih =>
      obtain ⟨hx, hl⟩ := List.pairwise_cons.mp hl
      by_cases hax : r a x
      · rw [List.orderedInsert_cons_of_le r l hax, List.filter_cons]
        split
        · -- it ranks before everything that is left
          rename_i hp
          have hfirst : ∀ y ∈ (x :: l).filter p, r a y := by
            intro y hy
            obtain rfl | hy := List.mem_cons.mp (List.mem_of_mem_filter hy)
            · exact hax
            · exact Trans.trans hax (hx y hy)
          cases hfilter : (x :: l).filter p with
          | nil => rfl
          | cons y rest =>
              rw [hfilter] at hfirst
              exact (List.orderedInsert_cons_of_le r rest (hfirst y List.mem_cons_self)).symm
        · rfl
      · rw [List.orderedInsert_cons, if_neg hax, List.filter_cons, List.filter_cons, ih hl]
        cases hp : p a with
        | false => simp
        | true =>
            cases hq : p x with
            | false => simp
            | true => simp [List.orderedInsert_cons, hax]

/-- **Sorting keeps what passes a filter in its order.** -/
theorem filter_insertionSort (p : α → Bool) (l : List α) :
    (l.insertionSort r).filter p = (l.filter p).insertionSort r := by
  induction l with
  | nil => rfl
  | cons a l ih =>
      rw [List.insertionSort_cons, filter_orderedInsert p a (List.pairwise_insertionSort r l), ih,
        List.filter_cons]
      split
      · rfl
      · rfl

/-- A search that finds something else than what a filter drops is a search of the rest. -/
theorem best_filter {q : α → Bool} (h : ∀ a, best r p l = some a → q a = true) :
    best r p l = best r p (l.filter q) := by
  unfold best at h ⊢
  rw [← filter_insertionSort, List.find?_filter]
  cases hfind : (l.insertionSort r).find? p with
  | none =>
      refine (List.find?_eq_none.mpr fun a ha hqp => ?_).symm
      exact List.find?_eq_none.mp hfind a ha (of_decide_eq_true hqp).2
  | some a =>
      obtain ⟨hpa, before, after, hsorted, hbefore⟩ := List.find?_eq_some_iff_append.mp hfind
      refine (List.find?_eq_some_iff_append.mpr ⟨?_, before, after, hsorted, fun b hb => ?_⟩).symm
      · exact decide_eq_true ⟨h a hfind, hpa⟩
      · have hrefused := hbefore b hb
        rw [Bool.not_eq_true'] at hrefused
        simp [hrefused]

/-- **Two searches agree that differ in what neither of them finds.** -/
theorem best_agree {q : α → Bool} (hl : l.filter q = l'.filter q)
    (hp : ∀ a ∈ l, q a = true → p a = p' a) (h : ∀ a, best r p l = some a → q a = true)
    (h' : ∀ a, best r p' l' = some a → q a = true) : best r p l = best r p' l' := by
  rw [best_filter h, best_filter h', ← hl]
  unfold best
  refine List.find?_congr fun a ha => ?_
  obtain ⟨hal, hqa⟩ := List.mem_filter.mp ((List.mem_insertionSort r).mp ha)
  exact hp a hal hqa

end Selection
