import Mathlib.Data.List.Sort
import Mathlib.Data.List.Perm.Subperm
import PosttrainPlatform.Lib.Table

/-!
# Pages of a growing table

A list is read page by page, with a limit and an offset, while rows are added between the reads.  Added
rows move a row only to later places, and the next page begins where the last one has ended.  So a reader
who comes to a short page has seen every row that was there when he began (`mem_page`).
-/

namespace PosttrainPlatform.Paging

variable {α : Type} {le : α → α → Prop} {rows rows' : List α} {a : α}

/-- No two rows have the same place in the order. -/
def Strict (le : α → α → Prop) (rows : List α) : Prop := rows.Pairwise fun a b => ¬(le a b ∧ le b a)

theorem Strict.nodup [Std.Refl le] (h : Strict le rows) : rows.Nodup := by
  refine List.Pairwise.imp (fun {x y} hxy heq => hxy ?_) h
  subst heq
  exact ⟨Std.Refl.refl x, Std.Refl.refl x⟩

variable [DecidableRel le]

/-- `ORDER BY .. LIMIT .. OFFSET ..`. -/
def page (le : α → α → Prop) [DecidableRel le] (rows : List α) (limit offset : ℕ) : List α :=
  ((rows.insertionSort le).drop offset).take limit

/-- How many rows stand before this one. -/
def place (le : α → α → Prop) [DecidableRel le] (rows : List α) (a : α) : ℕ :=
  rows.countP fun b => decide (¬le a b)

/-- **A row of a sorted list stands at its place.** -/
theorem getElem?_place [Std.Refl le] (hsorted : rows.Pairwise le) (hstrict : Strict le rows)
    (ha : a ∈ rows) : rows[place le rows a]? = some a := by
  induction rows with
  | nil => cases ha
  | cons b rows ih =>
      obtain ⟨hb, hsorted⟩ := List.pairwise_cons.mp hsorted
      obtain ⟨hdiffers, hstrict⟩ := List.pairwise_cons.mp hstrict
      obtain rfl | ha := List.mem_cons.mp ha
      · have hnone : place le (a :: rows) a = 0 := by
          refine List.countP_eq_zero.mpr fun x hx => ?_
          obtain rfl | hx := List.mem_cons.mp hx
          · simpa using Std.Refl.refl x
          · simpa using hb x hx
        rw [hnone]
        rfl
      · have hbefore : ¬le a b := fun hab => hdiffers a ha ⟨hb a ha, hab⟩
        have hplace : place le (b :: rows) a = place le rows a + 1 :=
          List.countP_cons_of_pos (by simpa using hbefore)
        rw [hplace, List.getElem?_cons_succ]
        exact ih hsorted hstrict ha

/-- Rows that are added do not move a row to an earlier place. -/
theorem place_mono (hnodup : rows.Nodup) (hsub : rows ⊆ rows') (a : α) :
    place le rows a ≤ place le rows' a :=
  (List.Nodup.subperm hnodup hsub).countP_le _

/-- **Where a row stands in the list that is read.** -/
theorem getElem?_insertionSort [Std.Total le] [IsTrans α le] (hstrict : Strict le rows)
    (ha : a ∈ rows) : (rows.insertionSort le)[place le rows a]? = some a := by
  have hperm := List.perm_insertionSort le rows
  have hplace : place le (rows.insertionSort le) a = place le rows a := hperm.countP_eq _
  have hsame : Strict le (rows.insertionSort le) :=
    (hperm.pairwise_iff fun {x y} hxy hyx => hxy hyx.symm).mpr hstrict
  rw [← hplace]
  exact getElem?_place (List.pairwise_insertionSort le rows) hsame (hperm.mem_iff.mpr ha)

/-- **A reader misses no row**: when the pages are read one after the other from tables that only grow,
up to one that is not full, every row of the first table is on one of them. -/
theorem mem_page [Std.Total le] [IsTrans α le] (tables : ℕ → List α) {limit last : ℕ}
    (hstrict : ∀ k, Strict le (tables k)) (hgrow : ∀ k, tables k ⊆ tables (k + 1))
    (hshort : (page le (tables last) limit (last * limit)).length < limit) (ha : a ∈ tables 0) :
    ∃ k ≤ last, a ∈ page le (tables k) limit (k * limit) := by
  have hmem : ∀ k, a ∈ tables k := by
    intro k
    induction k with
    | zero => exact ha
    | succ k ih => exact hgrow k ih
  have hat := fun k => getElem?_insertionSort (hstrict k) (hmem k)
  -- the first page that ends after the place of the row
  have hend : place le (tables last) a < (last + 1) * limit := by
    have hlt := (List.getElem?_eq_some_iff.mp (hat last)).1
    unfold page at hshort
    rw [List.length_take, List.length_drop] at hshort
    have hmul : (last + 1) * limit = last * limit + limit := Nat.succ_mul _ _
    omega
  have hexists : ∃ k, place le (tables k) a < (k + 1) * limit := ⟨last, hend⟩
  obtain ⟨hfirst, hmin⟩ := And.intro (Nat.find_spec hexists) fun k => Nat.find_min hexists (m := k)
  have hlast := Nat.find_min' hexists hend
  generalize Nat.find hexists = k at hfirst hmin hlast
  have hbegin : k * limit ≤ place le (tables k) a := by
    cases k with
    | zero => rw [Nat.zero_mul]; exact Nat.zero_le _
    | succ k =>
        have hbefore := Nat.le_of_not_lt (hmin k (Nat.lt_succ_self k))
        exact hbefore.trans (place_mono (hstrict k).nodup (hgrow k) a)
  refine ⟨k, hlast, List.mem_iff_getElem?.mpr ⟨place le (tables k) a - k * limit, ?_⟩⟩
  have hmul : (k + 1) * limit = k * limit + limit := Nat.succ_mul _ _
  unfold page
  rw [List.getElem?_take_of_lt (by omega), List.getElem?_drop, Nat.add_sub_cancel' hbegin]
  exact hat k

/-! ### Tables -/

variable {κ ρ β : Type} [LinearOrder β]

/-- The order of the rows by a part of their keys. -/
def ByKey (f : κ → β) (a b : κ × ρ) : Prop := f a.1 ≤ f b.1

instance (f : κ → β) : DecidableRel (ByKey f : κ × ρ → κ × ρ → Prop) :=
  fun a b => inferInstanceAs (Decidable (f a.1 ≤ f b.1))

instance (f : κ → β) : Std.Total (ByKey f : κ × ρ → κ × ρ → Prop) :=
  ⟨fun a b => le_total (f a.1) (f b.1)⟩

instance (f : κ → β) : IsTrans (κ × ρ) (ByKey f) := ⟨fun _ _ _ => le_trans⟩

/-- A page of the rows whose keys meet a condition. -/
def tablePage [DecidableEq κ] (t : Table κ ρ) (own : κ → Bool) (f : κ → β) (limit offset : ℕ) :
    List (κ × ρ) :=
  page (ByKey f) (t.rows.filter fun r => own r.1) limit offset

/-- **A reader of a table misses no row**, if its keys are told apart by what the rows are ordered by. -/
theorem mem_tablePage [DecidableEq κ] (tables : ℕ → Table κ ρ) {own : κ → Bool} {f : κ → β}
    {limit last : ℕ} {key : κ} {row : ρ}
    (hf : ∀ k k', own k = true → own k' = true → f k = f k' → k = k')
    (hgrow : ∀ k, (tables k).Extends (tables (k + 1)))
    (hshort : (tablePage (tables last) own f limit (last * limit)).length < limit)
    (hkey : own key = true) (hrow : (tables 0).lookup key = some row) :
    ∃ k ≤ last, (key, row) ∈ tablePage (tables k) own f limit (k * limit) := by
  have hmem : ∀ k r, r ∈ (tables k).rows.filter (fun r => own r.1) ↔
      (tables k).lookup r.1 = some r.2 ∧ own r.1 = true := fun k r =>
    List.mem_filter.trans (and_congr_left' Table.mem_rows)
  refine mem_page (fun k => (tables k).rows.filter fun r => own r.1) (fun k => ?_)
    (fun k r hr => ?_) hshort ((hmem 0 (key, row)).mpr ⟨hrow, hkey⟩)
  · have hdistinct : (tables k).rows.Pairwise fun a b => a.1 ≠ b.1 :=
      List.pairwise_map.mp (tables k).nodup_rows
    refine (hdistinct.filter _).imp_of_mem fun {a b} ha hb hab htie => hab ?_
    exact hf a.1 b.1 ((hmem k a).mp ha).2 ((hmem k b).mp hb).2 (le_antisymm htie.1 htie.2)
  · obtain ⟨hr, hown⟩ := (hmem k r).mp hr
    exact (hmem (k + 1) r).mpr ⟨hgrow k r.1 r.2 hr, hown⟩

end PosttrainPlatform.Paging
