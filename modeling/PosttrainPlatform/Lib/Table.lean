import Mathlib.Data.List.AList
import Mathlib.Algebra.BigOperators.Group.List.Basic
import Mathlib.Algebra.Order.BigOperators.Group.List
import Mathlib.Tactic.Abel

/-!
# Keyed tables

A table is a finite map from primary keys to rows.  `insertNew` is an `INSERT` that fails when the
key is taken.  `total` adds up a value over all rows; the lemmas about it say what an insert and an
update of one row do to the sum, so that a counter kept beside the table can be compared with it.
-/

namespace PosttrainPlatform

universe u v

/-- A table with unique primary keys. -/
abbrev Table (κ : Type u) (ρ : Type v) := AList (fun _ : κ => ρ)

namespace Table

variable {κ : Type u} {ρ : Type v} [DecidableEq κ]

/-- `INSERT`: fails (integrity error) when the primary key exists. -/
def insertNew (t : Table κ ρ) (k : κ) (r : ρ) : Option (Table κ ρ) :=
  match t.lookup k with
  | some _ => none
  | none => some (t.insert k r)

/-- The rows of the table, with their keys. -/
def rows (t : Table κ ρ) : List (κ × ρ) := t.entries.map fun e => (e.1, e.2)

theorem insertNew_eq_some {t t' : Table κ ρ} {k : κ} {r : ρ} :
    t.insertNew k r = some t' ↔ t.lookup k = none ∧ t' = t.insert k r := by
  unfold insertNew
  cases t.lookup k with
  | none => simp [eq_comm]
  | some r' => simp

theorem insertNew_isSome {t : Table κ ρ} {k : κ} {r : ρ} :
    (t.insertNew k r).isSome = true ↔ t.lookup k = none := by
  unfold insertNew
  cases t.lookup k <;> simp

theorem lookup_insert_eq (t : Table κ ρ) (k k' : κ) (r : ρ) :
    (t.insert k r).lookup k' = if k' = k then some r else t.lookup k' := by
  by_cases h : k' = k
  · subst h
    simp [AList.lookup_insert]
  · rw [AList.lookup_insert_ne h, if_neg h]

/-- No key is lost. -/
theorem exists_lookup_insert {t : Table κ ρ} {k k' : κ} {r r' : ρ} (h : t.lookup k' = some r') :
    ∃ x, (t.insert k r).lookup k' = some x := by
  rw [lookup_insert_eq]
  split
  · exact ⟨r, rfl⟩
  · exact ⟨r', h⟩

theorem mem_rows {t : Table κ ρ} {k : κ} {r : ρ} : (k, r) ∈ t.rows ↔ t.lookup k = some r := by
  rw [rows, List.mem_map]
  constructor
  · rintro ⟨⟨k', r'⟩, hmem, heq⟩
    cases heq
    exact AList.mem_lookup_iff.mpr hmem
  · intro h
    exact ⟨⟨k, r⟩, AList.mem_lookup_iff.mp h, rfl⟩

/-- A key has one row. -/
theorem rows_of_lookup {t : Table κ ρ} {k : κ} {r : ρ} (h : t.lookup k = some r) :
    t.rows.filter (fun e => e.1 = k) = [(k, r)] := by
  have hnodup : (t.rows.filter fun e => e.1 = k).Nodup := by
    refine (List.Nodup.of_map Prod.fst ?_).filter _
    rw [rows, List.map_map]
    exact t.nodupKeys
  refine List.perm_singleton.mp ((List.perm_ext_iff_of_nodup hnodup (List.nodup_singleton _)).mpr ?_)
  rintro ⟨k', r'⟩
  rw [List.mem_filter, mem_rows, List.mem_singleton]
  constructor
  · rintro ⟨hrow, hkey⟩
    obtain rfl : k' = k := of_decide_eq_true hkey
    rw [h] at hrow
    cases hrow
    rfl
  · rintro heq
    cases heq
    exact ⟨h, decide_eq_true rfl⟩

/-- A row that is written does not change what passes a filter that it does not pass. -/
theorem filter_rows_insert {p : κ × ρ → Bool} {t : Table κ ρ} {k : κ} {r : ρ}
    (hnew : p (k, r) = false) (hold : ∀ r₀, t.lookup k = some r₀ → p (k, r₀) = false) :
    (rows (t.insert k r)).filter p = t.rows.filter p := by
  unfold rows
  by_cases hk : k ∈ t.keys
  · obtain ⟨r₀, l₁, l₂, _, hent, herase⟩ := List.exists_of_kerase hk
    have hmem : Sigma.mk k r₀ ∈ t.entries := by
      rw [hent]
      simp
    have hrefused : p (k, r₀) = false := hold r₀ (AList.mem_lookup_iff.mpr hmem)
    rw [AList.entries_insert, herase, hent]
    simp [hnew, hrefused]
  · rw [AList.entries_insert_of_notMem hk]
    simp [hnew]

/-- The rows of the first table are rows of the second. -/
def Extends (t t' : Table κ ρ) : Prop := ∀ k r, t.lookup k = some r → t'.lookup k = some r

theorem Extends.refl (t : Table κ ρ) : t.Extends t := fun _ _ h => h

theorem Extends.insert {t : Table κ ρ} {k : κ} (h : t.lookup k = none) (r : ρ) :
    t.Extends (t.insert k r) := by
  intro k' r' hk'
  rw [lookup_insert_eq, if_neg]
  · exact hk'
  · rintro rfl
    rw [h] at hk'
    cases hk'

theorem Extends.isSome {t t' : Table κ ρ} (h : t.Extends t') {k : κ}
    (hk : (t.lookup k).isSome) : (t'.lookup k).isSome := by
  obtain ⟨r, hr⟩ := Option.isSome_iff_exists.mp hk
  rw [h k r hr]
  rfl

/-- An update of one row, in a table whose rows may change along a relation. -/
theorem updated {R : ρ → ρ → Prop} (hrefl : ∀ r, R r r)
    {t : Table κ ρ} {k : κ} {r₀ r₁ : ρ} (hk : t.lookup k = some r₀) (hR : R r₀ r₁) (k' : κ) (r : ρ)
    (hr : t.lookup k' = some r) : ∃ r', (t.insert k r₁).lookup k' = some r' ∧ R r r' := by
  rw [lookup_insert_eq]
  by_cases hkey : k' = k
  · subst hkey
    rw [hk] at hr
    cases hr
    exact ⟨r₁, if_pos rfl, hR⟩
  · exact ⟨r, by rw [if_neg hkey, hr], hrefl r⟩

omit [DecidableEq κ] in
/-- No key occurs twice. -/
theorem nodup_rows (t : Table κ ρ) : (t.rows.map Prod.fst).Nodup := by
  rw [rows, List.map_map]
  exact t.nodupKeys

section Total

variable {M : Type*} [AddCommGroup M] (val : κ → ρ → M)

/-- The sum of a value over the rows of the table. -/
def total (t : Table κ ρ) : M := (t.entries.map fun e => val e.1 e.2).sum

theorem total_insert_of_none {t : Table κ ρ} {k : κ} (h : t.lookup k = none) (r : ρ) :
    total val (t.insert k r) = total val t + val k r := by
  have hk : k ∉ t := AList.lookup_eq_none.mp h
  rw [total, AList.entries_insert_of_notMem hk, List.map_cons, List.sum_cons, add_comm]
  rfl

theorem total_insert_of_some {t : Table κ ρ} {k : κ} {r₀ : ρ} (h : t.lookup k = some r₀) (r : ρ) :
    total val (t.insert k r) = total val t - val k r₀ + val k r := by
  have hmem : Sigma.mk k r₀ ∈ t.entries := AList.mem_lookup_iff.mp h
  have hkeys : k ∈ t.entries.keys := List.mem_keys_of_mem hmem
  obtain ⟨r₁, l₁, l₂, hl₁, hent, herase⟩ := List.exists_of_kerase hkeys
  have hr : r₁ = r₀ := by
    have hmem₁ : Sigma.mk k r₁ ∈ t.entries := by rw [hent]; simp
    exact t.nodupKeys.eq_of_mk_mem hmem₁ hmem
  subst hr
  rw [total, AList.entries_insert, herase, total, hent]
  simp only [List.map_cons, List.map_append, List.sum_cons, List.sum_append]
  abel

end Total

/-- A sum over the rows is monotone in the value that is added up. -/
theorem total_le_total {M : Type*} [AddCommGroup M] [PartialOrder M] [IsOrderedAddMonoid M]
    {val val' : κ → ρ → M} {t : Table κ ρ}
    (h : ∀ k r, t.lookup k = some r → val k r ≤ val' k r) : total val t ≤ total val' t := by
  refine List.sum_le_sum fun e he => ?_
  exact h e.1 e.2 (AList.mem_lookup_iff.mpr he)

section Count

variable (P : κ → ρ → Bool) {t t' : Table κ ρ}

/-- `SELECT count(*)` of the rows with a property. -/
def count (t : Table κ ρ) : ℕ := (t.rows.filter fun r => P r.1 r.2).length

/-- The keys of the rows with a property. -/
def keysWith (t : Table κ ρ) : List κ := (t.rows.filter fun r => P r.1 r.2).map Prod.fst

omit [DecidableEq κ] in
theorem length_keysWith (t : Table κ ρ) : (keysWith P t).length = count P t := List.length_map _

omit [DecidableEq κ] in
theorem nodup_keysWith (t : Table κ ρ) : (keysWith P t).Nodup :=
  (nodup_rows t).sublist (List.filter_sublist.map _)

theorem mem_keysWith {k : κ} : k ∈ keysWith P t ↔ ∃ r, t.lookup k = some r ∧ P k r = true := by
  unfold keysWith
  rw [List.mem_map]
  constructor
  · rintro ⟨⟨k', r⟩, hmem, rfl⟩
    obtain ⟨hrow, hP⟩ := List.mem_filter.mp hmem
    exact ⟨r, mem_rows.mp hrow, hP⟩
  · rintro ⟨r, hrow, hP⟩
    exact ⟨(k, r), List.mem_filter.mpr ⟨mem_rows.mpr hrow, hP⟩, rfl⟩

/-- **A count does not decrease if no row with the property loses it.** -/
theorem count_le_count (h : ∀ k r, t.lookup k = some r → P k r = true →
    ∃ r', t'.lookup k = some r' ∧ P k r' = true) : count P t ≤ count P t' := by
  rw [← length_keysWith, ← length_keysWith]
  refine (nodup_keysWith P t).length_le_of_subset fun k hk => ?_
  obtain ⟨r, hr, hP⟩ := (mem_keysWith P).mp hk
  exact (mem_keysWith P).mpr (h k r hr hP)

theorem count_le_of_extends (h : t.Extends t') : count P t ≤ count P t' :=
  count_le_count P fun k r hr hP => ⟨r, h k r hr, hP⟩

/-- **A count decreases if a row loses the property and none gets it.** -/
theorem count_lt_count {k : κ} {r : ρ} (hr : t.lookup k = some r) (hP : P k r = true)
    (hlost : ∀ r', t'.lookup k = some r' → P k r' = false)
    (h : ∀ k r', t'.lookup k = some r' → P k r' = true → ∃ r, t.lookup k = some r ∧ P k r = true) :
    count P t' < count P t := by
  rw [← length_keysWith, ← length_keysWith]
  have hnew : k ∉ keysWith P t' := by
    intro hk
    obtain ⟨r', hr', hP'⟩ := (mem_keysWith P).mp hk
    rw [hlost r' hr'] at hP'
    cases hP'
  have hnodup : (k :: keysWith P t').Nodup := List.nodup_cons.mpr ⟨hnew, nodup_keysWith P t'⟩
  have hsubset : k :: keysWith P t' ⊆ keysWith P t := by
    intro k' hk'
    obtain rfl | hk' := List.mem_cons.mp hk'
    · exact (mem_keysWith P).mpr ⟨r, hr, hP⟩
    · obtain ⟨r', hr', hP'⟩ := (mem_keysWith P).mp hk'
      exact (mem_keysWith P).mpr (h k' r' hr' hP')
  have hlength := hnodup.length_le_of_subset hsubset
  rw [List.length_cons] at hlength
  omega

theorem count_pos {k : κ} {r : ρ} (hr : t.lookup k = some r) (hP : P k r = true) :
    0 < count P t := by
  rw [← length_keysWith]
  exact List.length_pos_of_mem ((mem_keysWith P).mpr ⟨r, hr, hP⟩)

end Count

end Table

end PosttrainPlatform
