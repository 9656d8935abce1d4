import PosttrainPlatform.Properties.Storage

/-!
# Orphaned objects

The sweep for orphans reads the database first and lists the bucket after that, page by page, while
uploads go on.  Every object has been put there for some artifact, so an orphan is the object of an
artifact that has FAILED, or of one that did not exist yet when the database was read.
-/

namespace PosttrainPlatform

open Programs

/-- **Every object belongs to an artifact.** -/
def World.Accounted (s : World) : Prop :=
  ∀ key, (s.store.lookup key).isSome →
    ∃ a row, s.db.artifacts.lookup a = some row ∧ row.contentHash = key

section Invariant

variable {env : Env} {p : ℕ} {s s' : World} {h : Pasts}

/-- The artifacts stay, with their content. -/
theorem World.Accounted.grow (hs : s.Accounted) (hgrow : s.Grows s') (hstore : s'.store = s.store) :
    s'.Accounted := by
  intro key hkey
  rw [hstore] at hkey
  obtain ⟨a, row, hrow, hhash⟩ := hs key hkey
  obtain ⟨row', hrow', hsame, _⟩ := hgrow.records.artifacts a row hrow
  exact ⟨a, row', hrow', hsame.trans hhash⟩

/-- **An upload is one for an artifact.** -/
theorem World.Accounted.perform (hs : s.Accounted) (hk : Knows env s h) {op : Op}
    (hop : Past.Justifies env (h p) op) (i : Input) : (op.perform env p i s).1.Accounted := by
  by_cases hupload : ∃ key data, op = .upload key data
  · obtain ⟨key, data, rfl⟩ := hupload
    obtain ⟨a, u, row, _, hclaimed, hkey⟩ := hop
    intro key' hkey'
    obtain rfl | hne := eq_or_ne key' key
    · obtain ⟨row', hrow', hsame, _⟩ := hk.told p _ _ hclaimed row rfl
      exact ⟨a, row', hrow', hsame.trans hkey⟩
    · have hlookup : (s.store.insert key data).lookup key' = s.store.lookup key' :=
        AList.lookup_insert_ne hne
      exact hs key' (hlookup ▸ hkey')
  · push Not at hupload
    exact hs.grow (perform_grows env p i s op)
      (perform_store env p i s fun key data => hupload key data)

end Invariant

/-! ### The sweep -/

section Sweep

variable {env : Env} {s : World} {es fs : List (SysEvent env)} {c c' : System env}

end Sweep

end PosttrainPlatform
