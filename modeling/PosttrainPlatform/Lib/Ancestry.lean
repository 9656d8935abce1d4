import Mathlib.Data.List.Nodup
import Mathlib.Logic.Relation
import Mathlib.Order.WellFounded

/-!
# Ancestors in a growing store

The records of a store refer to each other.  A store that grows only by records that nobody refers to
yet keeps its references well-founded, whatever the new record refers to.  Where every record names at
most one parent, following the parents then ends, and never comes back.
-/

namespace Ancestry

/-! ### References -/

section References

variable {α : Type} {R R' : α → α → Prop} {a : α}

/-- **A new record that nobody refers to** keeps the references well-founded. -/
theorem wellFounded_of_source (hwf : WellFounded fun y x => R x y)
    (hold : ∀ x y, R' x y → x = a ∨ R x y) (hnew : ∀ x, ¬R' x a) :
    WellFounded fun y x => R' x y := by
  have hother : ∀ x, x ≠ a → Acc (fun y x => R' x y) x := by
    intro x
    induction x using hwf.induction with
    | _ x ih =>
        intro hx
        refine Acc.intro x fun y hxy => ?_
        have hy : y ≠ a := fun hy => hnew x (hy ▸ hxy)
        obtain rfl | hR := hold x y hxy
        · exact absurd rfl hx
        · exact ih y hR hy
  refine ⟨fun x => Acc.intro x fun y hxy => hother y ?_⟩
  intro hy
  exact hnew x (hy ▸ hxy)

/-- Nothing is its own ancestor. -/
theorem not_transGen_self (hwf : WellFounded fun y x => R x y) (x : α) :
    ¬Relation.TransGen R x x := by
  intro h
  have hcycle : Relation.TransGen (fun y x => R x y) x x := Relation.transGen_swap.mp h
  exact hwf.transGen.irrefl.irrefl x hcycle

end References

/-! ### Parents -/

section Parents

variable {α : Type} {parent : α → Option α} {a b : α} {l l' : List α}

/-- A record, its parent, and so on to a record without a parent. -/
inductive Chain (parent : α → Option α) : α → List α → Prop
  | last {a : α} (h : parent a = none) : Chain parent a [a]
  | step {a b : α} {l : List α} (h : parent a = some b) (hl : Chain parent b l) :
      Chain parent a (a :: l)

/-- **Following the parents ends.** -/
theorem exists_chain (hwf : WellFounded fun b a => parent a = some b) (a : α) :
    ∃ l, Chain parent a l := by
  induction a using hwf.induction with
  | _ a ih =>
      cases h : parent a with
      | none => exact ⟨[a], .last h⟩
      | some b =>
          obtain ⟨l, hl⟩ := ih b h
          exact ⟨a :: l, .step h hl⟩

/-- There is one way to follow them. -/
theorem Chain.unique (h : Chain parent a l) (h' : Chain parent a l') : l = l' := by
  induction h generalizing l' with
  | last hnone =>
      cases h' with
      | last _ => rfl
      | step hsome _ => rw [hnone] at hsome; cases hsome
  | step hsome _ ih =>
      cases h' with
      | last hnone => rw [hnone] at hsome; cases hsome
      | step hsome' hl' =>
          obtain rfl := Option.some.inj (hsome.symm.trans hsome')
          rw [ih hl']

/-- Whoever is in a chain is where it begins, or an ancestor of that. -/
theorem Chain.eq_or_ancestor (h : Chain parent a l) (hb : b ∈ l) :
    b = a ∨ Relation.TransGen (fun x y => parent x = some y) a b := by
  induction h with
  | last _ => exact .inl (List.mem_singleton.mp hb)
  | step hsome _ ih =>
      obtain rfl | hb := List.mem_cons.mp hb
      · exact .inl rfl
      · obtain rfl | hb := ih hb
        · exact .inr (.single hsome)
        · exact .inr (.head hsome hb)

/-- **No record is twice in a chain.** -/
theorem Chain.nodup (hwf : WellFounded fun b a => parent a = some b) (h : Chain parent a l) :
    l.Nodup := by
  induction h with
  | last _ => exact List.nodup_singleton _
  | @step a b l hsome hl ih =>
      refine List.nodup_cons.mpr ⟨fun ha => ?_, ih⟩
      -- the record would be an ancestor of its parent
      have hback : Relation.TransGen (fun x y => parent x = some y) a a := by
        obtain rfl | hback := hl.eq_or_ancestor ha
        · exact .single hsome
        · exact .head hsome hback
      exact not_transGen_self hwf a hback

end Parents

end Ancestry
