import Mathlib.Data.Nat.Notation
import Mathlib.Order.Lattice

/-!
# Fencing registers

A register says who owns a resource, and counts the acquisitions.  It can be acquired only while
nobody owns it, and the count is the fencing token of the new owner; giving it up does not change the
count.  Whoever has held a token and lost it never holds it again: the count has either moved on, or
stays where it is without an owner until it moves on.
-/

namespace PosttrainPlatform.Fencing

variable {Owner : Type*}

structure Register (Owner : Type*) where
  owner : Option Owner
  epoch : ℕ

namespace Register

/-- `w` owns the register under token `k`. -/
def Holds (r : Register Owner) (w : Owner) (k : ℕ) : Prop := r.owner = some w ∧ r.epoch = k

/-- What can happen to a register. -/
inductive Step : Register Owner → Register Owner → Prop
  | keep (r : Register Owner) : Step r r
  | acquire {r : Register Owner} (w : Owner) (h : r.owner = none) :
      Step r { owner := some w, epoch := r.epoch + 1 }
  | giveUp (r : Register Owner) : Step r { r with owner := none }

/-- The token `k` has been given out, and `w` does not hold it. -/
def Lost (r : Register Owner) (w : Owner) (k : ℕ) : Prop := k ≤ r.epoch ∧ ¬ r.Holds w k

theorem Step.epoch_le {r r' : Register Owner} (h : Step r r') : r.epoch ≤ r'.epoch := by
  cases h with
  | keep => exact le_refl _
  | acquire w h => exact Nat.le_succ _
  | giveUp => exact le_refl _

/-- **A lost token stays lost.** -/
theorem Lost.step {r r' : Register Owner} {w : Owner} {k : ℕ} (hlost : r.Lost w k)
    (h : Step r r') : r'.Lost w k := by
  refine ⟨le_trans hlost.1 h.epoch_le, ?_⟩
  rintro ⟨howner, hepoch⟩
  cases h with
  | keep => exact hlost.2 ⟨howner, hepoch⟩
  | acquire w' hfree =>
      have hk : r.epoch + 1 = k := hepoch
      have hle : k ≤ r.epoch := hlost.1
      omega
  | giveUp => cases howner

/-- A holder still holds its token after a step, or has lost it. -/
theorem Holds.step {r r' : Register Owner} {w : Owner} {k : ℕ} (hh : r.Holds w k)
    (h : Step r r') : r'.Holds w k ∨ r'.Lost w k := by
  by_cases hh' : r'.Holds w k
  · exact Or.inl hh'
  · refine Or.inr ⟨?_, hh'⟩
    rw [← hh.2]
    exact h.epoch_le

end Register

end PosttrainPlatform.Fencing
