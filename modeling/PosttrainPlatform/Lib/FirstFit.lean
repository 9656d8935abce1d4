import Mathlib.Data.Nat.Notation

/-!
# First fit

Candidates get their turns in a given order.  The one whose turn it is takes what it needs from the
state, when that is there; after `n` of them have taken something, there are no more turns.
-/

namespace PosttrainPlatform

namespace FirstFit

universe u v

variable {S : Type u} {α : Type v} (take : S → α → Option S)

/-- The candidates that get a turn, each with the state that it finds. -/
def turns : ℕ → S → List α → List (S × α)
  | _, _, [] => []
  | 0, _, _ :: _ => []
  | n + 1, s, a :: rest =>
      (s, a) :: match take s a with
        | some s' => turns n s' rest
        | none => turns (n + 1) s rest

variable {take} {n : ℕ} {s s' : S} {a : α} {l : List α}

end FirstFit

end PosttrainPlatform
