import PosttrainPlatform.Lib.Sequential

/-!
# Loops that run alone

A loop takes the elements of a list in turn, and adds what each turn returns to what it has so far.
When a turn returns a known answer as long as an invariant of the elements done holds, and keeps the
invariant, the loop returns, and the invariant holds of all elements.  `Repeats` runs a whole program
over and over.
-/

namespace PosttrainPlatform.Programs

namespace Prog

variable {Op : Type} {Ret : Op → Type} {Exn α β γ σ ι : Type}

/-- The program `loop` executes `turn` for each element and accumulates the answers. -/
structure IsLoop (loop : List α → γ → Prog Op Ret Exn γ) (turn : α → Prog Op Ret Exn β)
    (add : γ → β → γ) : Prop where
  nil : ∀ acc, loop [] acc = ret acc
  cons : ∀ x rest acc, loop (x :: rest) acc = turn x >>= fun b => loop rest (add acc b)

namespace IsLoop

variable {run : Meaning Op Ret Exn σ ι} {ok : ι → Prop} {loop : List α → γ → Prog Op Ret Exn γ}
  {turn : α → Prog Op Ret Exn β} {add : γ → β → γ} {P : List α → σ → Prop}
  {xs : List α}

/-- The rest of the loop, when the elements `done` have had their turn. -/
theorem ends_rest (hloop : IsLoop loop turn add) (answer : α → β)
    (hturn : ∀ done x rest s r s', xs = done ++ x :: rest → P done s →
      Ends run ok (turn x) s r s' → r = .ok (answer x) ∧ P (done ++ [x]) s')
    {done rest : List α} (hxs : xs = done ++ rest) {acc : γ} {s s' : σ} {r : Except Exn γ}
    (hP : P done s) (hend : Ends run ok (loop rest acc) s r s') :
    r = .ok ((rest.map answer).foldl add acc) ∧ P xs s' := by
  induction rest generalizing done acc s with
  | nil =>
      rw [hloop.nil] at hend
      obtain ⟨rfl, rfl⟩ := ends_ret.mp hend
      rw [hxs, List.append_nil]
      exact ⟨rfl, hP⟩
  | cons x rest ih =>
      rw [hloop.cons] at hend
      rcases ends_bind hend with ⟨e, _, hend⟩ | ⟨b, s₁, hfirst, hend⟩
      · cases (hturn done x rest s _ s' hxs hP hend).1
      · obtain ⟨hb, hP'⟩ := hturn done x rest s _ s₁ hxs hP hfirst
        cases hb
        exact ih (by rw [hxs, List.append_assoc, List.singleton_append]) hP' hend

/-- **A loop whose turns keep an invariant of the elements done returns all their answers.** -/
theorem ends (hloop : IsLoop loop turn add) (answer : α → β)
    (hturn : ∀ done x rest s r s', xs = done ++ x :: rest → P done s →
      Ends run ok (turn x) s r s' → r = .ok (answer x) ∧ P (done ++ [x]) s')
    {acc : γ} {s s' : σ} {r : Except Exn γ} (hP : P [] s)
    (hend : Ends run ok (loop xs acc) s r s') :
    r = .ok ((xs.map answer).foldl add acc) ∧ P xs s' :=
  hloop.ends_rest answer hturn (List.nil_append xs).symm hP hend

/-- A loop that counts its elements. -/
theorem ends_count {loop : List α → ℕ → Prog Op Ret Exn ℕ} {add : ℕ → β → ℕ}
    (hloop : IsLoop loop turn add) (answer : α → β) (hadd : ∀ n x, add n (answer x) = n + 1)
    (hturn : ∀ done x rest s r s', xs = done ++ x :: rest → P done s →
      Ends run ok (turn x) s r s' → r = .ok (answer x) ∧ P (done ++ [x]) s')
    {s s' : σ} {r : Except Exn ℕ} (hP : P [] s) (hend : Ends run ok (loop xs 0) s r s') :
    r = .ok xs.length ∧ P xs s' := by
  have hlength : ∀ (xs : List α) (n : ℕ), (xs.map answer).foldl add n = n + xs.length := by
    intro xs
    induction xs with
    | nil => exact fun n => rfl
    | cons x rest ih =>
        intro n
        rw [List.map_cons, List.foldl_cons, hadd, ih, List.length_cons]
        omega
  obtain ⟨hr, hxs⟩ := hloop.ends answer hturn hP hend
  rw [hlength, Nat.zero_add] at hr
  exact ⟨hr, hxs⟩

end IsLoop

/-! ### The same program over and over -/

/-- The program ends `n` times, one run after the other. -/
inductive Repeats (run : Meaning Op Ret Exn σ ι) (ok : ι → Prop) (p : Prog Op Ret Exn α) :
    ℕ → σ → σ → Prop
  | zero (s : σ) : Repeats run ok p 0 s s
  | succ {n : ℕ} {s s₁ s' : σ} {r : Except Exn α} (h : Repeats run ok p n s s₁)
      (hend : Ends run ok p s₁ r s') : Repeats run ok p (n + 1) s s'

/-- **What holds at first, and after one run more, holds after all runs.** -/
theorem Repeats.invariant {run : Meaning Op Ret Exn σ ι} {ok : ι → Prop} {p : Prog Op Ret Exn α}
    {P : ℕ → σ → Prop} {n : ℕ} {s s' : σ} (h : Repeats run ok p n s s') (h0 : P 0 s)
    (hstep : ∀ n s r s', P n s → Ends run ok p s r s' → P (n + 1) s') : P n s' := by
  induction h with
  | zero s => exact h0
  | succ _ hend ih => exact hstep _ _ _ _ (ih h0) hend

end Prog

end PosttrainPlatform.Programs
