import Mathlib.Logic.Basic
import Mathlib.Data.Nat.Notation

/-!
# Runs of an event-driven system

A system is a partial step function: an event either takes a state to a state or does not apply
there.  `runFrom` executes a list of events; `Always ok` says that every event of a run meets a
condition in the state it is executed in, and `tally` counts the events that do.  The induction over
a run is done once, in `run_invariant` and `run_invariant_of_always`: a property of states needs only
its step lemma.
-/

namespace PosttrainPlatform.Runs

variable {σ ε : Type*}

/-- Execute a list of events from a state; `none` as soon as one of them does not apply. -/
def runFrom (step : σ → ε → Option σ) : σ → List ε → Option σ
  | s, [] => some s
  | s, e :: es =>
      match step s e with
      | some s' => runFrom step s' es
      | none => none

/-- Every event of the run meets `ok` in the state it is executed in. -/
def Always (step : σ → ε → Option σ) (ok : σ → ε → Prop) : σ → List ε → Prop
  | _, [] => True
  | s, e :: es => ok s e ∧ ∀ s', step s e = some s' → Always step ok s' es

variable {step : σ → ε → Option σ} {ok : σ → ε → Prop}

instance decidableAlways [∀ s e, Decidable (ok s e)] :
    (s : σ) → (es : List ε) → Decidable (Always step ok s es)
  | _, [] => isTrue trivial
  | s, e :: es =>
      match h : step s e with
      | none => decidable_of_iff (ok s e) ⟨fun hok => ⟨hok, fun m hm => by simp [h] at hm⟩, And.left⟩
      | some m =>
          have := decidableAlways m es
          decidable_of_iff (ok s e ∧ Always step ok m es) (by simp [Always, h])

@[simp] theorem runFrom_nil (s : σ) : runFrom step s [] = some s := rfl

theorem runFrom_cons {s s' : σ} {e : ε} {es : List ε} :
    runFrom step s (e :: es) = some s' ↔
      ∃ m, step s e = some m ∧ runFrom step m es = some s' := by
  show (match step s e with | some m => runFrom step m es | none => none) = some s' ↔ _
  cases step s e with
  | none => exact ⟨nofun, fun ⟨_, hm, _⟩ => nomatch hm⟩
  | some m =>
      refine ⟨fun h => ⟨m, rfl, h⟩, fun ⟨k, hk, h⟩ => ?_⟩
      cases hk
      exact h

theorem runFrom_append {s s' : σ} {es fs : List ε} :
    runFrom step s (es ++ fs) = some s' ↔
      ∃ m, runFrom step s es = some m ∧ runFrom step m fs = some s' := by
  induction es generalizing s with
  | nil => simp
  | cons e es ih =>
      simp only [List.cons_append, runFrom_cons, ih]
      constructor
      · rintro ⟨m, hm, k, hk, hs⟩
        exact ⟨k, ⟨m, hm, hk⟩, hs⟩
      · rintro ⟨k, ⟨m, hm, hk⟩, hs⟩
        exact ⟨m, hm, k, hk, hs⟩

/-- **Invariance along a run whose steps meet a condition.** -/
theorem run_invariant_of_always {I : σ → Prop}
    (hstep : ∀ s e s', I s → ok s e → step s e = some s' → I s') {s s' : σ} {es : List ε}
    (hs : I s) (hok : Always step ok s es) (hrun : runFrom step s es = some s') : I s' := by
  induction es generalizing s with
  | nil =>
      simp only [runFrom_nil, Option.some.injEq] at hrun
      exact hrun ▸ hs
  | cons e es ih =>
      obtain ⟨m, hm, hrun⟩ := runFrom_cons.mp hrun
      exact ih (hstep s e m hs hok.1 hm) (hok.2 m hm) hrun

/-- A condition on a run is one on its two parts. -/
theorem always_append {s m : σ} {es fs : List ε} (hrun : runFrom step s es = some m)
    (h : Always step ok s (es ++ fs)) : Always step ok s es ∧ Always step ok m fs := by
  induction es generalizing s with
  | nil =>
      simp only [runFrom_nil, Option.some.injEq] at hrun
      exact ⟨trivial, hrun ▸ h⟩
  | cons e es ih =>
      obtain ⟨k, hk, hrun⟩ := runFrom_cons.mp hrun
      obtain ⟨hbefore, hafter⟩ := ih hrun (h.2 k hk)
      refine ⟨⟨h.1, fun k' hk' => ?_⟩, hafter⟩
      rw [hk, Option.some.injEq] at hk'
      exact hk' ▸ hbefore

theorem always_of_forall (h : ∀ s e, ok s e) (s : σ) (es : List ε) : Always step ok s es := by
  induction es generalizing s with
  | nil => trivial
  | cons e es ih => exact ⟨h s e, fun m _ => ih m⟩

/-- A condition that does not look at the state. -/
theorem always_of_mem {ok : ε → Prop} {es : List ε} (h : ∀ e ∈ es, ok e) (s : σ) :
    Always step (fun _ e => ok e) s es := by
  induction es generalizing s with
  | nil => trivial
  | cons e es ih =>
      have hrest : ∀ e' ∈ es, ok e' := fun e' he' => h e' (List.mem_cons_of_mem e he')
      exact ⟨h e List.mem_cons_self, fun m _ => ih hrest m⟩

theorem always_and {ok' : σ → ε → Prop} {s : σ} {es : List ε} (h : Always step ok s es)
    (h' : Always step ok' s es) : Always step (fun s e => ok s e ∧ ok' s e) s es := by
  induction es generalizing s with
  | nil => trivial
  | cons e es ih => exact ⟨⟨h.1, h'.1⟩, fun m hm => ih (h.2 m hm) (h'.2 m hm)⟩

theorem always_mono {ok' : σ → ε → Prop} (hmono : ∀ s e, ok s e → ok' s e) {s : σ} {es : List ε}
    (h : Always step ok s es) : Always step ok' s es := by
  induction es generalizing s with
  | nil => trivial
  | cons e es ih => exact ⟨hmono s e h.1, fun m hm => ih (h.2 m hm)⟩

/-- **Invariance along every run.** -/
theorem run_invariant {I : σ → Prop} (hstep : ∀ s e s', I s → step s e = some s' → I s')
    {s s' : σ} {es : List ε} (hs : I s) (hrun : runFrom step s es = some s') : I s' := by
  have hok : Always step (fun _ _ => True) s es := always_of_forall (fun _ _ => trivial) s es
  exact run_invariant_of_always (fun s e s' h _ => hstep s e s' h) hs hok hrun

/-- How many events of a run meet a condition in the state they are executed in. -/
def tally (step : σ → ε → Option σ) (hit : σ → ε → Bool) : σ → List ε → ℕ
  | _, [] => 0
  | s, e :: es =>
      match step s e with
      | some s' => (hit s e).toNat + tally step hit s' es
      | none => 0

/-- **A measure that moves by one exactly at the hits counts them.** -/
theorem measure_eq_add_tally {hit : σ → ε → Bool} {m : σ → ℕ}
    (hstep : ∀ s e s', step s e = some s' → m s' = m s + (hit s e).toNat) {s s' : σ} {es : List ε}
    (hrun : runFrom step s es = some s') : m s' = m s + tally step hit s es := by
  induction es generalizing s with
  | nil =>
      simp only [runFrom_nil, Option.some.injEq] at hrun
      subst hrun
      rfl
  | cons e es ih =>
      obtain ⟨k, hk, hrest⟩ := runFrom_cons.mp hrun
      have hhead := hstep s e k hk
      have htail := ih hrest
      simp only [tally, hk]
      omega

/-- No event is a hit exactly if the tally is zero. -/
theorem tally_eq_zero {hit : σ → ε → Bool} {s s' : σ} {es : List ε}
    (hrun : runFrom step s es = some s') :
    tally step hit s es = 0 ↔ Always step (fun s e => hit s e = false) s es := by
  induction es generalizing s with
  | nil => exact iff_of_true rfl trivial
  | cons e es ih =>
      obtain ⟨k, hk, hrest⟩ := runFrom_cons.mp hrun
      simp only [tally, hk, Always, Option.some.injEq, forall_eq', ← ih hrest]
      cases hit s e <;> simp

section Reached

variable {I J : σ → Prop} {s : σ}

/-- A fact about every state that is reached from here holds of those reached after a step. -/
theorem reached_of_step {e : ε} {m : σ} (hJ : ∀ fs m, runFrom step s fs = some m → J m)
    (he : step s e = some m) : ∀ fs m', runFrom step m fs = some m' → J m' :=
  fun fs m' hm' => hJ (e :: fs) m' (runFrom_cons.mpr ⟨m, he, hm'⟩)

/-- Invariance along a run whose states are known to meet `J`. -/
theorem run_invariant_of_reached (hJ : ∀ fs m, runFrom step s fs = some m → J m)
    (hstep : ∀ m e m', J m → I m → step m e = some m' → I m') {s' : σ} {es : List ε} (hs : I s)
    (hrun : runFrom step s es = some s') : I s' := by
  induction es generalizing s with
  | nil =>
      simp only [runFrom_nil, Option.some.injEq] at hrun
      exact hrun ▸ hs
  | cons e es ih =>
      obtain ⟨m, hm, hrun⟩ := runFrom_cons.mp hrun
      exact ih (reached_of_step hJ hm) (hstep s e m (hJ [] s rfl) hs hm) hrun

/-- What every event does in a state that meets `J`. -/
theorem always_of_reached (hJ : ∀ fs m, runFrom step s fs = some m → J m)
    (h : ∀ m e, J m → ok m e) (es : List ε) : Always step ok s es := by
  induction es generalizing s with
  | nil => trivial
  | cons e es ih => exact ⟨h s e (hJ [] s rfl), fun m hm => ih (reached_of_step hJ hm)⟩

/-- When a step keeps the invariant exactly if it meets a condition, the invariant holds all along a
run exactly if every step meets the condition. -/
theorem invariant_iff_always_of_reached (hJ : ∀ fs m, runFrom step s fs = some m → J m)
    (hstep : ∀ m e m', J m → I m → step m e = some m' → (I m' ↔ ok m e)) {s' : σ} {es : List ε}
    (hs : I s) (hrun : runFrom step s es = some s') :
    (∀ fs m, fs <+: es → runFrom step s fs = some m → I m) ↔ Always step ok s es := by
  induction es generalizing s with
  | nil =>
      refine ⟨fun _ => trivial, fun _ fs m hfs hm => ?_⟩
      rw [List.prefix_nil.mp hfs, runFrom_nil, Option.some.injEq] at hm
      exact hm ▸ hs
  | cons e es ih =>
      obtain ⟨k, hk, hrest⟩ := runFrom_cons.mp hrun
      have hkeeps := hstep s e k (hJ [] s rfl) hs hk
      have hJ' := reached_of_step hJ hk
      constructor
      · intro hall
        have hIk : I k := hall [e] k ⟨es, rfl⟩ (runFrom_cons.mpr ⟨k, hk, rfl⟩)
        refine ⟨hkeeps.mp hIk, fun m hm => ?_⟩
        rw [hk, Option.some.injEq] at hm
        subst hm
        refine (ih hJ' hIk hrest).mp fun fs m hfs hm => ?_
        obtain ⟨gs, rfl⟩ := hfs
        exact hall (e :: fs) m ⟨gs, rfl⟩ (runFrom_cons.mpr ⟨k, hk, hm⟩)
      · rintro ⟨hok, hoks⟩ fs m hfs hm
        have hIk := hkeeps.mpr hok
        cases fs with
        | nil =>
            rw [runFrom_nil, Option.some.injEq] at hm
            exact hm ▸ hs
        | cons e' fs =>
            obtain ⟨rfl, hfs'⟩ := List.cons_prefix_cons.mp hfs
            obtain ⟨k', hk', hm⟩ := runFrom_cons.mp hm
            rw [hk, Option.some.injEq] at hk'
            subst hk'
            exact (ih hJ' hIk hrest).mpr (hoks k hk) fs m hfs' hm

end Reached

theorem invariant_iff_always {I : σ → Prop}
    (hstep : ∀ s e s', I s → step s e = some s' → (I s' ↔ ok s e)) {s s' : σ} {es : List ε}
    (hs : I s) (hrun : runFrom step s es = some s') :
    (∀ fs m, fs <+: es → runFrom step s fs = some m → I m) ↔ Always step ok s es :=
  invariant_iff_always_of_reached (J := fun _ => True) (fun _ _ _ => trivial)
    (fun m e m' _ => hstep m e m') hs hrun

end PosttrainPlatform.Runs
