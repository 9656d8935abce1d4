import Mathlib.Data.List.Induction
import PosttrainPlatform.Lib.Runs

/-!
# The last event of a kind

Some events of a run show a value, and a part of the state often says what the last of them has
shown.  `Latest` is that value, if there is one, with the place in the run where it was shown;
`latest_of_run` is the induction that reads an invariant about it off one step.
-/

namespace PosttrainPlatform.Runs

variable {σ ε τ : Type*}

/-- No event of the run shows a value. -/
abbrev Silent (step : σ → ε → Option σ) (shows : σ → ε → τ → Prop) : σ → List ε → Prop :=
  Always step fun s e => ∀ t, ¬ shows s e t

/-- `some t` is what the last event that shows a value shows; `none` stands for a silent run. -/
inductive Latest (step : σ → ε → Option σ) (shows : σ → ε → τ → Prop) (s : σ) :
    List ε → Option τ → Prop
  | quiet {es : List ε} (hsilent : Silent step shows s es) : Latest step shows s es none
  | shown {before after : List ε} {e : ε} {m m' : σ} {t : τ}
      (hbefore : runFrom step s before = some m) (hstep : step m e = some m')
      (hshows : shows m e t) (hsilent : Silent step shows m' after) :
      Latest step shows s (before ++ e :: after) (some t)

variable {step : σ → ε → Option σ} {shows : σ → ε → τ → Prop}

/-- A condition on a run and on one more event. -/
theorem always_concat {ok : σ → ε → Prop} {s m : σ} {es : List ε} {e : ε}
    (h : Always step ok s es) (hrun : runFrom step s es = some m) (he : ok m e) :
    Always step ok s (es ++ [e]) := by
  induction es generalizing s with
  | nil =>
      simp only [runFrom_nil, Option.some.injEq] at hrun
      subst hrun
      exact ⟨he, fun _ _ => trivial⟩
  | cons e' es ih =>
      refine ⟨h.1, fun k hk => ih (h.2 k hk) ?_⟩
      obtain ⟨k', hk', hrest⟩ := runFrom_cons.mp hrun
      rw [hk, Option.some.injEq] at hk'
      exact hk' ▸ hrest

/-- One more event that shows nothing. -/
theorem Latest.silent {s m : σ} {es : List ε} {e : ε} {o : Option τ}
    (h : Latest step shows s es o) (hrun : runFrom step s es = some m)
    (he : ∀ t, ¬ shows m e t) : Latest step shows s (es ++ [e]) o := by
  cases h with
  | quiet hsilent => exact .quiet (always_concat hsilent hrun he)
  | @shown before after e' k k' t hbefore hstep hshows hsilent =>
      have hafter : runFrom step k' after = some m := by
        obtain ⟨l, hl, hrest⟩ := runFrom_append.mp hrun
        rw [hbefore, Option.some.injEq] at hl
        subst hl
        obtain ⟨l', hl', hend⟩ := runFrom_cons.mp hrest
        rw [hstep, Option.some.injEq] at hl'
        exact hl' ▸ hend
      rw [List.append_assoc, List.cons_append]
      exact .shown hbefore hstep hshows (always_concat hsilent hafter he)

/-- **What a step keeps of the last value that was shown holds after every run.** -/
theorem latest_of_run {P : Option τ → σ → Prop}
    (hshow : ∀ s e s' t, step s e = some s' → shows s e t → P (some t) s')
    (hkeep : ∀ s e s' o, step s e = some s' → (∀ t, ¬ shows s e t) → P o s → P o s')
    {s s' : σ} {es : List ε} (hs : P none s) (hrun : runFrom step s es = some s') :
    ∃ o, Latest step shows s es o ∧ P o s' := by
  induction es using List.reverseRecOn generalizing s' with
  | nil =>
      simp only [runFrom_nil, Option.some.injEq] at hrun
      exact ⟨none, .quiet trivial, hrun ▸ hs⟩
  | append_singleton es e ih =>
      obtain ⟨m, hm, hlast⟩ := runFrom_append.mp hrun
      obtain ⟨k, hk, hend⟩ := runFrom_cons.mp hlast
      rw [runFrom_nil, Option.some.injEq] at hend
      subst hend
      by_cases he : ∃ t, shows m e t
      · obtain ⟨t, ht⟩ := he
        exact ⟨some t, .shown hm hk ht trivial, hshow m e k t hk ht⟩
      · have hnone : ∀ t, ¬ shows m e t := fun t ht => he ⟨t, ht⟩
        obtain ⟨o, ho, hP⟩ := ih hm
        exact ⟨o, ho.silent hm hnone, hkeep m e k o hk hnone hP⟩

end PosttrainPlatform.Runs
