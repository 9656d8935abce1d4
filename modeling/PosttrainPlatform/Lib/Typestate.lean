import PosttrainPlatform.Lib.Programs

/-!
# Stages of programs

A protocol tells which statements a program may execute at which stage, and to which stage a
statement with its answer leads.  `Follows` checks a program against a protocol.  In a machine whose
programs follow one, every thread is at some stage, and an invariant may speak of the stages beside
the shared state: `Config.Staged` carries them along a run without a trace of them in the state.
-/

namespace PosttrainPlatform.Programs

variable {Op : Type} {Ret : Op → Type} {Exn Reply α β L : Type}

structure Protocol (Op : Type) (Ret : Op → Type) (Exn L : Type) where
  start : L
  next : L → (op : Op) → Except Exn (Ret op) → L
  allowed : L → Op → Prop

namespace Prog

variable (P : Protocol Op Ret Exn L)

/-- From stage `l` on the program keeps to the protocol, and ends at a stage that meets `Q`. -/
def Follows : L → Prog Op Ret Exn α → (L → Prop) → Prop
  | l, ret _, Q => Q l
  | l, raise _, Q => Q l
  | l, call op k, Q => P.allowed l op ∧ ∀ r, Follows (P.next l op r) (k r) Q

variable {P}

theorem Follows.mono {p : Prog Op Ret Exn α} {l : L} {Q R : L → Prop} (h : p.Follows P l Q)
    (hQ : ∀ m, Q m → R m) : p.Follows P l R := by
  induction p generalizing l with
  | ret a => exact hQ l h
  | raise e => exact hQ l h
  | call op k ih => exact ⟨h.1, fun r => ih r (h.2 r)⟩

/-- **Sequencing.** -/
theorem follows_bind {p : Prog Op Ret Exn α} {f : α → Prog Op Ret Exn β} {l : L} {Q R : L → Prop}
    (hp : p.Follows P l Q) (hf : ∀ a m, Q m → (f a).Follows P m R) (hraise : ∀ m, Q m → R m) :
    (p >>= f).Follows P l R := by
  induction p generalizing l with
  | ret a => exact hf a l hp
  | raise e => exact hraise l hp
  | call op k ih => exact ⟨hp.1, fun r => ih r (hp.2 r)⟩

theorem follows_attempt {p : Prog Op Ret Exn α} {l : L} {Q : L → Prop} (hp : p.Follows P l Q) :
    (attempt p).Follows P l Q := by
  induction p generalizing l with
  | ret a => exact hp
  | raise e => exact hp
  | call op k ih => exact ⟨hp.1, fun r => ih r (hp.2 r)⟩

/-- One statement, and the rest of the program. -/
theorem follows_perform_bind {op : Op} {f : Ret op → Prog Op Ret Exn β} {l : L} {R : L → Prop}
    (hop : P.allowed l op) (hok : ∀ a, (f a).Follows P (P.next l op (.ok a)) R)
    (herror : ∀ e, R (P.next l op (.error e))) : (perform op >>= f).Follows P l R := by
  refine ⟨hop, fun r => ?_⟩
  cases r with
  | ok a => exact hok a
  | error e => exact herror e

/-- A program whose statements are allowed at the stages `I`, and lead to such stages. -/
theorem follows_of_all {φ : Op → Prop} {I : L → Prop}
    (hop : ∀ l op, I l → φ op → P.allowed l op ∧ ∀ r, I (P.next l op r)) {p : Prog Op Ret Exn α}
    (hp : p.All φ) {l : L} (hl : I l) : p.Follows P l I := by
  induction p generalizing l with
  | ret a => exact hl
  | raise e => exact hl
  | call op k ih =>
      exact ⟨(hop l op hl hp.1).1, fun r => ih r (hp.2 r) ((hop l op hl hp.1).2 r)⟩

end Prog

/-! ### Stages in a machine -/

variable {M : Machine Op Ret Exn Reply}

/-- The statement at which the event makes a program fail, if it does and the program goes on. -/
def Config.AtFault (φ : Op → M.State → Prop) (c : Config M) : Event M → Prop
  | .fault p _ => ∀ call op k, c.AtOp p call op k → φ op c.shared
  | _ => True

instance {φ : Op → M.State → Prop} [∀ op s, Decidable (φ op s)] (c : Config M) :
    (e : Event M) → Decidable (c.AtFault φ e)
  | .fault p _ => decidable_of_iff (∀ op ∈ c.pending p, φ op c.shared) <| by
      simp only [Option.mem_def, Config.pending_eq_some]
      exact ⟨fun h call op k hat => h op ⟨call, k, hat⟩, fun h op ⟨call, k, hat⟩ => h call op k hat⟩
  | .start .. | .step .. | .crash _ | .ambient _ => isTrue trivial

/-- The threads are at stages that meet `J` together with the shared state. -/
def Config.Staged (P : Protocol Op Ret Exn L) (J : M.State → (ℕ → L) → Prop) (c : Config M) :
    Prop :=
  ∃ stage : ℕ → L, J c.shared stage ∧ ∀ p t, c.threads p = some t → t.alive = true →
    t.prog.Follows P (stage p) fun _ => True

/-- `J` is an invariant of the stages and the shared state, in runs whose states meet `K`, whose
statements meet `φ` and whose failing statements meet `γ`. -/
structure StageInvariant (P : Protocol Op Ret Exn L) (J : M.State → (ℕ → L) → Prop)
    (K : M.State → Prop) (φ : Op → M.Input → M.State → Prop) (γ : Op → M.State → Prop) : Prop where
  program : ∀ call, (M.program call).Follows P P.start fun _ => True
  idle : ∀ p s stage, J s stage → J s (Function.update stage p P.start)
  perform : ∀ p i call op s stage, K s → J s stage → P.allowed (stage p) op → φ op i s →
    J (M.perform p call op i s).1
      (Function.update stage p (P.next (stage p) op (M.perform p call op i s).2))
  fault : ∀ p e op s stage, K s → J s stage → P.allowed (stage p) op → γ op s →
    J s (Function.update stage p (P.next (stage p) op (.error e)))
  halt : ∀ p s stage, J s stage → J (M.halt p s) stage
  ambient : ∀ a s stage, K s → J s stage → J (M.ambient a s) stage

section Staged

variable {P : Protocol Op Ret Exn L} {J : M.State → (ℕ → L) → Prop} {K : M.State → Prop}
  {φ : Op → M.Input → M.State → Prop} {γ : Op → M.State → Prop} {c : Config M}

/-- A thread moves to another stage. -/
theorem Config.Staged.set {stage : ℕ → L} (hall : ∀ p t, c.threads p = some t → t.alive = true →
    t.prog.Follows P (stage p) fun _ => True) {p : ℕ} {s : M.State} {t : Thread M} {l : L}
    (hJ : J s (Function.update stage p l))
    (ht : t.alive = true → t.prog.Follows P l fun _ => True) : (c.set p s t).Staged P J := by
  refine ⟨Function.update stage p l, hJ, fun q t' hq halive => ?_⟩
  by_cases hqp : q = p
  · subst hqp
    simp only [Config.set, Function.update_self, Option.some.injEq] at hq
    subst hq
    rw [Function.update_self]
    exact ht halive
  · simp only [Config.set, Function.update_of_ne hqp] at hq
    rw [Function.update_of_ne hqp]
    exact hall q t' hq halive

/-- **One event of a machine whose programs follow a protocol.** -/
theorem Config.Staged.step (hJ : StageInvariant P J K φ γ) {c' : Config M} {e : Event M}
    (hK : K c.shared) (h : c.Staged P J) (hφ : c.AtStep φ e) (hγ : c.AtFault γ e)
    (hstep : c.step e = some c') : c'.Staged P J := by
  obtain ⟨stage, hs, hall⟩ := h
  obtain ⟨p, call, rfl, hp, rfl⟩ | ⟨p, i, call, op, k, rfl, hat, rfl⟩ |
    ⟨p, x, call, op, k, rfl, hat, rfl⟩ | ⟨p, call, op, k, rfl, hat, rfl⟩ | ⟨a, rfl, rfl⟩ :=
    Config.step_cases hstep
  · exact .set hall (hJ.idle p c.shared stage hs) fun _ => hJ.program call
  · have hfollows := hall p _ hat rfl
    have hnext := hJ.perform p i call op c.shared stage hK hs hfollows.1 (hφ call op k hat)
    exact .set hall hnext fun _ => hfollows.2 _
  · have hfollows := hall p _ hat rfl
    have hnext := hJ.fault p x op c.shared stage hK hs hfollows.1 (hγ call op k hat)
    exact .set hall hnext fun _ => hfollows.2 _
  · refine .set hall (hJ.idle p _ stage (hJ.halt p c.shared stage hs)) fun halive => ?_
    cases halive
  · exact ⟨stage, hJ.ambient a c.shared stage hK hs, hall⟩

/-- **The stages of a whole run.** -/
theorem Config.staged_of_run (hJ : StageInvariant P J K φ γ) {s : M.State} {es : List (Event M)}
    (hs : J s fun _ => P.start)
    (hK : ∀ fs c, Runs.runFrom Config.step ({ shared := s } : Config M) fs = some c → K c.shared)
    (hφ : Runs.Always Config.step (Config.AtStep φ) ({ shared := s } : Config M) es)
    (hγ : Runs.Always Config.step (Config.AtFault γ) ({ shared := s } : Config M) es)
    (hrun : Runs.runFrom Config.step ({ shared := s } : Config M) es = some c) : c.Staged P J := by
  have hreached : Runs.Always Config.step (fun c _ => K c.shared) ({ shared := s } : Config M) es :=
    Runs.always_of_reached hK (fun _ _ h => h) es
  have hinit : ({ shared := s } : Config M).Staged P J := by
    refine ⟨fun _ => P.start, hs, fun p t ht => ?_⟩
    cases ht
  apply Runs.run_invariant_of_always (I := Config.Staged P J) ?_ hinit
    (Runs.always_and hreached (Runs.always_and hφ hγ)) hrun
  intro m e m' hm hok hmove
  exact hm.step hJ hok.1 hok.2.1 hok.2.2 hmove

end Staged

end PosttrainPlatform.Programs
