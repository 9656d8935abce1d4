import PosttrainPlatform.Lib.Programs

/-!
# Rely-guarantee contracts

A contract names the invariant of a machine, what a thread relies on the others to do, the events it
covers, and what holds when a call has ended.  A contract is sound when the program of every call is
safe; `valid_step` and `valid_run` then carry the invariant through every run that it covers.
-/

namespace PosttrainPlatform.Programs

variable {Op : Type} {Ret : Op → Type} {Exn Reply α β : Type} {M : Machine Op Ret Exn Reply}

/-- How a call has ended. -/
inductive Outcome (Exn Reply : Type)
  | returned (a : Reply)
  | raised (e : Exn)
  | died

def Outcome.ofExcept : Except Exn Reply → Outcome Exn Reply
  | .ok a => .returned a
  | .error e => .raised e

structure Contract (M : Machine Op Ret Exn Reply) where
  /-- The invariant of the shared state. -/
  inv : M.State → Prop
  /-- What the thread relies on between two of its statements. -/
  rely : ℕ → M.State → M.State → Prop := fun _ _ _ => True
  /-- The calls, statements and failures that the contract covers. -/
  mayCall : M.Call → Prop := fun _ => True
  mayStep : Op → M.Input → M.State → Prop := fun _ _ _ => True
  mayFail : Op → M.State → Prop := fun _ _ => True
  /-- What holds of a thread number that is not in use. -/
  idle : ℕ → M.State → Prop := fun _ _ => True
  /-- What holds once the call has ended. -/
  post : ℕ → M.Call → Outcome Exn Reply → M.State → Prop := fun _ _ _ _ => True

namespace Contract

variable (C : Contract M)

/-- What the contract asks of a change made by thread `p`. -/
def Guarantee (p : ℕ) (s s' : M.State) : Prop := C.inv s' ∧ ∀ q, q ≠ p → C.rely q s s'

/-- The program keeps the contract from state `s` on, and ends in `Q`. -/
def Safe (p : ℕ) (call : M.Call) (Q : Except Exn α → M.State → Prop) :
    Prog Op Ret Exn α → M.State → Prop
  | .ret a, s => Q (.ok a) s
  | .raise e, s => Q (.error e) s
  | .call op k, s => ∀ s₁, C.rely p s s₁ → C.inv s₁ →
      (∀ i, C.mayStep op i s₁ → C.Guarantee p s₁ (M.perform p call op i s₁).1 ∧
        Safe p call Q (k (M.perform p call op i s₁).2) (M.perform p call op i s₁).1) ∧
      (C.mayFail op s₁ →
        (∀ e, Safe p call Q (k (.error e)) s₁) ∧ C.post p call .died (M.halt p s₁))

/-- A contract whose programs keep it. -/
structure Sound : Prop where
  rely_refl : ∀ p s, C.rely p s s
  rely_trans : ∀ p s₁ s₂ s₃, C.rely p s₁ s₂ → C.rely p s₂ s₃ → C.rely p s₁ s₃
  ambient : ∀ a s, C.inv s → C.inv (M.ambient a s) ∧ ∀ p, C.rely p s (M.ambient a s)
  halt : ∀ p s, C.inv s → C.Guarantee p s (M.halt p s)
  idle_stable : ∀ p s s', C.idle p s → C.rely p s s' → C.idle p s'
  post_stable : ∀ p call o s s', C.post p call o s → C.rely p s s' → C.inv s' →
    C.post p call o s'
  safe : ∀ p call s, C.mayCall call → C.inv s → C.idle p s →
    C.Safe p call (fun r => C.post p call (.ofExcept r)) (M.program call) s

/-- The event is one that the contract covers. -/
def Allows (c : Config M) (e : Event M) : Prop :=
  c.Begins C.mayCall e ∧ c.AtStep C.mayStep e ∧ c.AtFailure C.mayFail e

/-- A contract that covers all calls and failures. -/
theorem allows_of_atStep {C : Contract M} (hcall : ∀ call, C.mayCall call)
    (hfail : ∀ op s, C.mayFail op s) {c : Config M} {e : Event M} (h : c.AtStep C.mayStep e) :
    C.Allows c e := by
  cases e with
  | start p call => exact ⟨hcall call, h, trivial⟩
  | step p i => exact ⟨trivial, h, trivial⟩
  | fault p x => exact ⟨trivial, h, fun _ op _ _ => hfail op c.shared⟩
  | crash p => exact ⟨trivial, h, fun _ op _ _ => hfail op c.shared⟩
  | ambient a => exact ⟨trivial, h, trivial⟩

theorem allows_of_forall {C : Contract M} (hcall : ∀ call, C.mayCall call)
    (hstep : ∀ op i s, C.mayStep op i s) (hfail : ∀ op s, C.mayFail op s) (c : Config M)
    (e : Event M) : C.Allows c e :=
  allows_of_atStep hcall hfail (c.atStep_of_forall hstep e)

/-- What a valid configuration says about one thread number. -/
def ThreadOk (p : ℕ) (s : M.State) : Option (Thread M) → Prop
  | none => C.idle p s
  | some { call, prog, alive := true } =>
      C.Safe p call (fun r => C.post p call (.ofExcept r)) prog s
  | some { call, prog := _, alive := false } => C.post p call .died s

/-- The invariant holds, and what is left of every program is safe. -/
def Valid (c : Config M) : Prop := C.inv c.shared ∧ ∀ p, C.ThreadOk p c.shared (c.threads p)

variable {C}

/-! ### Rules for safe programs -/

/-- Safety survives what the other threads do. -/
theorem Safe.stable (hC : C.Sound) {p : ℕ} {call : M.Call} {Q : Except Exn α → M.State → Prop}
    (hQ : ∀ r s s', Q r s → C.rely p s s' → C.inv s' → Q r s') {s s' : M.State}
    {prog : Prog Op Ret Exn α} (h : C.Safe p call Q prog s) (hR : C.rely p s s')
    (hI : C.inv s') : C.Safe p call Q prog s' := by
  cases prog with
  | ret a => exact hQ _ s s' h hR hI
  | raise e => exact hQ _ s s' h hR hI
  | call op k => exact fun s₁ hR₁ hI₁ => h s₁ (hC.rely_trans p _ _ _ hR hR₁) hI₁

theorem Safe.mono {p : ℕ} {call : M.Call} {Q Q' : Except Exn α → M.State → Prop} {s : M.State}
    {prog : Prog Op Ret Exn α} (h : C.Safe p call Q prog s) (hQ : ∀ r s, Q r s → Q' r s) :
    C.Safe p call Q' prog s := by
  induction prog generalizing s with
  | ret a => exact hQ _ s h
  | raise e => exact hQ _ s h
  | call op k ih =>
      intro s₁ hR hI
      obtain ⟨hstep, hfail⟩ := h s₁ hR hI
      exact ⟨fun i hm => ⟨(hstep i hm).1, ih _ (hstep i hm).2⟩,
        fun hm => ⟨fun e => ih _ ((hfail hm).1 e), (hfail hm).2⟩⟩

/-- **Sequencing**: the rest of the program starts where its first part ends. -/
theorem Safe.bind {p : ℕ} {call : M.Call} {Q' : Except Exn α → M.State → Prop}
    {Q : Except Exn β → M.State → Prop} {s : M.State} {prog : Prog Op Ret Exn α}
    {f : α → Prog Op Ret Exn β} (h : C.Safe p call Q' prog s)
    (hok : ∀ a s, Q' (.ok a) s → C.Safe p call Q (f a) s)
    (herr : ∀ e s, Q' (.error e) s → Q (.error e) s) : C.Safe p call Q (prog >>= f) s := by
  induction prog generalizing s with
  | ret a => exact hok a s h
  | raise e => exact herr e s h
  | call op k ih =>
      intro s₁ hR hI
      obtain ⟨hstep, hfail⟩ := h s₁ hR hI
      exact ⟨fun i hm => ⟨(hstep i hm).1, ih _ (hstep i hm).2⟩,
        fun hm => ⟨fun e => ih _ ((hfail hm).1 e), (hfail hm).2⟩⟩

theorem Safe.attempt {p : ℕ} {call : M.Call} {Q : Except Exn (Except Exn α) → M.State → Prop}
    {s : M.State} {prog : Prog Op Ret Exn α}
    (h : C.Safe p call (fun r => Q (.ok r)) prog s) :
    C.Safe p call Q (Prog.attempt prog) s := by
  induction prog generalizing s with
  | ret a => exact h
  | raise e => exact h
  | call op k ih =>
      intro s₁ hR hI
      obtain ⟨hstep, hfail⟩ := h s₁ hR hI
      exact ⟨fun i hm => ⟨(hstep i hm).1, ih _ (hstep i hm).2⟩,
        fun hm => ⟨fun e => ih _ ((hfail hm).1 e), (hfail hm).2⟩⟩

theorem Safe.caught {p : ℕ} {call : M.Call} {Q : Except Exn α → M.State → Prop} {s : M.State}
    {prog : Prog Op Ret Exn α} (h : C.Safe p call Q prog s) :
    C.Safe p call (fun r s => ∃ r', r = .ok r' ∧ Q r' s) (Prog.attempt prog) s :=
  Safe.attempt (h.mono fun r _ hr => ⟨r, rfl, hr⟩)

/-- A `finally` clause: its exception replaces the outcome of the program. -/
theorem Safe.ensuring {p : ℕ} {call : M.Call} {Q' Q : Except Exn α → M.State → Prop} {s : M.State}
    {prog : Prog Op Ret Exn α} {last : Prog Op Ret Exn Unit} (h : C.Safe p call Q' prog s)
    (hlast : ∀ r s, Q' r s → C.Safe p call (fun o s => Q (o.bind fun _ => r) s) last s) :
    C.Safe p call Q (Prog.ensuring prog last) s := by
  refine h.caught.bind (fun r s hr => ?_) fun e s hr => by
    obtain ⟨_, heq, _⟩ := hr
    cases heq
  obtain ⟨_, heq, hr⟩ := hr
  cases heq
  refine (hlast r s hr).bind (fun _ s hs => ?_) fun e s hs => hs
  cases r with
  | ok a => exact hs
  | error e => exact hs

/-- A statement that keeps the contract whatever the program is. -/
def Keeps (C : Contract M) (p : ℕ) (call : M.Call) (op : Op) : Prop :=
  ∀ s i, C.inv s → C.mayStep op i s → C.Guarantee p s (M.perform p call op i s).1

/-- One statement and the rest of the program, for calls that may end anyhow when cut off. -/
theorem Safe.perform_bind {p : ℕ} {call : M.Call} {Q : Except Exn α → M.State → Prop} {op : Op}
    {f : Ret op → Prog Op Ret Exn α} {s : M.State}
    (hkeep : ∀ s₁ i, C.rely p s s₁ → C.inv s₁ → C.mayStep op i s₁ →
      C.Guarantee p s₁ (M.perform p call op i s₁).1)
    (hdied : ∀ s, C.inv s → C.post p call .died (M.halt p s))
    (herr : ∀ e s, C.inv s → Q (.error e) s)
    (hk : ∀ s₁ i r, C.rely p s s₁ → C.inv s₁ → C.mayStep op i s₁ →
      C.inv (M.perform p call op i s₁).1 → (M.perform p call op i s₁).2 = .ok r →
      C.Safe p call Q (f r) (M.perform p call op i s₁).1) :
    C.Safe p call Q (Prog.perform op >>= f) s := by
  intro s₁ hR hI
  refine ⟨fun i hm => ?_, fun _ => ⟨fun e => herr e s₁ hI, hdied s₁ hI⟩⟩
  have hG := hkeep s₁ i hR hI hm
  refine ⟨hG, ?_⟩
  cases hr : (M.perform p call op i s₁).2 with
  | ok r => exact hk s₁ i r hR hI hm hG.1 hr
  | error e => exact herr e _ hG.1

/-- **A program whose statements keep the contract is safe**, and ends in whatever the others and its
own statements leave alone. -/
theorem safe_of_stable {p : ℕ} {call : M.Call} {φ : Op → Prop} {R : M.State → Prop}
    {Q : Except Exn α → M.State → Prop} {s : M.State} {prog : Prog Op Ret Exn α}
    (h : prog.All φ)
    (hstep : ∀ op i s, φ op → R s → C.inv s → C.mayStep op i s →
      C.Guarantee p s (M.perform p call op i s).1 ∧ R (M.perform p call op i s).1)
    (hrely : ∀ s s', R s → C.rely p s s' → C.inv s' → R s')
    (hdied : ∀ s, R s → C.inv s → C.post p call .died (M.halt p s))
    (hQ : ∀ r s, R s → Q r s) (hs : R s) : C.Safe p call Q prog s := by
  induction prog generalizing s with
  | ret a => exact hQ _ s hs
  | raise e => exact hQ _ s hs
  | call op k ih =>
      intro s₁ hrel hI₁
      have hR := hrely s s₁ hs hrel hI₁
      refine ⟨fun i hm => ?_, fun _ => ⟨fun e => ih _ (h.2 _) hR, hdied s₁ hR hI₁⟩⟩
      obtain ⟨hG, hR'⟩ := hstep op i s₁ h.1 hR hI₁ hm
      exact ⟨hG, ih _ (h.2 _) hR'⟩

theorem safe_of_all {p : ℕ} {call : M.Call} {Q : Except Exn α → M.State → Prop} {s : M.State}
    {prog : Prog Op Ret Exn α} (h : prog.All (C.Keeps p call))
    (hdied : ∀ s, C.inv s → C.post p call .died (M.halt p s)) (hQ : ∀ r s, Q r s) :
    C.Safe p call Q prog s :=
  safe_of_stable (R := fun _ => True) h (fun _ i s hkeep _ hI hm => ⟨hkeep s i hI hm, trivial⟩)
    (fun _ _ _ _ _ => trivial) (fun s _ hI => hdied s hI) (fun r s _ => hQ r s) trivial

/-! ### Runs -/

theorem ThreadOk.stable (hC : C.Sound) {p : ℕ} {s s' : M.State} {t : Option (Thread M)}
    (h : C.ThreadOk p s t) (hR : C.rely p s s') (hI : C.inv s') : C.ThreadOk p s' t := by
  match t, h with
  | none, h => exact hC.idle_stable p s s' h hR
  | some { call, prog, alive := true }, h =>
      have hsafe : C.Safe p call (fun r => C.post p call (.ofExcept r)) prog s := h
      exact hsafe.stable hC (fun r s s' => hC.post_stable p call (.ofExcept r) s s') hR hI
  | some { call, prog := _, alive := false }, h => exact hC.post_stable p call _ s s' h hR hI

/-- A change by thread `p` that meets the guarantee keeps the configuration valid. -/
theorem Valid.set (hC : C.Sound) {c : Config M} (h : C.Valid c) {p : ℕ} {s : M.State}
    {t : Thread M} (hG : C.Guarantee p c.shared s) (ht : C.ThreadOk p s (some t)) :
    C.Valid (c.set p s t) := by
  refine ⟨hG.1, fun q => ?_⟩
  by_cases hq : q = p
  · subst hq
    simpa only [Config.set, Function.update_self] using ht
  · simp only [Config.set, Function.update_of_ne hq]
    exact (h.2 q).stable hC (hG.2 q hq) hG.1

/-- **One event that the contract covers keeps the configuration valid.** -/
theorem valid_step (hC : C.Sound) {c c' : Config M} {e : Event M} (h : C.Valid c)
    (hallow : C.Allows c e) (hstep : c.step e = some c') : C.Valid c' := by
  have hid : ∀ p, C.Guarantee p c.shared c.shared := fun p => ⟨h.1, fun q _ => hC.rely_refl q _⟩
  obtain ⟨p, call, rfl, hp, rfl⟩ | ⟨p, i, call, op, k, rfl, hat, rfl⟩ |
    ⟨p, x, call, op, k, rfl, hat, rfl⟩ | ⟨p, call, op, k, rfl, hat, rfl⟩ | ⟨a, rfl, rfl⟩ :=
    Config.step_cases hstep
  · have hidle := h.2 p
    rw [hp] at hidle
    exact h.set hC (hid p) (hC.safe p call c.shared hallow.1 h.1 hidle)
  · have hsafe := h.2 p
    rw [hat] at hsafe
    obtain ⟨hG, hk⟩ := (hsafe c.shared (hC.rely_refl p _) h.1).1 i (hallow.2.1 call op k hat)
    exact h.set hC hG hk
  · have hsafe := h.2 p
    rw [hat] at hsafe
    have hfail := (hsafe c.shared (hC.rely_refl p _) h.1).2 (hallow.2.2 call op k hat)
    exact h.set hC (hid p) (hfail.1 x)
  · have hsafe := h.2 p
    rw [hat] at hsafe
    have hfail := (hsafe c.shared (hC.rely_refl p _) h.1).2 (hallow.2.2 call op k hat)
    exact h.set hC (hC.halt p c.shared h.1) hfail.2
  · obtain ⟨hI, hR⟩ := hC.ambient a c.shared h.1
    exact ⟨hI, fun p => (h.2 p).stable hC (hR p) hI⟩

/-- **The contract holds in every configuration that a covered run reaches.** -/
theorem valid_run (hC : C.Sound) {c c' : Config M} {es : List (Event M)} (h : C.Valid c)
    (hallow : Runs.Always Config.step C.Allows c es)
    (hrun : Runs.runFrom Config.step c es = some c') : C.Valid c' :=
  Runs.run_invariant_of_always (fun _ _ _ hs hok hstep => valid_step hC hs hok hstep) h hallow hrun

/-- **An invariant on top of a contract**: its step lemmas may use the invariant of the contract. -/
theorem invariant_run (hC : C.Sound) {K : M.State → Prop}
    {φ : Op → M.Input → M.State → Prop}
    (hperform : ∀ p i call op s, C.inv s → K s → φ op i s → K (M.perform p call op i s).1)
    (hhalt : ∀ p s, K s → K (M.halt p s))
    (hambient : ∀ a s, C.inv s → K s → K (M.ambient a s)) {c c' : Config M} {es : List (Event M)}
    (h : C.Valid c) (hK : K c.shared) (hallow : Runs.Always Config.step C.Allows c es)
    (hφ : Runs.Always Config.step (Config.AtStep φ) c es)
    (hrun : Runs.runFrom Config.step c es = some c') : K c'.shared := by
  suffices hboth : C.Valid c' ∧ K c'.shared from hboth.2
  have hstart : C.Valid c ∧ K c.shared := ⟨h, hK⟩
  refine Runs.run_invariant_of_always (I := fun c => C.Valid c ∧ K c.shared) ?_ hstart
    (Runs.always_and hallow hφ) hrun
  intro c e c₁ hs hok hstep
  refine ⟨valid_step hC hs.1 hok.1 hstep, ?_⟩
  apply Config.shared_of_step hs.2 ?_ (fun p => hhalt p c.shared hs.2)
    (fun a => hambient a c.shared hs.1.1 hs.2) hstep
  intro p i call op k he hat
  subst he
  exact hperform p i call op c.shared hs.1.1 hs.2 (hok.2 call op k hat)

/-- No thread has started: the invariant is all there is to check. -/
theorem valid_of_unstarted {s : M.State} (hI : C.inv s) (hidle : ∀ p, C.idle p s) :
    C.Valid { shared := s } := ⟨hI, hidle⟩

end Contract

end PosttrainPlatform.Programs
