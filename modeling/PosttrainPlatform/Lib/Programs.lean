import Mathlib.Logic.Function.Basic
import Mathlib.Data.Nat.Notation
import PosttrainPlatform.Lib.Runs

/-!
# Concurrent programs over atomic statements

A program is a tree of atomic statements: after each one it continues with the answer, or with the
exception that came instead of one.  A machine runs any number of programs over one shared state;
an event lets one of them execute its next statement, makes that statement fail, or ends the program
there.  Helper threads of the programs are ambient events.

`Contract` is a rely-guarantee specification of a machine.  `Safe` walks a program: before every
statement the other programs may have moved the state along `rely`, and the statement itself has to
keep the invariant and the rely of everybody else.  `Contract.valid_run` puts safe programs together:
the invariant holds after every run, and every program that has ended meets its postcondition.
-/

namespace PosttrainPlatform.Programs

/-- A program over the statements `Op`, with answers `Ret` and exceptions `Exn`. -/
inductive Prog (Op : Type) (Ret : Op → Type) (Exn α : Type) : Type
  | ret (a : α)
  | raise (e : Exn)
  | call (op : Op) (k : Except Exn (Ret op) → Prog Op Ret Exn α)

namespace Prog

variable {Op : Type} {Ret : Op → Type} {Exn α β : Type}

def bind : Prog Op Ret Exn α → (α → Prog Op Ret Exn β) → Prog Op Ret Exn β
  | ret a, f => f a
  | raise e, _ => raise e
  | call op k, f => call op fun r => bind (k r) f

instance : Monad (Prog Op Ret Exn) where
  pure := ret
  bind := bind

def ofExcept : Except Exn α → Prog Op Ret Exn α
  | .ok a => ret a
  | .error e => raise e

/-- Execute one statement. -/
def perform (op : Op) : Prog Op Ret Exn (Ret op) := call op ofExcept

/-- Run a program and catch its exceptions. -/
def attempt : Prog Op Ret Exn α → Prog Op Ret Exn (Except Exn α)
  | ret a => ret (.ok a)
  | raise e => ret (.error e)
  | call op k => call op fun r => attempt (k r)

/-- `try: p` with `finally: last`. -/
def ensuring (p : Prog Op Ret Exn α) (last : Prog Op Ret Exn Unit) : Prog Op Ret Exn α := do
  let r ← attempt p
  last
  ofExcept r

theorem bind_assoc {γ : Type} (p : Prog Op Ret Exn α) (f : α → Prog Op Ret Exn β)
    (g : β → Prog Op Ret Exn γ) : (p >>= f >>= g) = p >>= fun a => f a >>= g := by
  induction p with
  | ret a => rfl
  | raise e => rfl
  | call op k ih => exact congrArg (call op) (funext fun r => ih r)

/-! ### Which statements a program can execute -/

/-- Every statement in the program tree satisfies `φ`. -/
def All (φ : Op → Prop) : Prog Op Ret Exn α → Prop
  | ret _ => True
  | raise _ => True
  | call op k => φ op ∧ ∀ r, All φ (k r)

variable {φ : Op → Prop}

@[simp] theorem all_ofExcept (r : Except Exn α) : (ofExcept r : Prog Op Ret Exn α).All φ := by
  cases r <;> trivial

@[simp] theorem all_perform {op : Op} : (perform op : Prog Op Ret Exn (Ret op)).All φ ↔ φ op :=
  ⟨And.left, fun h => ⟨h, fun r => all_ofExcept r⟩⟩

@[simp] theorem all_perform_bind {op : Op} {f : Ret op → Prog Op Ret Exn β} :
    (perform op >>= f).All φ ↔ φ op ∧ ∀ a, (f a).All φ := by
  refine and_congr Iff.rfl ⟨fun h a => h (.ok a), fun h r => ?_⟩
  cases r with
  | ok a => exact h a
  | error e => trivial

theorem all_bind {p : Prog Op Ret Exn α} {f : α → Prog Op Ret Exn β} (hp : p.All φ)
    (hf : ∀ a, (f a).All φ) : (p >>= f).All φ := by
  induction p with
  | ret a => exact hf a
  | raise e => trivial
  | call op k ih => exact ⟨hp.1, fun r => ih r (hp.2 r)⟩

theorem all_attempt {p : Prog Op Ret Exn α} (hp : p.All φ) : (attempt p).All φ := by
  induction p with
  | ret a => trivial
  | raise e => trivial
  | call op k ih => exact ⟨hp.1, fun r => ih r (hp.2 r)⟩

theorem all_ensuring {p : Prog Op Ret Exn α} {last : Prog Op Ret Exn Unit} (hp : p.All φ)
    (hl : last.All φ) : (ensuring p last).All φ :=
  all_bind (all_attempt hp) fun r => all_bind hl fun _ => all_ofExcept r

theorem all_mono {ψ : Op → Prop} {p : Prog Op Ret Exn α} (h : ∀ op, φ op → ψ op) (hp : p.All φ) :
    p.All ψ := by
  induction p with
  | ret a => trivial
  | raise e => trivial
  | call op k ih => exact ⟨h op hp.1, fun r => ih r (hp.2 r)⟩

theorem all_of_forall (h : ∀ op, φ op) (p : Prog Op Ret Exn α) : p.All φ := by
  induction p with
  | ret a => trivial
  | raise e => trivial
  | call op k ih => exact ⟨h op, ih⟩

/-! ### Exceptions that end a program -/

/-- The program cannot return: after statements that satisfy `γ` it raises. -/
def Raises (γ : Op → Prop) : Prog Op Ret Exn α → Prop
  | ret _ => False
  | raise _ => True
  | call op k => γ op ∧ ∀ r, Raises γ (k r)

/-- Where a statement that satisfies `φ` fails, the program only raises any more. -/
def Fatal (φ γ : Op → Prop) : Prog Op Ret Exn α → Prop
  | ret _ => True
  | raise _ => True
  | call op k => (φ op → ∀ e, Raises γ (k (.error e))) ∧ ∀ r, Fatal φ γ (k r)

variable {γ : Op → Prop}

theorem raises_bind {p : Prog Op Ret Exn α} (h : p.Raises γ) (f : α → Prog Op Ret Exn β) :
    (p >>= f).Raises γ := by
  induction p with
  | ret a => exact h.elim
  | raise e => trivial
  | call op k ih => exact ⟨h.1, fun r => ih r (h.2 r)⟩

theorem raises_then {p : Prog Op Ret Exn α} (h : p.All γ) {f : α → Prog Op Ret Exn β}
    (hf : ∀ a, (f a).Raises γ) : (p >>= f).Raises γ := by
  induction p with
  | ret a => exact hf a
  | raise e => trivial
  | call op k ih => exact ⟨h.1, fun r => ih r (h.2 r)⟩

/-- A `finally` clause does not stop an exception. -/
theorem raises_ensuring {p : Prog Op Ret Exn α} {last : Prog Op Ret Exn Unit} (h : p.Raises γ)
    (hl : last.All γ) : (ensuring p last).Raises γ := by
  induction p with
  | ret a => exact h.elim
  | raise e => exact raises_then hl fun _ => trivial
  | call op k ih => exact ⟨h.1, fun r => ih r (h.2 r)⟩

@[simp] theorem fatal_ofExcept (r : Except Exn α) :
    (ofExcept r : Prog Op Ret Exn α).Fatal φ γ := by
  cases r <;> trivial

theorem fatal_perform (op : Op) : (perform op : Prog Op Ret Exn (Ret op)).Fatal φ γ :=
  ⟨fun _ _ => trivial, fun r => fatal_ofExcept r⟩

/-- A program without such statements. -/
theorem fatal_of_all {p : Prog Op Ret Exn α} (h : p.All fun op => ¬ φ op) : p.Fatal φ γ := by
  induction p with
  | ret a => trivial
  | raise e => trivial
  | call op k ih => exact ⟨fun hop => absurd hop h.1, fun r => ih r (h.2 r)⟩

theorem fatal_bind {p : Prog Op Ret Exn α} {f : α → Prog Op Ret Exn β} (hp : p.Fatal φ γ)
    (hf : ∀ a, (f a).Fatal φ γ) : (p >>= f).Fatal φ γ := by
  induction p with
  | ret a => exact hf a
  | raise e => trivial
  | call op k ih =>
      exact ⟨fun hop e => raises_bind (hp.1 hop e) f, fun r => ih r (hp.2 r)⟩

theorem fatal_perform_bind {op : Op} {f : Ret op → Prog Op Ret Exn β}
    (hf : ∀ a, (f a).Fatal φ γ) : (perform op >>= f).Fatal φ γ := fatal_bind (fatal_perform op) hf

theorem fatal_ensuring {p : Prog Op Ret Exn α} {last : Prog Op Ret Exn Unit} (hp : p.Fatal φ γ)
    (hl : last.All γ) (hlast : last.Fatal φ γ) : (ensuring p last).Fatal φ γ := by
  have hend : ∀ r : Except Exn α, (last >>= fun _ => ofExcept r).Fatal φ γ := fun r =>
    fatal_bind hlast fun _ => fatal_ofExcept r
  induction p with
  | ret a => exact hend (.ok a)
  | raise e => exact hend (.error e)
  | call op k ih =>
      exact ⟨fun hop e => raises_ensuring (hp.1 hop e) hl, fun r => ih r (hp.2 r)⟩

end Prog

/-! ### The machine -/

/-- What a machine consists of: the shared state, the calls with their programs, the meaning of a
statement, the ambient events, and what ends with a program that is cut off. -/
structure Machine (Op : Type) (Ret : Op → Type) (Exn Reply : Type) where
  State : Type
  Call : Type
  Input : Type
  Ambient : Type
  program : Call → Prog Op Ret Exn Reply
  perform : ℕ → Call → (op : Op) → Input → State → State × Except Exn (Ret op)
  ambient : Ambient → State → State
  halt : ℕ → State → State

variable {Op : Type} {Ret : Op → Type} {Exn Reply : Type} {M : Machine Op Ret Exn Reply}

/-- A call in execution: what is left of its program, and whether it was cut off. -/
structure Thread (M : Machine Op Ret Exn Reply) where
  call : M.Call
  prog : Prog Op Ret Exn Reply
  alive : Bool := true

structure Config (M : Machine Op Ret Exn Reply) where
  shared : M.State
  threads : ℕ → Option (Thread M) := fun _ => none

inductive Event (M : Machine Op Ret Exn Reply)
  /-- A call begins, under a fresh thread number. -/
  | start (p : ℕ) (c : M.Call)
  /-- The thread executes its next statement. -/
  | step (p : ℕ) (i : M.Input)
  /-- The next statement of the thread fails and has no effect. -/
  | fault (p : ℕ) (e : Exn)
  /-- The thread is cut off. -/
  | crash (p : ℕ)
  | ambient (a : M.Ambient)

/-- The thread that the event belongs to, if it belongs to one. -/
def Event.thread : Event M → Option ℕ
  | .start p _ | .step p _ | .fault p _ | .crash p => some p
  | .ambient _ => none

/-- The thread `p` of `call` is alive, is about to execute `op`, and continues with `k`. -/
def Config.AtOp (c : Config M) (p : ℕ) (call : M.Call) (op : Op)
    (k : Except Exn (Ret op) → Prog Op Ret Exn Reply) : Prop :=
  c.threads p = some { call, prog := .call op k }

def Config.set (c : Config M) (p : ℕ) (s : M.State) (t : Thread M) : Config M :=
  { shared := s, threads := Function.update c.threads p (some t) }

def Config.step (c : Config M) : Event M → Option (Config M)
  | .start p call =>
      match c.threads p with
      | none => some (c.set p c.shared { call, prog := M.program call })
      | some _ => none
  | .step p i =>
      match c.threads p with
      | some { call, prog := .call op k, alive := true } =>
          some (c.set p (M.perform p call op i c.shared).1
            { call, prog := k (M.perform p call op i c.shared).2 })
      | _ => none
  | .fault p e =>
      match c.threads p with
      | some { call, prog := .call _ k, alive := true } =>
          some (c.set p c.shared { call, prog := k (.error e) })
      | _ => none
  | .crash p =>
      match c.threads p with
      | some { call, prog := .call op k, alive := true } =>
          some (c.set p (M.halt p c.shared) { call, prog := .call op k, alive := false })
      | _ => none
  | .ambient a => some { c with shared := M.ambient a c.shared }

/-- **What an event can do.** -/
theorem Config.step_cases {c c' : Config M} {e : Event M} (h : c.step e = some c') :
    (∃ p call, e = .start p call ∧ c.threads p = none ∧
      c' = c.set p c.shared { call, prog := M.program call }) ∨
    (∃ p i call op k, e = .step p i ∧ c.AtOp p call op k ∧
      c' = c.set p (M.perform p call op i c.shared).1
        { call, prog := k (M.perform p call op i c.shared).2 }) ∨
    (∃ p x call op k, e = .fault p x ∧ c.AtOp p call op k ∧
      c' = c.set p c.shared { call, prog := k (.error x) }) ∨
    (∃ p call op k, e = .crash p ∧ c.AtOp p call op k ∧
      c' = c.set p (M.halt p c.shared) { call, prog := .call op k, alive := false }) ∨
    ∃ a, e = .ambient a ∧ c' = { c with shared := M.ambient a c.shared } := by
  cases e with
  | start p call =>
      simp only [step] at h
      split at h
      · rename_i hp
        exact Or.inl ⟨p, call, rfl, hp, (Option.some.inj h).symm⟩
      · cases h
  | step p i =>
      simp only [step] at h
      split at h
      · rename_i call op k hp
        exact Or.inr (Or.inl ⟨p, i, call, op, k, rfl, hp, (Option.some.inj h).symm⟩)
      · cases h
  | fault p x =>
      simp only [step] at h
      split at h
      · rename_i call op k hp
        exact Or.inr (Or.inr (Or.inl
          ⟨p, x, call, op, k, rfl, hp, (Option.some.inj h).symm⟩))
      · cases h
  | crash p =>
      simp only [step] at h
      split at h
      · rename_i call op k hp
        exact Or.inr (Or.inr (Or.inr (Or.inl
          ⟨p, call, op, k, rfl, hp, (Option.some.inj h).symm⟩)))
      · cases h
  | ambient a => exact Or.inr (Or.inr (Or.inr (Or.inr ⟨a, rfl, (Option.some.inj h).symm⟩)))

/-! ### Conditions on the events of a run -/

/-- The statement that the event executes, if it executes one, meets the condition. -/
def Config.AtStep (φ : Op → M.Input → M.State → Prop) (c : Config M) : Event M → Prop
  | .step p i => ∀ call op k, c.AtOp p call op k → φ op i c.shared
  | _ => True

/-- The statement at which the event makes a program fail, if it does, meets the condition. -/
def Config.AtFailure (φ : Op → M.State → Prop) (c : Config M) : Event M → Prop
  | .fault p _ => ∀ call op k, c.AtOp p call op k → φ op c.shared
  | .crash p => ∀ call op k, c.AtOp p call op k → φ op c.shared
  | _ => True

/-- The statement that the event makes fail, if it does, may fail with the exception. -/
def Config.AtException (φ : Op → Exn → Prop) (c : Config M) : Event M → Prop
  | .fault p e => ∀ call op k, c.AtOp p call op k → φ op e
  | _ => True

/-- **What an event leaves in the shared state**: what was there, or what a statement, the end of a
thread or an ambient change makes of it. -/
theorem Config.shared_of_step {c c' : Config M} {e : Event M} {I : M.State → Prop}
    (hsame : I c.shared)
    (hperform : ∀ p i call op k, e = .step p i → c.AtOp p call op k →
      I (M.perform p call op i c.shared).1)
    (hhalt : ∀ p, I (M.halt p c.shared)) (hambient : ∀ a, I (M.ambient a c.shared))
    (hstep : c.step e = some c') : I c'.shared := by
  obtain ⟨p, call, rfl, hp, rfl⟩ | ⟨p, i, call, op, k, rfl, hat, rfl⟩ |
    ⟨p, x, call, op, k, rfl, hat, rfl⟩ | ⟨p, call, op, k, rfl, hat, rfl⟩ | ⟨a, rfl, rfl⟩ :=
    Config.step_cases hstep
  · exact hsame
  · exact hperform p i call op k rfl hat
  · exact hsame
  · exact hhalt p
  · exact hambient a

/-- An event keeps an invariant exactly if its statement meets a condition. -/
theorem Config.atStep_iff {c c' : Config M} {e : Event M} {I : M.State → Prop}
    {φ : Op → M.Input → M.State → Prop} (hsame : I c.shared)
    (hperform : ∀ p i call op, I (M.perform p call op i c.shared).1 ↔ φ op i c.shared)
    (hhalt : ∀ p, I (M.halt p c.shared)) (hambient : ∀ a, I (M.ambient a c.shared))
    (hstep : c.step e = some c') : I c'.shared ↔ c.AtStep φ e := by
  obtain ⟨p, call, rfl, hp, rfl⟩ | ⟨p, i, call, op, k, rfl, hat, rfl⟩ |
    ⟨p, x, call, op, k, rfl, hat, rfl⟩ | ⟨p, call, op, k, rfl, hat, rfl⟩ | ⟨a, rfl, rfl⟩ :=
    Config.step_cases hstep
  · exact iff_of_true hsame trivial
  · constructor
    · intro hI call' op' k' hat'
      have hthread := hat.symm.trans hat'
      cases hthread
      exact (hperform p i call op).mp hI
    · exact fun hφ => (hperform p i call op).mpr (hφ call op k hat)
  · exact iff_of_true hsame trivial
  · exact iff_of_true (hhalt p) trivial
  · exact iff_of_true (hambient a) trivial

theorem Config.atStep_of_forall {φ : Op → M.Input → M.State → Prop} (h : ∀ op i s, φ op i s)
    (c : Config M) (e : Event M) : c.AtStep φ e := by
  cases e with
  | step p i => exact fun _ op _ _ => h op i c.shared
  | _ => trivial

/-- The call that the event begins, if it begins one, meets the condition. -/
def Config.Begins (ψ : M.Call → Prop) (_ : Config M) : Event M → Prop
  | .start _ call => ψ call
  | _ => True

/-- The statement that the thread is about to execute. -/
def Config.pending (c : Config M) (p : ℕ) : Option Op :=
  match c.threads p with
  | some { call := _, prog := .call op _, alive := true } => some op
  | _ => none

/-- How the thread has ended, if it has. -/
def Config.result (c : Config M) (p : ℕ) : Option (Except Exn Reply) :=
  match c.threads p with
  | some { call := _, prog := .ret a, alive := true } => some (.ok a)
  | some { call := _, prog := .raise e, alive := true } => some (.error e)
  | _ => none

theorem Config.result_eq_ok {c : Config M} {p : ℕ} {a : Reply} :
    c.result p = some (.ok a) ↔ ∃ call, c.threads p = some { call, prog := .ret a } := by
  unfold result
  constructor
  · intro h
    split at h
    · rename_i call a' ht
      cases h
      exact ⟨call, ht⟩
    · cases h
    · cases h
  · rintro ⟨call, ht⟩
    rw [ht]

theorem Config.pending_eq_some {c : Config M} {p : ℕ} {op : Op} :
    c.pending p = some op ↔ ∃ call k, c.AtOp p call op k := by
  unfold pending AtOp
  constructor
  · intro h
    split at h
    · rename_i call op' k ht
      cases h
      exact ⟨call, k, ht⟩
    · cases h
  · rintro ⟨call, k, ht⟩
    rw [ht]

section Decidable

variable {φ : Op → M.Input → M.State → Prop} {γ : Op → M.State → Prop} {ψ : M.Call → Prop}

instance [∀ op i s, Decidable (φ op i s)] (c : Config M) : (e : Event M) → Decidable (c.AtStep φ e)
  | .step p i => decidable_of_iff (∀ op ∈ c.pending p, φ op i c.shared) <| by
      simp only [Option.mem_def, Config.pending_eq_some]
      exact ⟨fun h call op k hat => h op ⟨call, k, hat⟩, fun h op ⟨call, k, hat⟩ => h call op k hat⟩
  | .start .. | .fault .. | .crash _ | .ambient _ => isTrue trivial

instance [∀ op s, Decidable (γ op s)] (c : Config M) : (e : Event M) → Decidable (c.AtFailure γ e)
  | .fault p _ | .crash p => decidable_of_iff (∀ op ∈ c.pending p, γ op c.shared) <| by
      simp only [Option.mem_def, Config.pending_eq_some]
      exact ⟨fun h call op k hat => h op ⟨call, k, hat⟩, fun h op ⟨call, k, hat⟩ => h call op k hat⟩
  | .start .. | .step .. | .ambient _ => isTrue trivial

instance {χ : Op → Exn → Prop} [∀ op x, Decidable (χ op x)] (c : Config M) :
    (e : Event M) → Decidable (c.AtException χ e)
  | .fault p x => decidable_of_iff (∀ op ∈ c.pending p, χ op x) <| by
      simp only [Option.mem_def, Config.pending_eq_some]
      exact ⟨fun h call op k hat => h op ⟨call, k, hat⟩, fun h op ⟨call, k, hat⟩ => h call op k hat⟩
  | .start .. | .step .. | .crash _ | .ambient _ => isTrue trivial

instance [DecidablePred ψ] (c : Config M) : (e : Event M) → Decidable (c.Begins ψ e)
  | .start _ call => inferInstanceAs (Decidable (ψ call))
  | .step .. | .fault .. | .crash _ | .ambient _ => isTrue trivial

end Decidable

theorem Config.always_atStep_and {φ ψ : Op → M.Input → M.State → Prop} {c : Config M}
    {es : List (Event M)} (h : Runs.Always Config.step (Config.AtStep φ) c es)
    (h' : Runs.Always Config.step (Config.AtStep ψ) c es) :
    Runs.Always Config.step (Config.AtStep fun op i s => φ op i s ∧ ψ op i s) c es := by
  refine Runs.always_mono (fun c e he => ?_) (Runs.always_and h h')
  cases e with
  | step p i => exact fun call op k hat => ⟨he.1 call op k hat, he.2 call op k hat⟩
  | start p call => trivial
  | fault p x => trivial
  | crash p => trivial
  | ambient a => trivial

theorem Config.always_atStep_mono {φ ψ : Op → M.Input → M.State → Prop}
    (hmono : ∀ op i s, φ op i s → ψ op i s) {c : Config M} {es : List (Event M)}
    (h : Runs.Always Config.step (Config.AtStep φ) c es) :
    Runs.Always Config.step (Config.AtStep ψ) c es := by
  apply Runs.always_mono ?_ h
  intro c e he
  cases e with
  | step p i => exact fun call op k hat => hmono op i c.shared (he call op k hat)
  | start p call => trivial
  | fault p x => trivial
  | crash p => trivial
  | ambient a => trivial

/-- Every thread meets a condition on its call and on what is left of its program. -/
def Config.Every (T : M.Call → Prog Op Ret Exn Reply → Prop) (c : Config M) : Prop :=
  ∀ p t, c.threads p = some t → T t.call t.prog

section Conditions

variable {T : M.Call → Prog Op Ret Exn Reply → Prop} {φ : Op → Prop} {ψ : M.Call → Prop}

theorem Config.Every.set {c : Config M} (h : c.Every T) (p : ℕ) (s : M.State) {t : Thread M}
    (ht : T t.call t.prog) : (c.set p s t).Every T := by
  intro q t' hq
  by_cases hqp : q = p
  · subst hqp
    simp only [Config.set, Function.update_self, Option.some.injEq] at hq
    exact hq ▸ ht
  · simp only [Config.set, Function.update_of_ne hqp] at hq
    exact h q t' hq

theorem Config.Every.step (hprog : ∀ call, ψ call → T call (M.program call))
    (hnext : ∀ call op k r, T call (.call op k) → T call (k r)) {c c' : Config M} {e : Event M}
    (h : c.Every T) (hbegin : c.Begins ψ e) (hstep : c.step e = some c') : c'.Every T := by
  obtain ⟨p, call, rfl, hp, rfl⟩ | ⟨p, i, call, op, k, rfl, hat, rfl⟩ |
    ⟨p, x, call, op, k, rfl, hat, rfl⟩ | ⟨p, call, op, k, rfl, hat, rfl⟩ | ⟨a, rfl, rfl⟩ :=
    Config.step_cases hstep
  · exact h.set p _ (hprog call hbegin)
  · exact h.set p _ (hnext call op k _ (h p _ hat))
  · exact h.set p _ (hnext call op k _ (h p _ hat))
  · have hrest := h p _ hat
    exact h.set p _ hrest
  · exact h

/-- **A condition that programs start with and keep holds of every thread of every run.** -/
theorem Config.every_of_run (hprog : ∀ call, T call (M.program call))
    (hnext : ∀ call op k r, T call (.call op k) → T call (k r)) {s : M.State} {c : Config M}
    {es : List (Event M)} (hrun : Runs.runFrom Config.step ({ shared := s } : Config M) es = some c) :
    c.Every T := by
  refine Runs.run_invariant (I := Config.Every T) (fun c e c' h hstep => ?_) ?_ hrun
  · have hbegin : c.Begins (fun _ => True) e := by cases e <;> trivial
    exact h.step (fun call _ => hprog call) hnext hbegin hstep
  · intro p t ht
    cases ht

/-- Thread `p` runs `call`, and what is left of its program meets a condition. -/
def Config.Has (c : Config M) (p : ℕ) (call : M.Call) (R : Prog Op Ret Exn Reply → Prop) : Prop :=
  ∃ t, c.threads p = some t ∧ t.call = call ∧ R t.prog

variable {R : Prog Op Ret Exn Reply → Prop}

theorem Config.Has.set {c : Config M} {p : ℕ} {call : M.Call} (h : c.Has p call R) {q : ℕ}
    {s : M.State} {t : Thread M} (ht : q = p → t.call = call ∧ R t.prog) :
    (c.set q s t).Has p call R := by
  by_cases hqp : p = q
  · subst hqp
    exact ⟨t, Function.update_self _ _ _, ht rfl⟩
  · obtain ⟨t', hp, ht'⟩ := h
    exact ⟨t', (Function.update_of_ne hqp _ _).trans hp, ht'⟩

/-- **A condition that a program keeps holds of its thread from then on.** -/
theorem Config.Has.run (hnext : ∀ op k r, R (.call op k) → R (k r)) {c c' : Config M} {p : ℕ}
    {call : M.Call} {es : List (Event M)} (h : c.Has p call R)
    (hrun : Runs.runFrom Config.step c es = some c') : c'.Has p call R := by
  refine Runs.run_invariant (I := fun c => Config.Has c p call R) (fun c e c' h hstep => ?_) h hrun
  have hself : ∀ {q t}, c.threads q = some t → q = p → t.call = call ∧ R t.prog := by
    rintro q t hq rfl
    obtain ⟨t', hp, ht'⟩ := h
    rw [hq] at hp
    cases hp
    exact ht'
  obtain ⟨q, call', rfl, hq, rfl⟩ | ⟨q, i, call', op, k, rfl, hat, rfl⟩ |
    ⟨q, x, call', op, k, rfl, hat, rfl⟩ | ⟨q, call', op, k, rfl, hat, rfl⟩ | ⟨a, rfl, rfl⟩ :=
    Config.step_cases hstep
  · refine h.set fun hqp => ?_
    obtain ⟨t', hp, _⟩ := h
    rw [hqp, hp] at hq
    cases hq
  · exact h.set fun hqp => ⟨(hself hat hqp).1, hnext op k _ (hself hat hqp).2⟩
  · exact h.set fun hqp => ⟨(hself hat hqp).1, hnext op k _ (hself hat hqp).2⟩
  · exact h.set fun hqp => ⟨(hself hat hqp).1, (hself hat hqp).2⟩
  · exact h

/-- **The statements of a run are those of the calls that begin in it.** -/
theorem Config.atStep_of_begins (hprog : ∀ call, ψ call → (M.program call).All φ) {c : Config M}
    {es : List (Event M)} (h : c.Every fun _ prog => prog.All φ)
    (hbegin : Runs.Always Config.step (Config.Begins ψ) c es) :
    Runs.Always Config.step (Config.AtStep fun op _ _ => φ op) c es := by
  induction es generalizing c with
  | nil => trivial
  | cons e es ih =>
      refine ⟨?_, fun c' hc' => ih (h.step hprog (fun _ _ _ r hall => hall.2 r) hbegin.1 hc')
        (hbegin.2 c' hc')⟩
      cases e with
      | step p i => exact fun call op k hat => (h p _ hat).1
      | start p call => trivial
      | fault p x => trivial
      | crash p => trivial
      | ambient a => trivial

end Conditions

end PosttrainPlatform.Programs
