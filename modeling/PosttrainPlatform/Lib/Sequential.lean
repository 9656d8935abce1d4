import PosttrainPlatform.Lib.Programs

/-!
# Programs that run alone

`Leads` relates a program in a state to what is left of it after some of its statements, when nothing
else runs; `Ends` to its outcome.  Each statement takes an input that meets `ok`.  The two rules for
`>>=` turn a walk through a program into a walk through its parts.  `CutOff` adds failures: the
program is cut off, or a statement fails and what is left runs on.
-/

namespace PosttrainPlatform.Programs

namespace Prog

variable {Op : Type} {Ret : Op → Type} {Exn α β σ ι : Type}

/-- What a statement does to a state, for an input. -/
abbrev Meaning (Op : Type) (Ret : Op → Type) (Exn σ ι : Type) : Type :=
  (op : Op) → ι → σ → σ × Except Exn (Ret op)

variable (run : Meaning Op Ret Exn σ ι) (ok : ι → Prop)

/-- The program, run alone from a state, comes to what is left of it in another. -/
inductive Leads : Prog Op Ret Exn α → σ → Prog Op Ret Exn α → σ → Prop
  | refl (p : Prog Op Ret Exn α) (s : σ) : Leads p s p s
  | step {op : Op} {k : Except Exn (Ret op) → Prog Op Ret Exn α} {s s' : σ}
      {q : Prog Op Ret Exn α} (i : ι) (hi : ok i)
      (h : Leads (k (run op i s).2) (run op i s).1 q s') : Leads (call op k) s q s'

/-- The program, run alone from a state, ends. -/
def Ends (p : Prog Op Ret Exn α) (s : σ) (r : Except Exn α) (s' : σ) : Prop :=
  Leads run ok p s (ofExcept r) s'

/-- The program, run alone from a state, is cut off in front of what is left of it, or fails at the
next statement and runs on; `s'` is the state that it leaves. -/
inductive CutOff (p : Prog Op Ret Exn α) (s : σ) : Prog Op Ret Exn α → σ → Prop
  | crash {q : Prog Op Ret Exn α} {s' : σ} (h : Leads run ok p s q s') : CutOff p s q s'
  | fault {op : Op} {k : Except Exn (Ret op) → Prog Op Ret Exn α} {s₁ s' : σ} {r : Except Exn α}
      (e : Exn) (h : Leads run ok p s (call op k) s₁) (hrest : Ends run ok (k (.error e)) s₁ r s') :
      CutOff p s (call op k) s'

/-- The outcome with one input for all statements. -/
def eval (i : ι) : Prog Op Ret Exn α → σ → Except Exn α × σ
  | ret a, s => (.ok a, s)
  | raise e, s => (.error e, s)
  | call op k, s => eval i (k (run op i s).2) (run op i s).1

/-- The program, run alone with one input for all statements, returns. -/
def Returns (i : ι) (p : Prog Op Ret Exn α) (s : σ) : Prop := ∃ a, (eval run i p s).1 = .ok a

/-- A failing statement ends the program. -/
def Abrupt : Prog Op Ret Exn α → Prop
  | ret _ => True
  | raise _ => True
  | call _ k => (∀ e, k (.error e) = raise e) ∧ ∀ r, Abrupt (k r)

variable {run ok}

theorem leads_ret {a : α} {s s' : σ} {q : Prog Op Ret Exn α} :
    Leads run ok (ret a) s q s' ↔ q = ret a ∧ s' = s := by
  constructor
  · intro h
    cases h
    exact ⟨rfl, rfl⟩
  · intro h
    rw [h.1, h.2]
    exact .refl _ _

theorem leads_raise {e : Exn} {s s' : σ} {q : Prog Op Ret Exn α} :
    Leads run ok (raise e) s q s' ↔ q = raise e ∧ s' = s := by
  constructor
  · intro h
    cases h
    exact ⟨rfl, rfl⟩
  · intro h
    rw [h.1, h.2]
    exact .refl _ _

/-- **Sequencing**: what is left of `p >>= f` is left of `p`, or `p` has returned. -/
theorem leads_bind {p : Prog Op Ret Exn α} {f : α → Prog Op Ret Exn β} {s s' : σ}
    {q : Prog Op Ret Exn β} (h : Leads run ok (p >>= f) s q s') :
    (∃ p', Leads run ok p s p' s' ∧ q = p' >>= f) ∨
      ∃ a s₁, Leads run ok p s (ret a) s₁ ∧ Leads run ok (f a) s₁ q s' := by
  induction p generalizing s with
  | ret a => exact Or.inr ⟨a, s, .refl _ _, h⟩
  | raise e =>
      obtain ⟨rfl, rfl⟩ := leads_raise.mp h
      exact Or.inl ⟨raise e, .refl _ _, rfl⟩
  | call op k ih =>
      cases h with
      | refl => exact Or.inl ⟨call op k, .refl _ _, rfl⟩
      | step i hi h =>
          rcases ih _ h with ⟨p', hp', rfl⟩ | ⟨a, s₁, ha, hf⟩
          · exact Or.inl ⟨p', .step i hi hp', rfl⟩
          · exact Or.inr ⟨a, s₁, .step i hi ha, hf⟩

theorem Leads.bind {p p' : Prog Op Ret Exn α} {f : α → Prog Op Ret Exn β} {s s' : σ}
    (h : Leads run ok p s p' s') : Leads run ok (p >>= f) s (p' >>= f) s' := by
  induction h with
  | refl p s => exact .refl _ _
  | step i hi _ ih => exact .step i hi ih

theorem Leads.trans {p q r : Prog Op Ret Exn α} {s s₁ s' : σ} (h : Leads run ok p s q s₁)
    (h' : Leads run ok q s₁ r s') : Leads run ok p s r s' := by
  induction h with
  | refl p s => exact h'
  | step i hi _ ih => exact .step i hi (ih h')

theorem ends_ret {a : α} {s s' : σ} {r : Except Exn α} :
    Ends run ok (ret a) s r s' ↔ r = .ok a ∧ s' = s := by
  unfold Ends
  rw [leads_ret]
  cases r <;> simp [ofExcept]

theorem ends_raise {e : Exn} {s s' : σ} {r : Except Exn α} :
    Ends run ok (raise e) s r s' ↔ r = .error e ∧ s' = s := by
  unfold Ends
  rw [leads_raise]
  cases r <;> simp [ofExcept]

theorem ends_call {op : Op} {k : Except Exn (Ret op) → Prog Op Ret Exn α} {s s' : σ}
    {r : Except Exn α} : Ends run ok (call op k) s r s' ↔
      ∃ i, ok i ∧ Ends run ok (k (run op i s).2) (run op i s).1 r s' := by
  constructor
  · intro h
    unfold Ends at h
    generalize hq : ofExcept r = q at h
    cases h with
    | refl => cases r <;> cases hq
    | step i hi h =>
        subst hq
        exact ⟨i, hi, h⟩
  · intro h
    obtain ⟨i, hi, h⟩ := h
    exact .step i hi h

/-- **Sequencing to the end**: `p` has raised, or has returned and the rest ends. -/
theorem ends_bind {p : Prog Op Ret Exn α} {f : α → Prog Op Ret Exn β} {s s' : σ}
    {r : Except Exn β} (h : Ends run ok (p >>= f) s r s') :
    (∃ e, r = .error e ∧ Ends run ok p s (.error e) s') ∨
      ∃ a s₁, Ends run ok p s (.ok a) s₁ ∧ Ends run ok (f a) s₁ r s' := by
  rcases leads_bind h with ⟨p', hp', heq⟩ | ⟨a, s₁, ha, hf⟩
  · cases p' with
    | ret a =>
        refine Or.inr ⟨a, s', hp', ?_⟩
        show Leads run ok (f a) s' (ofExcept r) s'
        rw [heq]
        exact .refl _ _
    | raise e =>
        refine Or.inl ⟨e, ?_, hp'⟩
        cases r with
        | ok b => cases heq
        | error e' =>
            cases heq
            rfl
    | call op k => cases r <;> cases heq
  · exact Or.inr ⟨a, s₁, ha, hf⟩

/-- The end of one statement. -/
theorem ends_perform {op : Op} {s s' : σ} {r : Except Exn (Ret op)} :
    Ends run ok (perform op) s r s' ↔ ∃ i, ok i ∧ r = (run op i s).2 ∧ s' = (run op i s).1 := by
  show Ends run ok (call op ofExcept) s r s' ↔ _
  rw [ends_call]
  apply exists_congr
  intro i
  apply and_congr Iff.rfl
  cases (run op i s).2 with
  | ok a => exact ends_ret
  | error e => exact ends_raise

/-- One statement, and the rest of the program. -/
theorem ends_perform_bind {op : Op} {f : Ret op → Prog Op Ret Exn β} {s s' : σ} {r : Except Exn β}
    (h : Ends run ok (perform op >>= f) s r s') :
    ∃ i, ok i ∧ ((∃ e, r = .error e ∧ (run op i s).2 = .error e ∧ s' = (run op i s).1) ∨
      ∃ a, (run op i s).2 = .ok a ∧ Ends run ok (f a) (run op i s).1 r s') := by
  rcases ends_bind h with ⟨e, rfl, hp⟩ | ⟨a, s₁, hp, hf⟩
  · obtain ⟨i, hi, hr, hs⟩ := ends_perform.mp hp
    exact ⟨i, hi, Or.inl ⟨e, rfl, hr.symm, hs⟩⟩
  · obtain ⟨i, hi, hr, rfl⟩ := ends_perform.mp hp
    exact ⟨i, hi, Or.inr ⟨a, hr.symm, hf⟩⟩

/-- One statement that does not fail for the inputs in question, and the rest of the program. -/
theorem ends_answer_of {op : Op} {f : Ret op → Prog Op Ret Exn β} {s s' : σ} {r : Except Exn β}
    {a : ι → Ret op} (ha : ∀ i, ok i → (run op i s).2 = .ok (a i))
    (h : Ends run ok (perform op >>= f) s r s') :
    ∃ i, ok i ∧ Ends run ok (f (a i)) (run op i s).1 r s' := by
  obtain ⟨i, hi, ⟨e, _, he, _⟩ | ⟨b, hb, hf⟩⟩ := ends_perform_bind h
  · cases (ha i hi).symm.trans he
  · cases (ha i hi).symm.trans hb
    exact ⟨i, hi, hf⟩

/-- One statement that does not fail, and the rest of the program. -/
theorem ends_answer {op : Op} {f : Ret op → Prog Op Ret Exn β} {s s' : σ} {r : Except Exn β}
    {a : ι → Ret op} (ha : ∀ i, (run op i s).2 = .ok (a i))
    (h : Ends run ok (perform op >>= f) s r s') :
    ∃ i, ok i ∧ Ends run ok (f (a i)) (run op i s).1 r s' :=
  ends_answer_of (fun i _ => ha i) h

/-- **Every program ends.** -/
theorem ends_eval {i : ι} (hi : ok i) (p : Prog Op Ret Exn α) (s : σ) :
    Ends run ok p s (eval run i p s).1 (eval run i p s).2 := by
  induction p generalizing s with
  | ret a => exact .refl _ _
  | raise e => exact .refl _ _
  | call op k ih => exact .step i hi (ih _ _)

theorem eval_bind_ok {i : ι} {p : Prog Op Ret Exn α} {f : α → Prog Op Ret Exn β} {s s' : σ} {a : α}
    (h : eval run i p s = (.ok a, s')) : eval run i (p >>= f) s = eval run i (f a) s' := by
  induction p generalizing s with
  | ret b =>
      cases h
      rfl
  | raise e => cases h
  | call op k ih => exact ih _ h

theorem eval_bind_error {i : ι} {p : Prog Op Ret Exn α} {f : α → Prog Op Ret Exn β} {s s' : σ}
    {e : Exn} (h : eval run i p s = (.error e, s')) : eval run i (p >>= f) s = (.error e, s') := by
  induction p generalizing s with
  | ret b => cases h
  | raise e' =>
      cases h
      rfl
  | call op k ih => exact ih _ h

/-- **A program returns if both of its parts do.** -/
theorem returns_bind {i : ι} {p : Prog Op Ret Exn α} {f : α → Prog Op Ret Exn β} {s : σ} :
    Returns run i (p >>= f) s ↔
      ∃ a s', eval run i p s = (.ok a, s') ∧ Returns run i (f a) s' := by
  obtain ⟨r, s', h⟩ : ∃ r s', eval run i p s = (r, s') := ⟨_, _, rfl⟩
  unfold Returns
  cases r with
  | ok a =>
      rw [eval_bind_ok h, h]
      constructor
      · exact fun hb => ⟨a, s', rfl, hb⟩
      · rintro ⟨b, s₁, heq, hb⟩
        cases heq
        exact hb
  | error e =>
      rw [eval_bind_error h, h]
      constructor
      · rintro ⟨b, hb⟩
        cases hb
      · rintro ⟨b, s₁, heq, _⟩
        cases heq

/-- One statement, and the rest of the program. -/
theorem returns_perform_bind {i : ι} {op : Op} {f : Ret op → Prog Op Ret Exn β} {s : σ} :
    Returns run i (perform op >>= f) s ↔
      ∃ a, (run op i s).2 = .ok a ∧ Returns run i (f a) (run op i s).1 := by
  show Returns run i (call op fun r => ofExcept r >>= f) s ↔ _
  unfold Returns
  rw [eval]
  cases (run op i s).2 with
  | ok a =>
      constructor
      · exact fun h => ⟨a, rfl, h⟩
      · rintro ⟨b, heq, h⟩
        cases heq
        exact h
  | error e =>
      constructor
      · rintro ⟨b, hb⟩
        cases hb
      · rintro ⟨b, heq, _⟩
        cases heq

theorem returns_ret {i : ι} {a : α} {s : σ} : Returns run i (ret a : Prog Op Ret Exn α) s :=
  ⟨a, rfl⟩

theorem not_returns_raise {i : ι} {e : Exn} {s : σ} :
    ¬ Returns run i (raise e : Prog Op Ret Exn α) s := by
  rintro ⟨a, h⟩
  cases h

/-- What the statements of a program keep, the program keeps. -/
theorem Leads.invariant {I : σ → Prop} {φ : Op → Prop} {p q : Prog Op Ret Exn α} {s s' : σ}
    (h : Leads run ok p s q s') (hp : p.All φ)
    (hstep : ∀ op i s, φ op → I s → I (run op i s).1) (hs : I s) : I s' := by
  induction h with
  | refl p s => exact hs
  | step i _ _ ih => exact ih (hp.2 _) (hstep _ i _ hp.1 hs)

/-! ### Failures -/

theorem abrupt_perform (op : Op) : (perform op : Prog Op Ret Exn (Ret op)).Abrupt :=
  ⟨fun _ => rfl, fun r => by cases r <;> trivial⟩

theorem abrupt_bind {p : Prog Op Ret Exn α} {f : α → Prog Op Ret Exn β} (hp : p.Abrupt)
    (hf : ∀ a, (f a).Abrupt) : (p >>= f).Abrupt := by
  induction p with
  | ret a => exact hf a
  | raise e => trivial
  | call op k ih =>
      refine ⟨fun e => ?_, fun r => ih r (hp.2 r)⟩
      show k (.error e) >>= f = raise e
      rw [hp.1 e]
      rfl

theorem abrupt_perform_bind {op : Op} {f : Ret op → Prog Op Ret Exn β} (hf : ∀ a, (f a).Abrupt) :
    (perform op >>= f).Abrupt := abrupt_bind (abrupt_perform op) hf

theorem Leads.abrupt {p q : Prog Op Ret Exn α} {s s' : σ} (h : Leads run ok p s q s')
    (hp : p.Abrupt) : q.Abrupt := by
  induction h with
  | refl p s => exact hp
  | step i hi _ ih => exact ih (hp.2 _)

/-- **A failure of an abrupt program leaves the state in which it happened.** -/
theorem CutOff.leads {p q : Prog Op Ret Exn α} {s s' : σ} (hp : p.Abrupt)
    (h : CutOff run ok p s q s') : Leads run ok p s q s' := by
  cases h with
  | crash h => exact h
  | fault e h hrest =>
      rw [(h.abrupt hp).1 e] at hrest
      obtain ⟨_, rfl⟩ := ends_raise.mp hrest
      exact h

/-- The program has not begun, or has executed its first statement. -/
theorem leads_perform_bind {op : Op} {f : Ret op → Prog Op Ret Exn β} {s s' : σ}
    {q : Prog Op Ret Exn β} (h : Leads run ok (perform op >>= f) s q s') :
    (q = (perform op >>= f) ∧ s' = s) ∨ ∃ i, ok i ∧
      ((∃ e, (run op i s).2 = .error e ∧ q = raise e ∧ s' = (run op i s).1) ∨
        ∃ a, (run op i s).2 = .ok a ∧ Leads run ok (f a) (run op i s).1 q s') := by
  generalize hp : (perform op >>= f) = prog at h
  cases h with
  | refl => exact Or.inl ⟨rfl, rfl⟩
  | step i hi h =>
      cases hp
      refine Or.inr ⟨i, hi, ?_⟩
      cases hr : (run op i s).2 with
      | ok a =>
          rw [hr] at h
          exact Or.inr ⟨a, rfl, h⟩
      | error e =>
          rw [hr] at h
          obtain ⟨hq, hs⟩ := leads_raise.mp h
          exact Or.inl ⟨e, rfl, hq, hs⟩

/-- One statement more, and the rest of the way. -/
theorem Leads.perform {op : Op} {f : Ret op → Prog Op Ret Exn β} {s s' : σ} {q : Prog Op Ret Exn β}
    {a : Ret op} (i : ι) (hi : ok i) (ha : (run op i s).2 = .ok a)
    (h : Leads run ok (f a) (run op i s).1 q s') :
    Leads run ok (Prog.perform op >>= f) s q s' := by
  apply Leads.step i hi
  rw [ha]
  exact h

/-- What is left of a program has no other statements than the program. -/
theorem Leads.all {φ : Op → Prop} {p q : Prog Op Ret Exn α} {s s' : σ} (h : Leads run ok p s q s')
    (hp : p.All φ) : q.All φ := by
  induction h with
  | refl p s => exact hp
  | step i _ _ ih => exact ih (hp.2 _)

/-! ### Programs among others -/

/-- A statement that a program has executed, with the states before and after it. -/
structure Commit (Op σ : Type) where
  op : Op
  before : σ
  after : σ

/-- A program among others: each statement finds the state that the others have left, and the state
of the program is the record of what it has done itself. -/
def amid (run : Meaning Op Ret Exn σ ι) : Meaning Op Ret Exn (List (Commit Op σ)) (ι × σ) :=
  fun op x done => (done ++ [⟨op, x.2, (run op x.1 x.2).1⟩], (run op x.1 x.2).2)

/-- **What the statements of a program do, the program has done.** -/
theorem Leads.commits {φ : Op → Prop} {P : Commit Op σ → Prop} {ok : ι × σ → Prop}
    (hstep : ∀ op i s, φ op → P ⟨op, s, (run op i s).1⟩) {p q : Prog Op Ret Exn α}
    {done done' : List (Commit Op σ)} (h : Leads (amid run) ok p done q done') (hp : p.All φ) :
    ∃ more, done' = done ++ more ∧ ∀ e ∈ more, P e := by
  induction h with
  | refl p done => exact ⟨[], by simp, by simp⟩
  | @step op k done done' q i hi h ih =>
      obtain ⟨more, hmore, hP⟩ := ih (hp.2 _)
      refine ⟨⟨op, i.2, (run op i.1 i.2).1⟩ :: more, ?_, ?_⟩
      · rw [hmore]
        simp [amid]
      · intro e he
        rcases List.mem_cons.mp he with rfl | he
        · exact hstep op i.1 i.2 hp.1
        · exact hP e he

/-- Whatever its reads answer, the next statement of the program beside them is in `γ`. -/
def NextWrites (reads γ : Op → Prop) : Prog Op Ret Exn α → Prop
  | ret _ => False
  | raise _ => False
  | call op k => γ op ∨ (reads op ∧ ∀ a, NextWrites reads γ (k (.ok a)))

section NextWrites

variable {reads γ : Op → Prop} [∀ op, Nonempty (Ret op)]

/-- A program that only reads comes to what follows it. -/
theorem not_nextWrites_bind {p : Prog Op Ret Exn α} {f : α → Prog Op Ret Exn β}
    (hp : p.All fun op => ¬ γ op) (hf : ∀ a, ¬ NextWrites reads γ (f a)) :
    ¬ NextWrites reads γ (p >>= f) := by
  induction p with
  | ret a => exact hf a
  | raise e => exact id
  | call op k ih =>
      intro h
      rcases h with hγ | ⟨_, h⟩
      · exact hp.1 hγ
      · obtain ⟨a⟩ : Nonempty (Ret op) := inferInstance
        exact ih (.ok a) (hp.2 _) (h a)

theorem not_nextWrites_of_all {p : Prog Op Ret Exn α} (hp : p.All fun op => ¬ γ op) :
    ¬ NextWrites reads γ p := by
  induction p with
  | ret a => exact id
  | raise e => exact id
  | call op k ih =>
      intro h
      rcases h with hγ | ⟨_, h⟩
      · exact hp.1 hγ
      · obtain ⟨a⟩ : Nonempty (Ret op) := inferInstance
        exact ih (.ok a) (hp.2 _) (h a)

end NextWrites

end Prog

end PosttrainPlatform.Programs
