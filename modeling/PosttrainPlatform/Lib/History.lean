import Mathlib.Data.List.Induction
import PosttrainPlatform.Lib.Programs

/-!
# Histories of programs

A program knows of the shared state what its own statements have answered.  Its history is the list
of the statements it has executed, the newest first, each with its answer.  A discipline says which
statements a history justifies; `Justified` checks a program against it.  In a machine whose programs
keep a discipline, an invariant may speak of the histories of all threads beside the shared state:
`HistoryInvariant.run` carries it along a run, and `related_of_run` compares the state after a run
with the states that the run has passed.
-/

namespace PosttrainPlatform.Programs

variable {Op : Type} {Ret : Op → Type} {Exn Reply α β : Type}

/-- A statement that was executed, and what came of it. -/
abbrev Done (Op : Type) (Ret : Op → Type) (Exn : Type) := Σ op : Op, Except Exn (Ret op)

/-- The statements of a program so far, the newest first. -/
abbrev History (Op : Type) (Ret : Op → Type) (Exn : Type) := List (Done Op Ret Exn)

namespace History

/-- The statement has been executed, with this answer. -/
def Answered (h : History Op Ret Exn) (op : Op) (a : Ret op) : Prop := ⟨op, .ok a⟩ ∈ h

theorem Answered.mono {h h' : History Op Ret Exn} {op : Op} {a : Ret op} (ha : h.Answered op a)
    (hsub : h ⊆ h') : h'.Answered op a := hsub ha

theorem answered_cons_self (h : History Op Ret Exn) (op : Op) (a : Ret op) :
    History.Answered (⟨op, .ok a⟩ :: h) op a := List.mem_cons_self

theorem Answered.cons {h : History Op Ret Exn} {op : Op} {a : Ret op} (ha : h.Answered op a)
    (d : Done Op Ret Exn) : History.Answered (d :: h) op a := List.mem_cons_of_mem d ha

/-- Every statement was justified by what had been executed before it. -/
def Orderly (D : History Op Ret Exn → Op → Prop) : History Op Ret Exn → Prop
  | [] => True
  | d :: h => D h d.1 ∧ Orderly D h

/-- **An entry of an orderly history was justified by an earlier part of it.** -/
theorem Orderly.of_mem {D : History Op Ret Exn → Op → Prop} {h : History Op Ret Exn}
    (horder : Orderly D h) {d : Done Op Ret Exn} (hd : d ∈ h) :
    ∃ earlier, (d :: earlier) <:+ h ∧ D earlier d.1 := by
  induction h with
  | nil => cases hd
  | cons e h ih =>
      obtain rfl | hd := List.mem_cons.mp hd
      · exact ⟨h, List.suffix_rfl, horder.1⟩
      · obtain ⟨earlier, hsuffix, hD⟩ := ih horder.2 hd
        exact ⟨earlier, hsuffix.trans (List.suffix_cons e h), hD⟩

theorem Orderly.mono {D D' : History Op Ret Exn → Op → Prop} (hD : ∀ h op, D h op → D' h op)
    {h : History Op Ret Exn} (horder : Orderly D h) : Orderly D' h := by
  induction h with
  | nil => trivial
  | cons d h ih => exact ⟨hD h d.1 horder.1, ih horder.2⟩

/-- What is justified for good is justified by the whole history. -/
theorem Orderly.justifies {D : History Op Ret Exn → Op → Prop} {h : History Op Ret Exn}
    (horder : Orderly D h) {P : History Op Ret Exn → Prop} {op : Op} {r : Except Exn (Ret op)}
    (hP : ∀ h h', h ⊆ h' → P h → P h') (hop : ∀ h, D h op → P h) (hd : ⟨op, r⟩ ∈ h) : P h := by
  obtain ⟨earlier, hsuffix, hD⟩ := horder.of_mem hd
  exact hP earlier h (List.Subset.trans (List.subset_cons_self _ _) hsuffix.subset) (hop earlier hD)

end History

/-- Where only one entry of a history meets a condition, the history splits at such an entry in one
way. -/
theorem split_unique {P : Done Op Ret Exn → Prop} {post post' pre pre' : History Op Ret Exn}
    {d d' : Done Op Ret Exn} (h : post ++ d :: pre = post' ++ d' :: pre') (hd' : P d')
    (hpost : ∀ e ∈ post, ¬ P e) (hpre : ∀ e ∈ pre, ¬ P e) : post' = post ∧ d' = d ∧ pre' = pre := by
  induction post generalizing post' with
  | nil =>
      cases post' with
      | nil =>
          obtain ⟨rfl, rfl⟩ := List.cons.inj h
          exact ⟨rfl, rfl, rfl⟩
      | cons e post' =>
          obtain ⟨_, hrest⟩ := List.cons.inj h
          exact absurd hd' (hpre d' (hrest ▸ by simp))
  | cons e post ih =>
      cases post' with
      | nil =>
          obtain ⟨rfl, _⟩ := List.cons.inj h
          exact absurd hd' (hpost e List.mem_cons_self)
      | cons e' post' =>
          obtain ⟨rfl, hrest⟩ := List.cons.inj h
          obtain ⟨rfl, hdd, hpp⟩ := ih hrest fun x hx => hpost x (List.mem_cons_of_mem _ hx)
          exact ⟨rfl, hdd, hpp⟩

namespace Prog

variable {D D' : History Op Ret Exn → Op → Prop}

/-- After the history `h` the program executes only statements that the discipline justifies, and
ends in `Q`. -/
def Justified (D : History Op Ret Exn → Op → Prop) :
    History Op Ret Exn → Prog Op Ret Exn α → (Except Exn α → History Op Ret Exn → Prop) → Prop
  | h, ret a, Q => Q (.ok a) h
  | h, raise e, Q => Q (.error e) h
  | h, call op k, Q => D h op ∧ ∀ r, Justified D (⟨op, r⟩ :: h) (k r) Q

theorem Justified.mono {p : Prog Op Ret Exn α} {h : History Op Ret Exn}
    {Q R : Except Exn α → History Op Ret Exn → Prop} (hp : Justified D h p Q)
    (hQ : ∀ r m, Q r m → R r m) : Justified D h p R := by
  induction p generalizing h with
  | ret a => exact hQ _ h hp
  | raise e => exact hQ _ h hp
  | call op k ih => exact ⟨hp.1, fun r => ih r (hp.2 r)⟩

/-- A stricter discipline. -/
theorem Justified.weaken {p : Prog Op Ret Exn α} {h : History Op Ret Exn}
    {Q : Except Exn α → History Op Ret Exn → Prop} (hp : Justified D h p Q)
    (hD : ∀ m op, D m op → D' m op) : Justified D' h p Q := by
  induction p generalizing h with
  | ret a => exact hp
  | raise e => exact hp
  | call op k ih => exact ⟨hD h op hp.1, fun r => ih r (hp.2 r)⟩

/-- **Sequencing.** -/
theorem justified_bind {p : Prog Op Ret Exn α} {f : α → Prog Op Ret Exn β}
    {h : History Op Ret Exn} {Q : Except Exn α → History Op Ret Exn → Prop}
    {R : Except Exn β → History Op Ret Exn → Prop} (hp : Justified D h p Q)
    (hf : ∀ a m, Q (.ok a) m → Justified D m (f a) R)
    (hraise : ∀ e m, Q (.error e) m → R (.error e) m) : Justified D h (p >>= f) R := by
  induction p generalizing h with
  | ret a => exact hf a h hp
  | raise e => exact hraise e h hp
  | call op k ih => exact ⟨hp.1, fun r => ih r (hp.2 r)⟩

theorem justified_attempt {p : Prog Op Ret Exn α} {h : History Op Ret Exn}
    {Q : Except Exn (Except Exn α) → History Op Ret Exn → Prop}
    (hp : Justified D h p fun r => Q (.ok r)) : Justified D h (attempt p) Q := by
  induction p generalizing h with
  | ret a => exact hp
  | raise e => exact hp
  | call op k ih => exact ⟨hp.1, fun r => ih r (hp.2 r)⟩

theorem justified_ofExcept {r : Except Exn α} {h : History Op Ret Exn}
    {Q : Except Exn α → History Op Ret Exn → Prop} (hQ : Q r h) :
    Justified D h (ofExcept r : Prog Op Ret Exn α) Q := by
  cases r <;> exact hQ

theorem justified_perform {op : Op} {h : History Op Ret Exn}
    {Q : Except Exn (Ret op) → History Op Ret Exn → Prop} (hop : D h op)
    (hQ : ∀ r, Q r (⟨op, r⟩ :: h)) : Justified D h (perform op) Q :=
  ⟨hop, fun r => justified_ofExcept (hQ r)⟩

/-- One statement, and the rest of the program. -/
theorem justified_perform_bind {op : Op} {f : Ret op → Prog Op Ret Exn β}
    {h : History Op Ret Exn} {R : Except Exn β → History Op Ret Exn → Prop} (hop : D h op)
    (hok : ∀ a, Justified D (⟨op, .ok a⟩ :: h) (f a) R)
    (herror : ∀ e, R (.error e) (⟨op, .error e⟩ :: h)) : Justified D h (perform op >>= f) R := by
  refine ⟨hop, fun r => ?_⟩
  cases r with
  | ok a => exact hok a
  | error e => exact herror e

/-- A `finally` clause of one statement. -/
theorem justified_ensuring {p : Prog Op Ret Exn α} {last : Prog Op Ret Exn Unit}
    {h : History Op Ret Exn} {Q R : Except Exn α → History Op Ret Exn → Prop}
    (hp : Justified D h p Q)
    (hlast : ∀ r m, Q r m → Justified D m last fun o m => R (o.bind fun _ => r) m) :
    Justified D h (ensuring p last) R := by
  refine justified_bind (justified_attempt (Q := fun r m => ∃ r', r = .ok r' ∧ Q r' m)
    (hp.mono fun r m hr => ⟨r, rfl, hr⟩)) (fun r m hr => ?_) fun e m hr => ?_
  · obtain ⟨_, heq, hr⟩ := hr
    cases heq
    refine justified_bind (hlast r m hr) (fun _ m hm => ?_) fun e m hm => hm
    exact justified_ofExcept hm
  · obtain ⟨_, heq, _⟩ := hr
    cases heq

/-- A program whose statements are justified by histories that meet `I`, and lead to such ones. -/
theorem justified_of_all {φ : Op → Prop} {I : History Op Ret Exn → Prop}
    (hop : ∀ h op, I h → φ op → D h op ∧ ∀ r, I (⟨op, r⟩ :: h)) {p : Prog Op Ret Exn α}
    (hp : p.All φ) {h : History Op Ret Exn} (hI : I h) : Justified D h p fun _ => I := by
  induction p generalizing h with
  | ret a => exact hI
  | raise e => exact hI
  | call op k ih =>
      obtain ⟨hD, hnext⟩ := hop h op hI hp.1
      exact ⟨hD, fun r => ih r (hp.2 r) (hnext r)⟩

/-- A history only grows. -/
theorem Justified.grows {p : Prog Op Ret Exn α} {h : History Op Ret Exn}
    {Q : Except Exn α → History Op Ret Exn → Prop} (hp : Justified D h p Q) :
    Justified D h p fun r m => h ⊆ m ∧ Q r m := by
  induction p generalizing h with
  | ret a => exact ⟨fun _ => id, hp⟩
  | raise e => exact ⟨fun _ => id, hp⟩
  | call op k ih =>
      refine ⟨hp.1, fun r => (ih r (hp.2 r)).mono fun o m hm => ⟨?_, hm.2⟩⟩
      exact List.Subset.trans (List.subset_cons_self _ _) hm.1

/-- Two disciplines at once. -/
theorem Justified.and {p : Prog Op Ret Exn α} {h : History Op Ret Exn}
    {Q R : Except Exn α → History Op Ret Exn → Prop} (hp : Justified D h p Q)
    (hp' : Justified D' h p R) :
    Justified (fun m op => D m op ∧ D' m op) h p fun r m => Q r m ∧ R r m := by
  induction p generalizing h with
  | ret a => exact ⟨hp, hp'⟩
  | raise e => exact ⟨hp, hp'⟩
  | call op k ih => exact ⟨⟨hp.1, hp'.1⟩, fun r => ih r (hp.2 r) (hp'.2 r)⟩

/-! ### What a program has learnt -/

/-- The program keeps the discipline, and has learnt `Q` when it returns. -/
abbrev Learns (D : History Op Ret Exn → Op → Prop) (h : History Op Ret Exn)
    (p : Prog Op Ret Exn α) (Q : α → History Op Ret Exn → Prop) : Prop :=
  p.Justified D h fun r m => h ⊆ m ∧ ∀ a, r = .ok a → Q a m

section Learns

variable {h : History Op Ret Exn} {Q : α → History Op Ret Exn → Prop}

theorem learns_ret {a : α} (hQ : Q a h) : Learns D h (ret a) Q := by
  refine ⟨fun _ => id, fun b hb => ?_⟩
  cases hb
  exact hQ

theorem learns_raise {e : Exn} : Learns D h (raise e) Q := ⟨fun _ => id, fun b hb => by cases hb⟩

theorem Learns.mono {p : Prog Op Ret Exn α} {R : α → History Op Ret Exn → Prop}
    (hp : Learns D h p Q) (hQ : ∀ a m, h ⊆ m → Q a m → R a m) : Learns D h p R :=
  Justified.mono hp fun _ m hr => ⟨hr.1, fun a ha => hQ a m hr.1 (hr.2 a ha)⟩

/-- **Sequencing.** -/
theorem Learns.bind {p : Prog Op Ret Exn α} {f : α → Prog Op Ret Exn β}
    {R : β → History Op Ret Exn → Prop} (hp : Learns D h p Q)
    (hf : ∀ a m, h ⊆ m → Q a m → Learns D m (f a) R) : Learns D h (p >>= f) R := by
  refine justified_bind hp (fun a m hm => ?_) fun e m hm => ⟨hm.1, fun b hb => by cases hb⟩
  exact Justified.mono (hf a m hm.1 (hm.2 a rfl)) fun r m' hr => ⟨fun _ hd => hr.1 (hm.1 hd), hr.2⟩

/-- One statement. -/
theorem learns_perform {op : Op} {Q : Ret op → History Op Ret Exn → Prop} (hop : D h op)
    (hQ : ∀ a m, h ⊆ m → m.Answered op a → Q a m) : Learns D h (perform op) Q := by
  refine justified_perform hop fun r => ⟨List.subset_cons_self _ _, fun a ha => ?_⟩
  refine hQ a _ (List.subset_cons_self _ _) ?_
  rw [ha]
  exact History.answered_cons_self _ _ _

/-- One statement, and the rest of the program. -/
theorem learns_perform_bind {op : Op} {f : Ret op → Prog Op Ret Exn β}
    {R : β → History Op Ret Exn → Prop} (hop : D h op)
    (hf : ∀ a m, h ⊆ m → m.Answered op a → Learns D m (f a) R) :
    Learns D h (perform op >>= f) R :=
  Learns.bind (learns_perform (Q := fun a m => m.Answered op a) hop fun _ _ _ => id) hf

/-- A program whose exceptions are caught. -/
theorem learns_attempt {p : Prog Op Ret Exn α} {Q : Except Exn α → History Op Ret Exn → Prop}
    (hp : p.Justified D h Q) : Learns D h (attempt p) Q := by
  refine justified_attempt (hp.grows.mono fun r m hr => ⟨hr.1, fun a ha => ?_⟩)
  cases ha
  exact hr.2

/-- A program whose statements are always justified. -/
theorem learns_of_all {p : Prog Op Ret Exn α} (hp : p.All fun op => ∀ h, D h op) :
    Learns D h p fun _ _ => True := by
  refine (justified_of_all (I := fun m => h ⊆ m) (fun m op hm hop => ⟨hop m, fun r => ?_⟩)
    hp fun _ => id).mono fun r m hm => ⟨hm, fun _ _ => trivial⟩
  exact fun _ hd => List.mem_cons_of_mem _ (hm hd)

end Learns

end Prog

/-! ### Histories in a machine -/

variable {M : Machine Op Ret Exn Reply}

/-- The histories of all threads. -/
abbrev Histories (Op : Type) (Ret : Op → Type) (Exn : Type) := ℕ → History Op Ret Exn

/-- Thread `p` has executed one more statement. -/
def Histories.add (h : Histories Op Ret Exn) (p : ℕ) (d : Done Op Ret Exn) :
    Histories Op Ret Exn := Function.update h p (d :: h p)

theorem Histories.mem_add {h : Histories Op Ret Exn} {p q : ℕ} {d e : Done Op Ret Exn} :
    e ∈ h.add p d q ↔ (q = p ∧ e = d) ∨ e ∈ h q := by
  unfold Histories.add
  by_cases hq : q = p
  · subst hq
    rw [Function.update_self, List.mem_cons]
    simp
  · rw [Function.update_of_ne hq]
    simp [hq]

theorem Histories.subset_add (h : Histories Op Ret Exn) (p q : ℕ) (d : Done Op Ret Exn) :
    h q ⊆ h.add p d q := fun _ he => Histories.mem_add.mpr (Or.inr he)

/-- An answer is one that just came, or an earlier one. -/
theorem Histories.answered_add {h : Histories Op Ret Exn} {p q : ℕ} {op op' : Op}
    {r : Except Exn (Ret op)} {a : Ret op'}
    (ha : History.Answered (h.add p ⟨op, r⟩ q) op' a) :
    (q = p ∧ (⟨op', .ok a⟩ : Done Op Ret Exn) = ⟨op, r⟩) ∨ (h q).Answered op' a :=
  Histories.mem_add.mp ha

/-- A failure is no answer. -/
theorem Histories.answered_of_fault {h : Histories Op Ret Exn} {p q : ℕ} {op op' : Op} {e : Exn}
    {a : Ret op'} (ha : History.Answered (h.add p ⟨op, .error e⟩ q) op' a) :
    (h q).Answered op' a := by
  obtain ⟨_, heq⟩ | ha := Histories.answered_add ha
  · obtain ⟨rfl, heq⟩ := Sigma.mk.inj heq
    cases eq_of_heq heq
  · exact ha

/-- A justified statement keeps the histories orderly. -/
theorem History.orderly_add {D : History Op Ret Exn → Op → Prop} {h : Histories Op Ret Exn}
    (horder : ∀ q, Orderly D (h q)) {p : ℕ} {d : Done Op Ret Exn} (hd : D (h p) d.1) (q : ℕ) :
    Orderly D (h.add p d q) := by
  unfold Histories.add
  by_cases hq : q = p
  · subst hq
    rw [Function.update_self]
    exact ⟨hd, horder q⟩
  · rw [Function.update_of_ne hq]
    exact horder q

/-- What an event adds to the histories. -/
def Config.record (c : Config M) (h : Histories Op Ret Exn) : Event M → Histories Op Ret Exn
  | .step p i =>
      match c.threads p with
      | some { call, prog := .call op _, alive := true } =>
          h.add p ⟨op, (M.perform p call op i c.shared).2⟩
      | _ => h
  | .fault p e =>
      match c.threads p with
      | some { call := _, prog := .call op _, alive := true } => h.add p ⟨op, .error e⟩
      | _ => h
  | _ => h

theorem Config.record_step {c : Config M} {h : Histories Op Ret Exn} {p : ℕ} {i : M.Input}
    {call : M.Call} {op : Op} {k : Except Exn (Ret op) → Prog Op Ret Exn Reply}
    (hat : c.AtOp p call op k) :
    c.record h (.step p i) = h.add p ⟨op, (M.perform p call op i c.shared).2⟩ := by
  have hthread : c.threads p = some { call, prog := .call op k } := hat
  simp only [Config.record, hthread]

theorem Config.record_fault {c : Config M} {h : Histories Op Ret Exn} {p : ℕ} {e : Exn}
    {call : M.Call} {op : Op} {k : Except Exn (Ret op) → Prog Op Ret Exn Reply}
    (hat : c.AtOp p call op k) : c.record h (.fault p e) = h.add p ⟨op, .error e⟩ := by
  have hthread : c.threads p = some { call, prog := .call op k } := hat
  simp only [Config.record, hthread]

/-- The histories after a run. -/
def Config.historiesFrom : Config M → Histories Op Ret Exn → List (Event M) → Histories Op Ret Exn
  | _, h, [] => h
  | c, h, e :: es =>
      match c.step e with
      | some c' => historiesFrom c' (c.record h e) es
      | none => h

/-- The histories of a run from the state `s`, where no call has begun. -/
def histories (M : Machine Op Ret Exn Reply) (s : M.State) (es : List (Event M)) :
    Histories Op Ret Exn :=
  ({ shared := s } : Config M).historiesFrom (fun _ => []) es

theorem Config.historiesFrom_cons {c c' : Config M} {h : Histories Op Ret Exn} {e : Event M}
    {es : List (Event M)} (hstep : c.step e = some c') :
    c.historiesFrom h (e :: es) = c'.historiesFrom (c.record h e) es := by
  rw [historiesFrom, hstep]

theorem Config.historiesFrom_append {c c' : Config M} {h : Histories Op Ret Exn}
    {es fs : List (Event M)} (hrun : Runs.runFrom Config.step c es = some c') :
    c.historiesFrom h (es ++ fs) = c'.historiesFrom (c.historiesFrom h es) fs := by
  induction es generalizing c h with
  | nil =>
      simp only [Runs.runFrom_nil, Option.some.injEq] at hrun
      subst hrun
      rfl
  | cons e es ih =>
      obtain ⟨m, hm, hrest⟩ := Runs.runFrom_cons.mp hrun
      rw [List.cons_append, historiesFrom_cons hm, historiesFrom_cons hm, ih hrest]

/-- A run that goes on, by one event. -/
theorem histories_concat {s : M.State} {es : List (Event M)} {c c' : Config M} {e : Event M}
    (hrun : Runs.runFrom Config.step ({ shared := s } : Config M) es = some c)
    (hstep : c.step e = some c') :
    histories M s (es ++ [e]) = c.record (histories M s es) e := by
  unfold histories
  rw [Config.historiesFrom_append hrun, Config.historiesFrom_cons hstep]
  rfl

/-- An event takes nothing out of the histories. -/
theorem Config.subset_record {c c' : Config M} (h : Histories Op Ret Exn) {e : Event M}
    (hstep : c.step e = some c') (q : ℕ) : h q ⊆ c.record h e q := by
  obtain ⟨p, call, rfl, _, _⟩ | ⟨p, i, call, op, k, rfl, hat, _⟩ |
    ⟨p, x, call, op, k, rfl, hat, _⟩ | ⟨p, call, op, k, rfl, _, _⟩ | ⟨a, rfl, _⟩ :=
    Config.step_cases hstep
  · exact fun _ => id
  · rw [Config.record_step hat]
    exact Histories.subset_add h p q _
  · rw [Config.record_fault hat]
    exact Histories.subset_add h p q _
  · exact fun _ => id
  · exact fun _ => id

theorem Config.subset_historiesFrom (c : Config M) (h : Histories Op Ret Exn) (es : List (Event M))
    (q : ℕ) : h q ⊆ c.historiesFrom h es q := by
  induction es generalizing c h with
  | nil => exact fun _ => id
  | cons e es ih =>
      cases hstep : c.step e with
      | none =>
          rw [Config.historiesFrom, hstep]
          exact fun _ => id
      | some c' =>
          rw [Config.historiesFrom_cons hstep]
          exact List.Subset.trans (Config.subset_record h hstep q) (ih _ _)

/-- **The histories only grow along a run.** -/
theorem histories_subset {s : M.State} {es fs : List (Event M)} {m : Config M} (hfs : fs <+: es)
    (hm : Runs.runFrom Config.step ({ shared := s } : Config M) fs = some m) (q : ℕ) :
    histories M s fs q ⊆ histories M s es q := by
  obtain ⟨rest, rfl⟩ := hfs
  unfold histories
  rw [Config.historiesFrom_append hm]
  exact Config.subset_historiesFrom m _ rest q

/-- `J` is an invariant of the shared state and the histories, in runs whose states and histories
meet `K` and whose statements meet `φ`. -/
structure HistoryInvariant (D : History Op Ret Exn → Op → Prop)
    (J : M.State → Histories Op Ret Exn → Prop) (K : M.State → Histories Op Ret Exn → Prop)
    (φ : Op → M.Input → M.State → Prop) : Prop where
  perform : ∀ p i call op s h, K s h → J s h → D (h p) op → φ op i s →
    J (M.perform p call op i s).1 (h.add p ⟨op, (M.perform p call op i s).2⟩)
  fault : ∀ p e op s h, K s h → J s h → D (h p) op → J s (h.add p ⟨op, .error e⟩)
  halt : ∀ p s h, K s h → J s h → J (M.halt p s) h
  ambient : ∀ a s h, K s h → J s h → J (M.ambient a s) h

/-- The same, for a condition on the statements that may look at the histories. -/
structure GuardedInvariant (D : History Op Ret Exn → Op → Prop)
    (J : M.State → Histories Op Ret Exn → Prop) (K : M.State → Histories Op Ret Exn → Prop)
    (φ : Histories Op Ret Exn → Op → M.Input → M.State → Prop) : Prop where
  perform : ∀ p i call op s h, K s h → J s h → D (h p) op → φ h op i s →
    J (M.perform p call op i s).1 (h.add p ⟨op, (M.perform p call op i s).2⟩)
  fault : ∀ p e op s h, K s h → J s h → D (h p) op → J s (h.add p ⟨op, .error e⟩)
  halt : ∀ p s h, K s h → J s h → J (M.halt p s) h
  ambient : ∀ a s h, K s h → J s h → J (M.ambient a s) h

theorem HistoryInvariant.guarded {D : History Op Ret Exn → Op → Prop}
    {J K : M.State → Histories Op Ret Exn → Prop} {φ : Op → M.Input → M.State → Prop}
    (hJ : HistoryInvariant D J K φ) : GuardedInvariant D J K fun _ => φ :=
  ⟨hJ.perform, hJ.fault, hJ.halt, hJ.ambient⟩

section Runs

variable {D : History Op Ret Exn → Op → Prop} {J K : M.State → Histories Op Ret Exn → Prop}
  {φ : Op → M.Input → M.State → Prop}

/-- The threads keep the discipline, each with its own history. -/
structure Config.Disciplined (D : History Op Ret Exn → Op → Prop) (c : Config M)
    (h : Histories Op Ret Exn) : Prop where
  idle : ∀ p, c.threads p = none → h p = []
  orderly : ∀ p, History.Orderly D (h p)
  running : ∀ p t, c.threads p = some t → t.alive = true →
    t.prog.Justified D (h p) fun _ _ => True

theorem Config.Disciplined.set {c : Config M} {h : Histories Op Ret Exn} (hc : c.Disciplined D h)
    {p : ℕ} {s : M.State} {t : Thread M} {h' : Histories Op Ret Exn}
    (hother : ∀ q, q ≠ p → h' q = h q) (horder : History.Orderly D (h' p))
    (ht : t.alive = true → t.prog.Justified D (h' p) fun _ _ => True) :
    (c.set p s t).Disciplined D h' := by
  refine ⟨fun q hq => ?_, fun q => ?_, fun q t' hq halive => ?_⟩
  · by_cases hqp : q = p
    · subst hqp
      simp [Config.set] at hq
    · simp only [Config.set, Function.update_of_ne hqp] at hq
      rw [hother q hqp, hc.idle q hq]
  · by_cases hqp : q = p
    · exact hqp ▸ horder
    · rw [hother q hqp]
      exact hc.orderly q
  · by_cases hqp : q = p
    · subst hqp
      simp only [Config.set, Function.update_self, Option.some.injEq] at hq
      subst hq
      exact ht halive
    · simp only [Config.set, Function.update_of_ne hqp] at hq
      rw [hother q hqp]
      exact hc.running q t' hq halive

/-- A statement that a disciplined thread is about to execute is justified. -/
theorem Config.Disciplined.justified {c : Config M} {h : Histories Op Ret Exn}
    (hc : c.Disciplined D h) {p : ℕ} {call : M.Call} {op : Op}
    {k : Except Exn (Ret op) → Prog Op Ret Exn Reply} (hat : c.AtOp p call op k) :
    D (h p) op ∧ ∀ r, (k r).Justified D (⟨op, r⟩ :: h p) fun _ _ => True :=
  hc.running p _ hat rfl

/-- **One event of a machine whose programs keep a discipline.** -/
theorem Config.Disciplined.step (hprog : ∀ call, (M.program call).Justified D [] fun _ _ => True)
    {c c' : Config M} {h : Histories Op Ret Exn} {e : Event M} (hc : c.Disciplined D h)
    (hstep : c.step e = some c') : c'.Disciplined D (c.record h e) := by
  have hadd : ∀ p d, History.Orderly D (h p) → D (h p) d.1 → (h.add p d) p = d :: h p ∧
      History.Orderly D ((h.add p d) p) ∧ ∀ q, q ≠ p → h.add p d q = h q := by
    intro p d horder hd
    have hself : (h.add p d) p = d :: h p := Function.update_self _ _ _
    exact ⟨hself, hself ▸ ⟨hd, horder⟩, fun q hq => Function.update_of_ne hq _ _⟩
  obtain ⟨p, call, rfl, hp, rfl⟩ | ⟨p, i, call, op, k, rfl, hat, rfl⟩ |
    ⟨p, x, call, op, k, rfl, hat, rfl⟩ | ⟨p, call, op, k, rfl, hat, rfl⟩ | ⟨a, rfl, rfl⟩ :=
    Config.step_cases hstep
  · refine hc.set (fun _ _ => rfl) (hc.orderly p) fun _ => ?_
    show (M.program call).Justified D (h p) fun _ _ => True
    rw [hc.idle p hp]
    exact hprog call
  · obtain ⟨hD, hnext⟩ := hc.justified hat
    obtain ⟨hself, horder, hother⟩ :=
      hadd p ⟨op, (M.perform p call op i c.shared).2⟩ (hc.orderly p) hD
    rw [Config.record_step hat]
    exact hc.set hother horder fun _ => hself ▸ hnext _
  · obtain ⟨hD, hnext⟩ := hc.justified hat
    obtain ⟨hself, horder, hother⟩ := hadd p ⟨op, .error x⟩ (hc.orderly p) hD
    rw [Config.record_fault hat]
    exact hc.set hother horder fun _ => hself ▸ hnext _
  · refine hc.set (fun _ _ => rfl) (hc.orderly p) fun halive => ?_
    cases halive
  · exact ⟨hc.idle, hc.orderly, hc.running⟩

/-- **The threads of a run keep the discipline of the programs.** -/
theorem disciplined_of_run (hprog : ∀ call, (M.program call).Justified D [] fun _ _ => True)
    {s : M.State} {c : Config M} {es : List (Event M)}
    (hrun : Runs.runFrom Config.step ({ shared := s } : Config M) es = some c) :
    c.Disciplined D (histories M s es) := by
  induction es using List.reverseRecOn generalizing c with
  | nil =>
      simp only [Runs.runFrom_nil, Option.some.injEq] at hrun
      subst hrun
      exact ⟨fun _ _ => rfl, fun _ => trivial, fun p t ht => by cases ht⟩
  | append_singleton es e ih =>
      obtain ⟨m, hm, hlast⟩ := Runs.runFrom_append.mp hrun
      obtain ⟨m', hm', heq⟩ := Runs.runFrom_cons.mp hlast
      simp only [Runs.runFrom_nil, Option.some.injEq] at heq
      subst heq
      rw [histories_concat hm hm']
      exact (ih hm).step hprog hm'

/-- **An invariant of the histories holds after every run** whose statements meet its condition. -/
theorem GuardedInvariant.run {φ : Histories Op Ret Exn → Op → M.Input → M.State → Prop}
    (hJ : GuardedInvariant D J K φ)
    (hprog : ∀ call, (M.program call).Justified D [] fun _ _ => True) {s : M.State} {c : Config M}
    {es : List (Event M)} (hs : J s fun _ => [])
    (hK : ∀ fs m, fs <+: es → Runs.runFrom Config.step ({ shared := s } : Config M) fs = some m →
      K m.shared (histories M s fs))
    (hφ : ∀ fs m p i, fs ++ [.step p i] <+: es →
      Runs.runFrom Config.step ({ shared := s } : Config M) fs = some m →
      ∀ call op k, m.AtOp p call op k → φ (histories M s fs) op i m.shared)
    (hrun : Runs.runFrom Config.step ({ shared := s } : Config M) es = some c) :
    J c.shared (histories M s es) := by
  induction es using List.reverseRecOn generalizing c with
  | nil =>
      simp only [Runs.runFrom_nil, Option.some.injEq] at hrun
      subst hrun
      exact hs
  | append_singleton es e ih =>
      obtain ⟨m, hm, hlast⟩ := Runs.runFrom_append.mp hrun
      obtain ⟨m', hm', heq⟩ := Runs.runFrom_cons.mp hlast
      simp only [Runs.runFrom_nil, Option.some.injEq] at heq
      subst heq
      have hmJ := ih (fun fs m hfs => hK fs m (hfs.trans (List.prefix_append _ _)))
        (fun fs m p i hfs => hφ fs m p i (hfs.trans (List.prefix_append _ _))) hm
      have hmK := hK es m (List.prefix_append _ _) hm
      have hmD := disciplined_of_run hprog hm
      rw [histories_concat hm hm']
      obtain ⟨p, call, rfl, hp, rfl⟩ | ⟨p, i, call, op, k, rfl, hat, rfl⟩ |
        ⟨p, x, call, op, k, rfl, hat, rfl⟩ | ⟨p, call, op, k, rfl, hat, rfl⟩ | ⟨a, rfl, rfl⟩ :=
        Config.step_cases hm'
      · exact hmJ
      · rw [Config.record_step hat]
        exact hJ.perform p i call op m.shared _ hmK hmJ (hmD.justified hat).1
          (hφ es m p i (List.prefix_refl _) hm call op k hat)
      · rw [Config.record_fault hat]
        exact hJ.fault p x op m.shared _ hmK hmJ (hmD.justified hat).1
      · exact hJ.halt p m.shared _ hmK hmJ
      · exact hJ.ambient a m.shared _ hmK hmJ

theorem HistoryInvariant.run (hJ : HistoryInvariant D J K φ)
    (hprog : ∀ call, (M.program call).Justified D [] fun _ _ => True) {s : M.State} {c : Config M}
    {es : List (Event M)} (hs : J s fun _ => [])
    (hK : ∀ fs m, fs <+: es → Runs.runFrom Config.step ({ shared := s } : Config M) fs = some m →
      K m.shared (histories M s fs))
    (hφ : Runs.Always Config.step (Config.AtStep φ) ({ shared := s } : Config M) es)
    (hrun : Runs.runFrom Config.step ({ shared := s } : Config M) es = some c) :
    J c.shared (histories M s es) := by
  refine hJ.guarded.run hprog hs hK (fun fs m p i hfs hm => ?_) hrun
  obtain ⟨rest, rfl⟩ := hfs
  rw [List.append_assoc] at hφ
  exact (Runs.always_append hm hφ).2.1

/-- **The statements that a run records** are those of the calls that begin in it. -/
theorem executed_of_run {ψ : M.Call → Prop} {χ : Op → Prop}
    (hprog : ∀ call, ψ call → (M.program call).All χ) {s : M.State} {c : Config M}
    {es : List (Event M)}
    (hbegin : Runs.Always Config.step (Config.Begins ψ) ({ shared := s } : Config M) es)
    (hrun : Runs.runFrom Config.step ({ shared := s } : Config M) es = some c) {p : ℕ}
    {d : Done Op Ret Exn} (hd : d ∈ histories M s es p) : χ d.1 := by
  have hall : (c.Every fun _ prog => prog.All χ) ∧ ∀ p, ∀ d ∈ histories M s es p, χ d.1 := by
    clear hd
    induction es using List.reverseRecOn generalizing c with
    | nil =>
        simp only [Runs.runFrom_nil, Option.some.injEq] at hrun
        subst hrun
        exact ⟨nofun, nofun⟩
    | append_singleton es e ih =>
        obtain ⟨m, hm, hlast⟩ := Runs.runFrom_append.mp hrun
        obtain ⟨m', hm', heq⟩ := Runs.runFrom_cons.mp hlast
        simp only [Runs.runFrom_nil, Option.some.injEq] at heq
        subst heq
        obtain ⟨hbefore, hnow⟩ := Runs.always_append hm hbegin
        obtain ⟨hevery, hold⟩ := ih hbefore hm
        refine ⟨hevery.step hprog (fun _ _ _ r hall => hall.2 r) hnow.1 hm', fun p d hd => ?_⟩
        rw [histories_concat hm hm'] at hd
        obtain ⟨q, call, rfl, hq, _⟩ | ⟨q, i, call, op, k, rfl, hat, _⟩ |
          ⟨q, x, call, op, k, rfl, hat, _⟩ | ⟨q, call, op, k, rfl, hat, _⟩ | ⟨a, rfl, _⟩ :=
          Config.step_cases hm'
        · exact hold p d hd
        · rw [Config.record_step hat] at hd
          obtain ⟨_, rfl⟩ | hd := Histories.mem_add.mp hd
          · exact (hevery q _ hat).1
          · exact hold p d hd
        · rw [Config.record_fault hat] at hd
          obtain ⟨_, rfl⟩ | hd := Histories.mem_add.mp hd
          · exact (hevery q _ hat).1
          · exact hold p d hd
        · exact hold p d hd
        · exact hold p d hd
  exact hall.2 p d hd

/-- **The exceptions that a run records** are those of its statements and of its faults. -/
theorem exceptions_of_run {χ : Op → Exn → Prop}
    (hperform : ∀ p call op i s e, (M.perform p call op i s).2 = .error e → χ op e)
    {s : M.State} {c : Config M} {es : List (Event M)}
    (hχ : Runs.Always Config.step (Config.AtException χ) ({ shared := s } : Config M) es)
    (hrun : Runs.runFrom Config.step ({ shared := s } : Config M) es = some c) {p : ℕ} {op : Op}
    {x : Exn} (hx : (⟨op, .error x⟩ : Done Op Ret Exn) ∈ histories M s es p) : χ op x := by
  induction es using List.reverseRecOn generalizing c with
  | nil => cases hx
  | append_singleton es e ih =>
      obtain ⟨m, hm, hlast⟩ := Runs.runFrom_append.mp hrun
      obtain ⟨m', hm', heq⟩ := Runs.runFrom_cons.mp hlast
      obtain ⟨hbefore, hnow⟩ := Runs.always_append hm hχ
      have hold := ih hbefore hm
      rw [histories_concat hm hm'] at hx
      obtain ⟨q, call, rfl, hq, _⟩ | ⟨q, i, call, op', k, rfl, hat, _⟩ |
        ⟨q, y, call, op', k, rfl, hat, _⟩ | ⟨q, call, op', k, rfl, hat, _⟩ | ⟨a, rfl, _⟩ :=
        Config.step_cases hm'
      · exact hold hx
      · rw [Config.record_step hat] at hx
        obtain ⟨_, heq⟩ | hx := Histories.mem_add.mp hx
        · obtain ⟨rfl, heq⟩ := Sigma.mk.inj heq
          exact hperform q call op i m.shared x (eq_of_heq heq).symm
        · exact hold hx
      · rw [Config.record_fault hat] at hx
        obtain ⟨_, heq⟩ | hx := Histories.mem_add.mp hx
        · obtain ⟨rfl, heq⟩ := Sigma.mk.inj heq
          cases eq_of_heq heq
          exact hnow.1 call op k hat
        · exact hold hx
      · exact hold hx
      · exact hold hx

/-- **The answers that a run records** are those of its statements. -/
theorem answers_of_run {χ : (op : Op) → Ret op → Prop}
    (hperform : ∀ p call op i s a, φ op i s → (M.perform p call op i s).2 = .ok a → χ op a)
    {s : M.State} {c : Config M} {es : List (Event M)}
    (hφ : Runs.Always Config.step (Config.AtStep φ) ({ shared := s } : Config M) es)
    (hrun : Runs.runFrom Config.step ({ shared := s } : Config M) es = some c) {p : ℕ} {op : Op}
    {a : Ret op} (ha : (histories M s es p).Answered op a) : χ op a := by
  induction es using List.reverseRecOn generalizing c with
  | nil => cases ha
  | append_singleton es e ih =>
      obtain ⟨m, hm, hlast⟩ := Runs.runFrom_append.mp hrun
      obtain ⟨m', hm', heq⟩ := Runs.runFrom_cons.mp hlast
      obtain ⟨hbefore, hnow⟩ := Runs.always_append hm hφ
      have hold := ih hbefore hm
      rw [histories_concat hm hm'] at ha
      obtain ⟨q, call, rfl, hq, _⟩ | ⟨q, i, call, op', k, rfl, hat, _⟩ |
        ⟨q, y, call, op', k, rfl, hat, _⟩ | ⟨q, call, op', k, rfl, hat, _⟩ | ⟨b, rfl, _⟩ :=
        Config.step_cases hm'
      · exact hold ha
      · rw [Config.record_step hat] at ha
        obtain ⟨_, heq⟩ | ha := Histories.mem_add.mp ha
        · obtain ⟨rfl, heq⟩ := Sigma.mk.inj heq
          exact hperform q call op i m.shared a (hnow.1 call op k hat) (eq_of_heq heq).symm
        · exact hold ha
      · rw [Config.record_fault hat] at ha
        exact hold (Histories.answered_of_fault ha)
      · exact hold ha
      · exact hold ha

/-- **A relation that every event keeps holds between any two states of a run.** -/
theorem related_of_run {R : M.State → M.State → Prop} (hrefl : ∀ s, R s s)
    (htrans : ∀ s₁ s₂ s₃, R s₁ s₂ → R s₂ s₃ → R s₁ s₃)
    (hperform : ∀ p i call op s h, K s h → D (h p) op → φ op i s →
      R s (M.perform p call op i s).1)
    (hhalt : ∀ p s, R s (M.halt p s)) (hambient : ∀ a s, R s (M.ambient a s))
    (hprog : ∀ call, (M.program call).Justified D [] fun _ _ => True) {s : M.State} {c m : Config M}
    {es fs : List (Event M)}
    (hK : ∀ fs m, fs <+: es → Runs.runFrom Config.step ({ shared := s } : Config M) fs = some m →
      K m.shared (histories M s fs))
    (hφ : Runs.Always Config.step (Config.AtStep φ) ({ shared := s } : Config M) es)
    (hrun : Runs.runFrom Config.step ({ shared := s } : Config M) es = some c) (hfs : fs <+: es)
    (hm : Runs.runFrom Config.step ({ shared := s } : Config M) fs = some m) :
    R m.shared c.shared := by
  induction es using List.reverseRecOn generalizing c with
  | nil =>
      rw [List.prefix_nil.mp hfs, hrun] at hm
      cases hm
      exact hrefl _
  | append_singleton es e ih =>
      obtain rfl | hfs := List.prefix_concat_iff.mp hfs
      · rw [hrun] at hm
        cases hm
        exact hrefl _
      obtain ⟨m', hm', hlast⟩ := Runs.runFrom_append.mp hrun
      obtain ⟨c', hc', heq⟩ := Runs.runFrom_cons.mp hlast
      simp only [Runs.runFrom_nil, Option.some.injEq] at heq
      subst heq
      obtain ⟨hbefore, hnow⟩ := Runs.always_append hm' hφ
      refine htrans _ _ _
        (ih (fun fs m hfs => hK fs m (hfs.trans (List.prefix_append _ _))) hbefore hm' hfs) ?_
      have hmK := hK es m' (List.prefix_append _ _) hm'
      have hmD := disciplined_of_run hprog hm'
      obtain ⟨p, call, rfl, hp, rfl⟩ | ⟨p, i, call, op, k, rfl, hat, rfl⟩ |
        ⟨p, x, call, op, k, rfl, hat, rfl⟩ | ⟨p, call, op, k, rfl, hat, rfl⟩ | ⟨a, rfl, rfl⟩ :=
        Config.step_cases hc'
      · exact hrefl _
      · exact hperform p i call op m'.shared _ hmK (hmD.justified hat).1 (hnow.1 call op k hat)
      · exact hrefl _
      · exact hhalt p m'.shared
      · exact hambient a m'.shared

end Runs

end PosttrainPlatform.Programs
