import Mathlib.Data.List.Infix

/-!
# Scripts and their traces

A script performs actions one after the other and ends with a value or an exception.  Whoever watches
it sees a prefix of its trace: it may be stopped after any action.  `Occurs before x trace` locates an
action by what has happened before it, and is read off the parts of a script (`occurs_bind`).
-/

namespace PosttrainPlatform.Traces

variable {A E α β : Type}

/-- What a script does, and how it ends. -/
structure Script (A E α : Type) where
  trace : List A
  result : Except E α

namespace Script

/-- One script after another. -/
def andThen (p : Script A E α) (f : α → Script A E β) : Script A E β :=
  match p.result with
  | .ok a => ⟨p.trace ++ (f a).trace, (f a).result⟩
  | .error e => ⟨p.trace, .error e⟩

instance : Monad (Script A E) where
  pure a := ⟨[], .ok a⟩
  bind := andThen

/-- One action. -/
def act (x : A) : Script A E Unit := ⟨[x], .ok ()⟩

def raise (e : E) : Script A E α := ⟨[], .error e⟩

/-- The value, or the exception where there is none. -/
def found (e : E) : Option α → Script A E α
  | some a => pure a
  | none => raise e

/-- A script, and a handler of all its exceptions. -/
def rescue (p : Script A E α) (handler : E → Script A E α) : Script A E α :=
  match p.result with
  | .ok _ => p
  | .error e => ⟨p.trace ++ (handler e).trace, (handler e).result⟩

section Bind

variable {p : Script A E α} {f : α → Script A E β}

@[simp] theorem trace_pure (a : α) : (pure a : Script A E α).trace = [] := rfl

@[simp] theorem result_pure (a : α) : (pure a : Script A E α).result = .ok a := rfl

@[simp] theorem trace_raise (e : E) : (raise e : Script A E α).trace = [] := rfl

@[simp] theorem result_raise (e : E) : (raise e : Script A E α).result = .error e := rfl

@[simp] theorem trace_act (x : A) : (act x : Script A E Unit).trace = [x] := rfl

@[simp] theorem result_act (x : A) : (act x : Script A E Unit).result = .ok () := rfl

@[simp] theorem trace_found (e : E) (o : Option α) : (found e o : Script A E α).trace = [] := by
  cases o <;> rfl

theorem result_found_eq_ok {e : E} {o : Option α} {a : α} :
    (found e o : Script A E α).result = .ok a ↔ o = some a := by
  cases o <;> simp [found]

theorem bind_of_ok {a : α} (h : p.result = .ok a) :
    p >>= f = ⟨p.trace ++ (f a).trace, (f a).result⟩ := by
  show andThen p f = _
  unfold andThen
  rw [h]

theorem bind_of_error {e : E} (h : p.result = .error e) : p >>= f = ⟨p.trace, .error e⟩ := by
  show andThen p f = _
  unfold andThen
  rw [h]

theorem result_bind_eq_ok {b : β} :
    (p >>= f).result = .ok b ↔ ∃ a, p.result = .ok a ∧ (f a).result = .ok b := by
  cases h : p.result with
  | ok a => simp [bind_of_ok h]
  | error e => simp [bind_of_error h]

/-- The trace of a script is that of its first part, and goes on if that part has a value. -/
theorem trace_bind_cases (p : Script A E α) (f : α → Script A E β) :
    (∃ a, p.result = .ok a ∧ (p >>= f).trace = p.trace ++ (f a).trace) ∨
      (∃ e, p.result = .error e) ∧ (p >>= f).trace = p.trace := by
  cases h : p.result with
  | ok a => exact Or.inl ⟨a, rfl, by rw [bind_of_ok h]⟩
  | error e => exact Or.inr ⟨⟨e, rfl⟩, by rw [bind_of_error h]⟩

/-- The trace of a script that ends well is made of its parts. -/
theorem trace_bind_of_ok {a : α} (h : p.result = .ok a) :
    (p >>= f).trace = p.trace ++ (f a).trace := by
  rw [bind_of_ok h]

/-- What the first part does. -/
theorem mem_trace_bind_left {x : A} (h : x ∈ p.trace) : x ∈ (p >>= f).trace := by
  obtain ⟨a, _, htrace⟩ | ⟨_, htrace⟩ := trace_bind_cases p f
  · rw [htrace]
    exact List.mem_append_left _ h
  · rwa [htrace]

/-- What is done with the value of the first part. -/
theorem mem_trace_bind_right {a : α} {x : A} (ha : p.result = .ok a) (h : x ∈ (f a).trace) :
    x ∈ (p >>= f).trace := by
  rw [trace_bind_of_ok ha]
  exact List.mem_append_right _ h

theorem trace_bind_of_silent (hp : p.trace = []) (hf : ∀ a, (f a).trace = []) :
    (p >>= f).trace = [] := by
  obtain ⟨a, _, htrace⟩ | ⟨_, htrace⟩ := trace_bind_cases p f
  · rw [htrace, hp, hf, List.append_nil]
  · rw [htrace, hp]

end Bind

end Script

/-! ### Where an action happens -/

/-- The action happens in the trace, when `before` has happened. -/
def Occurs (before : List A) (x : A) (trace : List A) : Prop := before ++ [x] <+: trace

section Occurs

variable {before acts l₁ l₂ : List A} {x y : A}

theorem Occurs.mono (h : Occurs before x acts) {trace : List A} (hp : acts <+: trace) :
    Occurs before x trace := h.trans hp

theorem Occurs.mem (h : Occurs before x acts) : x ∈ acts :=
  h.subset (List.mem_append_right _ (List.mem_singleton_self x))

theorem Occurs.before_mem (h : Occurs before x acts) (hy : y ∈ before) : y ∈ acts :=
  h.subset (List.mem_append_left _ hy)

theorem exists_occurs (h : x ∈ acts) : ∃ before, Occurs before x acts := by
  obtain ⟨s, t, rfl⟩ := List.append_of_mem h
  exact ⟨s, ⟨t, by simp⟩⟩

@[simp] theorem not_occurs_nil : ¬ Occurs before x [] := by
  intro h
  simpa using h.length_le

theorem occurs_cons : Occurs before x (y :: acts) ↔
    (before = [] ∧ x = y) ∨ ∃ rest, before = y :: rest ∧ Occurs rest x acts := by
  cases before with
  | nil => simp [Occurs, List.cons_prefix_cons]
  | cons z before =>
      simp only [Occurs, List.cons_append, List.cons_prefix_cons, reduceCtorEq, false_and,
        false_or, List.cons.injEq]
      constructor
      · rintro ⟨rfl, h⟩
        exact ⟨before, ⟨rfl, rfl⟩, h⟩
      · rintro ⟨rest, ⟨rfl, rfl⟩, h⟩
        exact ⟨rfl, h⟩

theorem occurs_singleton : Occurs before x [y] ↔ before = [] ∧ x = y := by
  rw [occurs_cons]
  constructor
  · rintro (h | ⟨rest, _, h⟩)
    · exact h
    · exact absurd h not_occurs_nil
  · exact Or.inl

/-- **An action of two traces in a row happens in the first, or after it.** -/
theorem occurs_append : Occurs before x (l₁ ++ l₂) ↔
    Occurs before x l₁ ∨ ∃ rest, before = l₁ ++ rest ∧ Occurs rest x l₂ := by
  constructor
  · intro h
    obtain hshort | hlong := Nat.lt_or_ge before.length l₁.length
    · left
      have hp : before ++ [x] <+: l₁ ++ l₂ := h
      exact List.prefix_of_prefix_length_le hp (List.prefix_append _ _)
        (by rw [List.length_append]; exact hshort)
    · right
      have hp : l₁ <+: before := List.prefix_of_prefix_length_le (List.prefix_append l₁ l₂)
        ((List.prefix_append before [x]).trans h) hlong
      obtain ⟨rest, rfl⟩ := hp
      refine ⟨rest, rfl, ?_⟩
      rwa [Occurs, List.append_assoc, List.prefix_append_right_inj] at h
  · rintro (h | ⟨rest, rfl, h⟩)
    · exact h.mono (List.prefix_append _ _)
    · rw [Occurs, List.append_assoc, List.prefix_append_right_inj]
      exact h

/-- **An action of a script happens in its first part, or in what follows the value of that part.** -/
theorem occurs_bind {p : Script A E α} {f : α → Script A E β}
    (h : Occurs before x (p >>= f).trace) : Occurs before x p.trace ∨
      ∃ a rest, p.result = .ok a ∧ before = p.trace ++ rest ∧ Occurs rest x (f a).trace := by
  obtain ⟨a, ha, htrace⟩ | ⟨_, htrace⟩ := Script.trace_bind_cases p f
  · rw [htrace] at h
    obtain h | ⟨rest, hbefore, h⟩ := occurs_append.mp h
    · exact Or.inl h
    · exact Or.inr ⟨a, rest, ha, hbefore, h⟩
  · rw [htrace] at h
    exact Or.inl h

/-- After a part that does nothing, an action happens in what follows. -/
theorem occurs_bind_of_silent {p : Script A E α} {f : α → Script A E β} (hp : p.trace = [])
    (h : Occurs before x (p >>= f).trace) :
    ∃ a, p.result = .ok a ∧ Occurs before x (f a).trace := by
  obtain hfirst | ⟨a, rest, ha, hbefore, hrest⟩ := occurs_bind h
  · rw [hp] at hfirst
    exact absurd hfirst not_occurs_nil
  · rw [hbefore, hp]
    exact ⟨a, ha, hrest⟩

/-- An action of a script with a handler is one of the script, or one of the handler. -/
theorem occurs_rescue {p : Script A E α} {handler : E → Script A E α}
    (h : Occurs before x (p.rescue handler).trace) : Occurs before x p.trace ∨
      ∃ e rest, p.result = .error e ∧ before = p.trace ++ rest ∧
        Occurs rest x (handler e).trace := by
  unfold Script.rescue at h
  split at h
  · exact Or.inl h
  · rename_i e he
    obtain h | ⟨rest, hbefore, h⟩ := occurs_append.mp h
    · exact Or.inl h
    · exact Or.inr ⟨e, rest, he, hbefore, h⟩

end Occurs

end PosttrainPlatform.Traces
