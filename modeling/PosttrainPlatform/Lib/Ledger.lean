import PosttrainPlatform.Lib.History

/-!
# The ledger of a run

A history tells what one thread has done; the ledger tells it for all of them in the order of the
run, the last statement first.  `Ledger.history` reads the history of a thread off the ledger,
`moment_of_entry` leads from an entry back to the configuration in which it was made, and
`LedgerInvariant` carries a relation between the shared state and the ledger along a run.
-/

namespace PosttrainPlatform.Programs

variable {Op : Type} {Ret : Op → Type} {Exn Reply : Type} {M : Machine Op Ret Exn Reply}

/-- A statement that a run has executed.  One that failed at an event of its own has no input. -/
structure Entry (M : Machine Op Ret Exn Reply) where
  thread : ℕ
  input : Option M.Input
  done : Done Op Ret Exn

/-- The statements of a run, the last one first. -/
abbrev Ledger (M : Machine Op Ret Exn Reply) := List (Entry M)

/-- What a thread has done, according to the ledger. -/
def Ledger.history (L : Ledger M) (p : ℕ) : History Op Ret Exn :=
  (L.filter fun e => e.thread = p).map Entry.done

/-- The entry that an event makes, if it makes one. -/
def Config.entry (c : Config M) : Event M → Option (Entry M)
  | .step p i =>
      match c.threads p with
      | some { call, prog := .call op _, alive := true } =>
          some ⟨p, some i, ⟨op, (M.perform p call op i c.shared).2⟩⟩
      | _ => none
  | .fault p e =>
      match c.threads p with
      | some { call := _, prog := .call op _, alive := true } => some ⟨p, none, ⟨op, .error e⟩⟩
      | _ => none
  | _ => none

theorem Config.entry_step {c : Config M} {p : ℕ} {i : M.Input} {call : M.Call} {op : Op}
    {k : Except Exn (Ret op) → Prog Op Ret Exn Reply} (hat : c.AtOp p call op k) :
    c.entry (.step p i) = some ⟨p, some i, ⟨op, (M.perform p call op i c.shared).2⟩⟩ := by
  have hthread : c.threads p = some { call, prog := .call op k } := hat
  simp only [Config.entry, hthread]

theorem Config.entry_fault {c : Config M} {p : ℕ} {e : Exn} {call : M.Call} {op : Op}
    {k : Except Exn (Ret op) → Prog Op Ret Exn Reply} (hat : c.AtOp p call op k) :
    c.entry (.fault p e) = some ⟨p, none, ⟨op, .error e⟩⟩ := by
  have hthread : c.threads p = some { call, prog := .call op k } := hat
  simp only [Config.entry, hthread]

/-- An entry with an answer is made by a step. -/
theorem Config.entry_eq_some_ok {c c' : Config M} {ev : Event M} (hstep : c.step ev = some c')
    {p : ℕ} {i : Option M.Input} {op : Op} {a : Ret op}
    (h : c.entry ev = some ⟨p, i, ⟨op, .ok a⟩⟩) :
    ∃ i' call k, ev = .step p i' ∧ i = some i' ∧ c.AtOp p call op k ∧
      (M.perform p call op i' c.shared).2 = .ok a ∧
      c'.shared = (M.perform p call op i' c.shared).1 := by
  obtain ⟨q, call, rfl, hq, rfl⟩ | ⟨q, i', call, op', k, rfl, hat, rfl⟩ |
    ⟨q, x, call, op', k, rfl, hat, rfl⟩ | ⟨q, call, op', k, rfl, hat, rfl⟩ | ⟨b, rfl, rfl⟩ :=
    Config.step_cases hstep
  · cases h
  · rw [Config.entry_step hat, Option.some.injEq] at h
    obtain ⟨rfl, rfl, hdone⟩ := Entry.mk.inj h
    obtain ⟨rfl, hr⟩ := Sigma.mk.inj hdone
    exact ⟨i', call, k, rfl, rfl, hat, eq_of_heq hr, rfl⟩
  · rw [Config.entry_fault hat, Option.some.injEq] at h
    obtain ⟨_, _, hdone⟩ := Entry.mk.inj h
    obtain ⟨rfl, hr⟩ := Sigma.mk.inj hdone
    cases eq_of_heq hr
  · cases h
  · cases h

/-- The ledger after a run. -/
def Config.ledgerFrom : Config M → Ledger M → List (Event M) → Ledger M
  | _, L, [] => L
  | c, L, e :: es =>
      match c.step e with
      | some c' => ledgerFrom c' ((c.entry e).toList ++ L) es
      | none => L

/-- The ledger of a run from the state `s`, where no call has begun. -/
def ledger (M : Machine Op Ret Exn Reply) (s : M.State) (es : List (Event M)) : Ledger M :=
  ({ shared := s } : Config M).ledgerFrom [] es

theorem Config.ledgerFrom_cons {c c' : Config M} {L : Ledger M} {e : Event M} {es : List (Event M)}
    (hstep : c.step e = some c') :
    c.ledgerFrom L (e :: es) = c'.ledgerFrom ((c.entry e).toList ++ L) es := by
  rw [ledgerFrom, hstep]

theorem Config.ledgerFrom_append {c c' : Config M} {L : Ledger M} {es fs : List (Event M)}
    (hrun : Runs.runFrom Config.step c es = some c') :
    c.ledgerFrom L (es ++ fs) = c'.ledgerFrom (c.ledgerFrom L es) fs := by
  induction es generalizing c L with
  | nil =>
      simp only [Runs.runFrom_nil, Option.some.injEq] at hrun
      subst hrun
      rfl
  | cons e es ih =>
      obtain ⟨m, hm, hrest⟩ := Runs.runFrom_cons.mp hrun
      rw [List.cons_append, ledgerFrom_cons hm, ledgerFrom_cons hm, ih hrest]

/-- A run that goes on, by one event. -/
theorem ledger_concat {s : M.State} {es : List (Event M)} {c c' : Config M} {e : Event M}
    (hrun : Runs.runFrom Config.step ({ shared := s } : Config M) es = some c)
    (hstep : c.step e = some c') :
    ledger M s (es ++ [e]) = (c.entry e).toList ++ ledger M s es := by
  unfold ledger
  rw [Config.ledgerFrom_append hrun, Config.ledgerFrom_cons hstep]
  rfl

/-- A run without its last event. -/
theorem run_concat {s : M.State} {es : List (Event M)} {c : Config M} {e : Event M}
    (hrun : Runs.runFrom Config.step ({ shared := s } : Config M) (es ++ [e]) = some c) :
    ∃ m, Runs.runFrom Config.step ({ shared := s } : Config M) es = some m ∧
      m.step e = some c := by
  obtain ⟨m, hm, hlast⟩ := Runs.runFrom_append.mp hrun
  obtain ⟨m', hm', heq⟩ := Runs.runFrom_cons.mp hlast
  simp only [Runs.runFrom_nil, Option.some.injEq] at heq
  subst heq
  exact ⟨m, hm, hm'⟩

/-- **The histories are the ledger, sorted by threads.** -/
theorem history_ledger {s : M.State} {es : List (Event M)} {c : Config M}
    (hrun : Runs.runFrom Config.step ({ shared := s } : Config M) es = some c) (p : ℕ) :
    (ledger M s es).history p = histories M s es p := by
  induction es using List.reverseRecOn generalizing c with
  | nil => rfl
  | append_singleton es e ih =>
      obtain ⟨m, hm, hstep⟩ := run_concat hrun
      rw [ledger_concat hm hstep, histories_concat hm hstep]
      have hone : ∀ q i d, (([⟨q, i, d⟩] ++ ledger M s es : Ledger M)).history p =
          (histories M s es).add q d p := by
        intro q i d
        unfold Ledger.history Histories.add
        by_cases hq : p = q
        · subst hq
          simp [← ih hm, Ledger.history]
        · have hne : ¬ q = p := fun h => hq h.symm
          simp [Function.update_of_ne hq, hne, ← ih hm, Ledger.history]
      obtain ⟨q, call, rfl, hq, rfl⟩ | ⟨q, i, call, op, k, rfl, hat, rfl⟩ |
        ⟨q, x, call, op, k, rfl, hat, rfl⟩ | ⟨q, call, op, k, rfl, hat, rfl⟩ | ⟨a, rfl, rfl⟩ :=
        Config.step_cases hstep
      · exact ih hm
      · rw [Config.entry_step hat, Config.record_step hat]
        exact hone q _ _
      · rw [Config.entry_fault hat, Config.record_fault hat]
        exact hone q _ _
      · exact ih hm
      · exact ih hm

/-- What a thread has answered is in the ledger. -/
theorem Ledger.mem_history {L : Ledger M} {p : ℕ} {d : Done Op Ret Exn} :
    d ∈ L.history p ↔ ∃ i, (⟨p, i, d⟩ : Entry M) ∈ L := by
  unfold Ledger.history
  constructor
  · intro h
    obtain ⟨e, he, rfl⟩ := List.mem_map.mp h
    obtain ⟨hL, hp⟩ := List.mem_filter.mp he
    have hthread : e.thread = p := of_decide_eq_true hp
    subst hthread
    exact ⟨e.input, hL⟩
  · intro h
    obtain ⟨i, h⟩ := h
    exact List.mem_map.mpr ⟨_, List.mem_filter.mpr ⟨h, decide_eq_true rfl⟩, rfl⟩

/-- **A place in the history of a thread is a place in the ledger.** -/
theorem Ledger.split_history {L : Ledger M} {p : ℕ} {newer older : History Op Ret Exn}
    {d : Done Op Ret Exn} (h : L.history p = newer ++ d :: older) :
    ∃ (new old : Ledger M) (i : Option M.Input), L = new ++ ⟨p, i, d⟩ :: old ∧
      Ledger.history new p = newer ∧ Ledger.history old p = older := by
  induction L generalizing newer with
  | nil => simp [Ledger.history] at h
  | cons e L ih =>
      obtain ⟨q, i, x⟩ := e
      by_cases hq : q = p
      · subst hq
        have hcons : Ledger.history (⟨q, i, x⟩ :: L) q = x :: Ledger.history L q := by
          simp [Ledger.history]
        rw [hcons] at h
        cases newer with
        | nil =>
            obtain ⟨rfl, hold⟩ := List.cons.inj h
            exact ⟨[], L, i, rfl, rfl, hold⟩
        | cons y newer =>
            obtain ⟨rfl, hrest⟩ := List.cons.inj h
            obtain ⟨new, old, i', rfl, hnew, hold⟩ := ih hrest
            refine ⟨⟨q, i, x⟩ :: new, old, i', rfl, ?_, hold⟩
            simp [Ledger.history, ← hnew]
      · have hskip : ∀ L' : Ledger M, Ledger.history (⟨q, i, x⟩ :: L') p = L'.history p := by
          intro L'
          simp [Ledger.history, hq]
        rw [hskip] at h
        obtain ⟨new, old, i', rfl, hnew, hold⟩ := ih h
        exact ⟨⟨q, i, x⟩ :: new, old, i', rfl, (hskip new).trans hnew, hold⟩

/-- **The moment at which an entry was made**: what is older is the ledger of the run up to there. -/
theorem moment_of_entry {s : M.State} {es : List (Event M)} {c : Config M}
    (hrun : Runs.runFrom Config.step ({ shared := s } : Config M) es = some c) {newer older : Ledger M}
    {e : Entry M} (h : ledger M s es = newer ++ e :: older) :
    ∃ fs ev gs m m', es = fs ++ ev :: gs ∧
      Runs.runFrom Config.step ({ shared := s } : Config M) fs = some m ∧ m.step ev = some m' ∧
      m.entry ev = some e ∧ ledger M s fs = older := by
  induction es using List.reverseRecOn generalizing c newer with
  | nil => simp [ledger, Config.ledgerFrom] at h
  | append_singleton es ev ih =>
      obtain ⟨m, hm, hstep⟩ := run_concat hrun
      rw [ledger_concat hm hstep] at h
      have hearlier : ∀ newer', ledger M s es = newer' ++ e :: older →
          ∃ fs ev' gs m m', es ++ [ev] = fs ++ ev' :: gs ∧
            Runs.runFrom Config.step ({ shared := s } : Config M) fs = some m ∧
            m.step ev' = some m' ∧ m.entry ev' = some e ∧ ledger M s fs = older := by
        intro newer' h'
        obtain ⟨fs, ev', gs, k, k', rfl, hk⟩ := ih hm h'
        exact ⟨fs, ev', gs ++ [ev], k, k', by simp, hk⟩
      cases hentry : m.entry ev with
      | none =>
          rw [hentry] at h
          exact hearlier newer h
      | some e' =>
          rw [hentry] at h
          cases newer with
          | nil =>
              obtain ⟨rfl, hold⟩ := List.cons.inj h
              exact ⟨es, ev, [], m, c, rfl, hm, hstep, hentry, hold⟩
          | cons e'' newer => exact hearlier newer (List.cons.inj h).2

/-- **The step that gave an answer of the ledger**, and the run from there. -/
theorem answer_of_entry {s : M.State} {es : List (Event M)} {c : Config M}
    (hrun : Runs.runFrom Config.step ({ shared := s } : Config M) es = some c) {newer older : Ledger M}
    {p : ℕ} {i : Option M.Input} {op : Op} {a : Ret op}
    (h : ledger M s es = newer ++ ⟨p, i, ⟨op, .ok a⟩⟩ :: older) :
    ∃ fs i' gs m m' call k, es = fs ++ .step p i' :: gs ∧
      Runs.runFrom Config.step ({ shared := s } : Config M) fs = some m ∧ m.AtOp p call op k ∧
      M.perform p call op i' m.shared = (m'.shared, .ok a) ∧ ledger M s fs = older ∧
      Runs.runFrom Config.step m' gs = some c := by
  obtain ⟨fs, ev, gs, m, m', rfl, hm, hstep, hentry, holder⟩ := moment_of_entry hrun h
  obtain ⟨i', call, k, rfl, _, hat, hanswer, hshared⟩ := Config.entry_eq_some_ok hstep hentry
  obtain ⟨m₁, hm₁, hrest⟩ := Runs.runFrom_append.mp hrun
  rw [hm] at hm₁
  cases hm₁
  obtain ⟨m₂, hm₂, hrest⟩ := Runs.runFrom_cons.mp hrest
  rw [hstep] at hm₂
  cases hm₂
  exact ⟨fs, i', gs, m, m', call, k, rfl, hm, hat, by rw [hshared, ← hanswer], holder, hrest⟩

/-- The input of an entry came with a step of its thread. -/
theorem step_of_entry {s : M.State} {es : List (Event M)} {c : Config M}
    (hrun : Runs.runFrom Config.step ({ shared := s } : Config M) es = some c) {e : Entry M}
    (h : e ∈ ledger M s es) {i : M.Input} (hi : e.input = some i) : .step e.thread i ∈ es := by
  obtain ⟨older, newer, h⟩ := List.append_of_mem h
  obtain ⟨fs, ev, gs, m, m', rfl, hm, hstep, hentry, _⟩ := moment_of_entry hrun h
  obtain ⟨q, call, rfl, hq, rfl⟩ | ⟨q, i', call, op, k, rfl, hat, rfl⟩ |
    ⟨q, x, call, op, k, rfl, hat, rfl⟩ | ⟨q, call, op, k, rfl, hat, rfl⟩ | ⟨a, rfl, rfl⟩ :=
    Config.step_cases hstep
  · cases hentry
  · rw [Config.entry_step hat, Option.some.injEq] at hentry
    subst hentry
    cases hi
    simp
  · rw [Config.entry_fault hat, Option.some.injEq] at hentry
    subst hentry
    cases hi
  · cases hentry
  · cases hentry

/-! ### Invariants -/

/-- `J` is an invariant of the shared state and the ledger, in a machine whose threads keep the
discipline `D`. -/
structure LedgerInvariant (D : History Op Ret Exn → Op → Prop) (J : M.State → Ledger M → Prop) :
    Prop where
  perform : ∀ p i call op s L, J s L → D (L.history p) op →
    J (M.perform p call op i s).1 (⟨p, some i, ⟨op, (M.perform p call op i s).2⟩⟩ :: L)
  fault : ∀ p e op s L, J s L → D (L.history p) op → J s (⟨p, none, ⟨op, .error e⟩⟩ :: L)
  halt : ∀ p s L, J s L → J (M.halt p s) L
  ambient : ∀ a s L, J s L → J (M.ambient a s) L

variable {D : History Op Ret Exn → Op → Prop} {J : M.State → Ledger M → Prop}

/-- **An invariant of the ledger holds after every run.** -/
theorem LedgerInvariant.run (hJ : LedgerInvariant D J)
    (hprog : ∀ call, (M.program call).Justified D [] fun _ _ => True) {s : M.State} {c : Config M}
    {es : List (Event M)} (hs : J s [])
    (hrun : Runs.runFrom Config.step ({ shared := s } : Config M) es = some c) :
    J c.shared (ledger M s es) := by
  induction es using List.reverseRecOn generalizing c with
  | nil =>
      simp only [Runs.runFrom_nil, Option.some.injEq] at hrun
      subst hrun
      exact hs
  | append_singleton es e ih =>
      obtain ⟨m, hm, hstep⟩ := run_concat hrun
      have hmJ := ih hm
      have hmD := disciplined_of_run hprog hm
      have hop : ∀ {p call op k}, m.AtOp p call op k → D ((ledger M s es).history p) op := by
        intro p call op k hat
        rw [history_ledger hm p]
        exact (hmD.justified hat).1
      rw [ledger_concat hm hstep]
      obtain ⟨p, call, rfl, hp, rfl⟩ | ⟨p, i, call, op, k, rfl, hat, rfl⟩ |
        ⟨p, x, call, op, k, rfl, hat, rfl⟩ | ⟨p, call, op, k, rfl, hat, rfl⟩ | ⟨a, rfl, rfl⟩ :=
        Config.step_cases hstep
      · exact hmJ
      · rw [Config.entry_step hat]
        exact hJ.perform p i call op m.shared _ hmJ (hop hat)
      · rw [Config.entry_fault hat]
        exact hJ.fault p x op m.shared _ hmJ (hop hat)
      · exact hJ.halt p m.shared _ hmJ
      · exact hJ.ambient a m.shared _ hmJ

end PosttrainPlatform.Programs
