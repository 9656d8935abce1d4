import PosttrainPlatform.System

/-!
# Calls that run alone

A supply gives every statement its input in every state.  Under a supply a call that runs alone has one
outcome, and whether it returns is decided statement by statement.
-/

namespace PosttrainPlatform

open Programs Service

/-- What each statement is given in each state, when a program runs alone. -/
abbrev Supply := Op → World → Input

/-- The meaning of the statements for a program that runs alone, as thread `p`, under a supply. -/
abbrev Op.supplied (env : Env) (p : ℕ) (supply : Supply) :
    Prog.Meaning Op Op.Ret Exn World Unit :=
  fun op _ s => op.perform env p (supply op s) s

/-- The outcome of a program that runs alone as thread `p` under a supply. -/
abbrev evalAlone {α : Type} (env : Env) (p : ℕ) (supply : Supply) (prog : Service α) (s : World) :
    Except Exn α × World :=
  Prog.eval (Op.supplied env p supply) () prog s

/-- The program, run alone as thread `p` under a supply, returns. -/
abbrev ReturnsAlone {α : Type} (env : Env) (p : ℕ) (supply : Supply) (prog : Service α)
    (s : World) : Prop :=
  Prog.Returns (Op.supplied env p supply) () prog s

/-- A program that runs alone ends with its outcome. -/
theorem ends_evalAlone {α : Type} (env : Env) (p : ℕ) (supply : Supply) (prog : Service α)
    (s : World) : Prog.Ends (Op.supplied env p supply) (fun _ => True) prog s
      (evalAlone env p supply prog s).1 (evalAlone env p supply prog s).2 :=
  Prog.ends_eval trivial prog s

section Rules

variable {env : Env} {p : ℕ} {supply : Supply} {α β : Type} {s : World}

theorem returns_service_bind {prog : Service β} {f : β → Service α} :
    ReturnsAlone env p supply (prog >>= f) s ↔ ∃ b s', evalAlone env p supply prog s = (.ok b, s') ∧
      ReturnsAlone env p supply (f b) s' := Prog.returns_bind

theorem returns_exec_bind {op : Op} {f : op.Ret → Service α} :
    ReturnsAlone env p supply (exec op >>= f) s ↔
      ∃ a, (op.perform env p (supply op s) s).2 = .ok a ∧
        ReturnsAlone env p supply (f a) (op.perform env p (supply op s) s).1 :=
  Prog.returns_perform_bind

/-- A statement whose effect and answer are known. -/
theorem evalAlone_perform {op : Op} {a : op.Ret} {s' : World} {f : op.Ret → Service α}
    (h : op.perform env p (supply op s) s = (s', .ok a)) :
    evalAlone env p supply (exec op >>= f) s = evalAlone env p supply (f a) s' := by
  refine Prog.eval_bind_ok ?_
  show (Prog.eval (Op.supplied env p supply) () (Prog.ofExcept (op.perform env p (supply op s) s).2)
    (op.perform env p (supply op s) s).1) = (.ok a, s')
  rw [h]
  rfl

/-- A statement that reads. -/
theorem evalAlone_read {op : Op} {a : op.Ret} {f : op.Ret → Service α}
    (h : op.perform env p (supply op s) s = (s, .ok a)) :
    evalAlone env p supply (exec op >>= f) s = evalAlone env p supply (f a) s := evalAlone_perform h

/-- A statement answers, and the call goes on, or it raises, and the call ends. -/
theorem evalAlone_cases (op : Op) (f : op.Ret → Service α) (s : World) :
    (∃ a s', op.perform env p (supply op s) s = (s', .ok a) ∧
        evalAlone env p supply (exec op >>= f) s = evalAlone env p supply (f a) s') ∨
      ∃ e s', op.perform env p (supply op s) s = (s', .error e) ∧
        evalAlone env p supply (exec op >>= f) s = (.error e, s') := by
  obtain ⟨s', r, h⟩ : ∃ s' r, op.perform env p (supply op s) s = (s', r) := ⟨_, _, rfl⟩
  rw [h]
  cases r with
  | ok a => exact Or.inl ⟨a, s', rfl, evalAlone_perform h⟩
  | error e =>
      refine Or.inr ⟨e, s', rfl, Prog.eval_bind_error ?_⟩
      show (Prog.eval (Op.supplied env p supply) ()
        (Prog.ofExcept (op.perform env p (supply op s) s).2) (op.perform env p (supply op s) s).1) =
          (.error e, s')
      rw [h]
      rfl

/-- The state that a call leaves whose last statement this is. -/
theorem evalAlone_last (op : Op) {f : op.Ret → Service α}
    (hf : ∀ a s, (evalAlone env p supply (f a) s).2 = s) (s : World) :
    (evalAlone env p supply (exec op >>= f) s).2 = (op.perform env p (supply op s) s).1 := by
  obtain ⟨a, s', hperform, heval⟩ | ⟨e, s', hperform, heval⟩ := evalAlone_cases op f s
  · rw [heval, hperform, hf]
  · rw [heval, hperform]

/-- One statement whose answer is known. -/
theorem returns_answer_bind {op : Op} {a : op.Ret} {f : op.Ret → Service α}
    (ha : (op.perform env p (supply op s) s).2 = .ok a) :
    ReturnsAlone env p supply (exec op >>= f) s ↔
      ReturnsAlone env p supply (f a) (op.perform env p (supply op s) s).1 := by
  rw [returns_exec_bind]
  constructor
  · rintro ⟨b, hb, h⟩
    cases ha.symm.trans hb
    exact h
  · exact fun h => ⟨a, ha, h⟩

theorem returns_pure {a : α} : ReturnsAlone env p supply (pure a) s := Prog.returns_ret

theorem returns_found_bind {e : Exn} {v : Option β} {f : β → Service α} :
    ReturnsAlone env p supply (found e v >>= f) s ↔
      ∃ b, v = some b ∧ ReturnsAlone env p supply (f b) s := by
  cases v with
  | none =>
      refine iff_of_false Prog.not_returns_raise ?_
      rintro ⟨b, h, _⟩
      cases h
  | some b =>
      constructor
      · exact fun h => ⟨b, rfl, h⟩
      · rintro ⟨b', h, hf⟩
        cases h
        exact hf

theorem returns_check_bind {e : Exn} {b : Bool} {f : Unit → Service α} :
    ReturnsAlone env p supply (check e b >>= f) s ↔
      b = true ∧ ReturnsAlone env p supply (f ()) s := by
  cases b with
  | false => exact iff_of_false Prog.not_returns_raise (by simp)
  | true =>
      show ReturnsAlone env p supply (f ()) s ↔ _
      simp

/-- A statement that writes, if its values can be bound. -/
theorem tryWrite_ok_iff {γ : Type} {r : Option (Db × γ)} :
    (∃ a, (s.tryWrite r).2 = .ok a) ↔ r.isSome = true := by
  cases r with
  | none =>
      refine iff_of_false ?_ (by simp)
      rintro ⟨a, h⟩
      cases h
  | some r => exact iff_of_true ⟨r.2, rfl⟩ rfl

/-- One last statement that writes. -/
theorem returns_write {op : Op} {f : op.Ret → α} {r : Option (Db × op.Ret)}
    (hop : (op.perform env p (supply op s) s).2 = (s.tryWrite r).2) :
    ReturnsAlone env p supply (exec op >>= fun a => pure (f a)) s ↔ r.isSome = true := by
  rw [returns_exec_bind, ← tryWrite_ok_iff (s := s), hop]
  exact exists_congr fun a => and_iff_left returns_pure

/-- The job of an attempt is loaded if it exists. -/
theorem returns_refresh_bind {j : JobId} {loaded : Option Job} {f : Job → Service α}
    (hj : (s.db.jobs.lookup j).isSome = true)
    (hf : ∀ job, ReturnsAlone env p supply (f job) s) :
    ReturnsAlone env p supply (refresh j loaded >>= f) s := by
  cases loaded with
  | some job => exact hf job
  | none =>
      obtain ⟨job, hjob⟩ := Option.isSome_iff_exists.mp hj
      have hrefresh : refresh j none >>= f =
          exec (.loadJob j) >>= fun row => found .databaseError row >>= f := Prog.bind_assoc _ _ _
      rw [hrefresh]
      exact returns_exec_bind.mpr ⟨_, rfl, returns_found_bind.mpr ⟨job, hjob, hf job⟩⟩

end Rules

end PosttrainPlatform
