import Mathlib.Logic.Function.Basic
import Mathlib.Data.Nat.Notation
import Mathlib.Data.List.Basic

/-!
# An outbox, a relay and a topic

Producers append rows to an outbox; relays list the unpublished rows, send each of them to a log and
mark it; consumers take messages of the log and commit offsets.  Any number of them work at once, and
a relay can stop between a send and its mark.  `Ledger W` is the invariant that keeps every item that
waits (meets `W`) dispatched: in an unpublished row, or in a message that is still to be read.
-/

namespace PosttrainPlatform

namespace Outbox

variable {α : Type}

/-- The rows with their published marks, the log, and the committed offset. -/
structure Mail (α : Type) where
  rows : List (α × Bool)
  log : List α
  committed : ℕ

namespace Mail

variable (m : Mail α)

def enqueue (a : α) : Mail α := { m with rows := m.rows ++ [(a, false)] }

def mark (r : ℕ) : Mail α := { m with rows := m.rows.modify r fun x => (x.1, true) }

def send (a : α) : Mail α := { m with log := m.log ++ [a] }

def commit (o : ℕ) : Mail α := { m with committed := max m.committed o }

/-- A dispatch of the item is on its way. -/
def Outstanding (a : α) : Prop := (a, false) ∈ m.rows ∨ a ∈ m.log.drop m.committed

/-- Row `r` is the newest row of the item. -/
def Newest (r : ℕ) (a : α) : Prop :=
  ∀ r' x, r < r' → m.rows[r']? = some x → x.1 ≠ a

end Mail

/-- Where a relay or a consumer stands. -/
inductive Stage (α : Type)
  | idle
  /-- A relay that has these rows to publish. -/
  | listed (rows : List (ℕ × α))
  /-- A relay that has sent the item of row `r` and has to mark it. -/
  | sent (r : ℕ) (a : α) (rest : List (ℕ × α))
  /-- A consumer that has read the message at offset `o`. -/
  | polled (o : ℕ) (a : α)
  /-- A consumer that has acted on it, and has to commit it. -/
  | taken (o : ℕ) (a : α)

/-- The rows that a relay works on. -/
def Stage.rows : Stage α → List (ℕ × α)
  | .listed rows => rows
  | .sent r a rest => (r, a) :: rest
  | _ => []

/-- The message that a consumer works on. -/
def Stage.message : Stage α → Option (ℕ × α)
  | .polled o a | .taken o a => some (o, a)
  | _ => none

/-- The messages that a consumer has left behind. -/
def Stage.behind : Stage α → ℕ
  | .polled o _ => o
  | .taken o _ => o + 1
  | _ => 0

/-- Message `n` is the item's, and is neither committed nor left behind. -/
def Mail.Ahead (m : Mail α) (stage : ℕ → Stage α) (a : α) (n : ℕ) : Prop :=
  m.committed ≤ n ∧ m.log[n]? = some a ∧ ∀ p, (stage p).behind ≤ n

/-- A message of the item is still to be read. -/
def Mail.Pending (m : Mail α) (stage : ℕ → Stage α) (a : α) : Prop := ∃ n, m.Ahead stage a n

/-- **The books of the mail.** -/
structure Ledger (W : α → Prop) (m : Mail α) (stage : ℕ → Stage α) : Prop where
  bounded : m.committed ≤ m.log.length
  listed : ∀ p r a, (r, a) ∈ (stage p).rows → ∃ b, m.rows[r]? = some (a, b)
  read : ∀ p o a, (stage p).message = some (o, a) → m.log[o]? = some a
  /-- What waits has its newest row unpublished, or a message. -/
  dispatched : ∀ a, W a → (∃ r, m.rows[r]? = some (a, false) ∧ m.Newest r a) ∨ m.Pending stage a
  /-- Whose newest row is about to be marked, has a message. -/
  relayed : ∀ p r a rest, stage p = .sent r a rest → m.Newest r a → W a → m.Pending stage a

namespace Ledger

variable {W W' : α → Prop} {m : Mail α} {stage : ℕ → Stage α} {a : α} {p : ℕ}

/-- Nobody has begun, and nothing waits. -/
theorem initial (hbounded : m.committed ≤ m.log.length) (hW : ∀ a, ¬ W a) :
    Ledger W m fun _ => .idle where
  bounded := hbounded
  listed _ _ _ hr := absurd hr List.not_mem_nil
  read _ _ _ hm := by cases hm
  dispatched a ha := absurd ha (hW a)
  relayed _ _ _ _ hp _ _ := by cases hp

/-- **Whatever waits is outstanding.** -/
theorem outstanding (h : Ledger W m stage) (ha : W a) : m.Outstanding a := by
  rcases h.dispatched a ha with ⟨r, hr, _⟩ | ⟨n, hn, hlog, _⟩
  · exact Or.inl (List.mem_of_getElem? hr)
  · refine Or.inr (List.mem_of_getElem? (i := n - m.committed) ?_)
    rw [List.getElem?_drop, Nat.add_sub_cancel' hn]
    exact hlog

theorem weaken (h : Ledger W m stage) (hW : ∀ a, W' a → W a) : Ledger W' m stage where
  bounded := h.bounded
  listed := h.listed
  read := h.read
  dispatched a ha := h.dispatched a (hW a ha)
  relayed p r a rest hp hnew ha := h.relayed p r a rest hp hnew (hW a ha)

/-- A consumer of a message is within the log. -/
theorem behind_le (h : Ledger W m stage) (q : ℕ) : (stage q).behind ≤ m.log.length := by
  have hread := h.read q
  cases hq : stage q with
  | polled o a =>
      rw [hq] at hread
      exact Nat.le_of_lt (List.getElem?_eq_some_iff.mp (hread o a rfl)).1
  | taken o a =>
      rw [hq] at hread
      exact (List.getElem?_eq_some_iff.mp (hread o a rfl)).1
  | idle | listed | sent => exact Nat.zero_le _

theorem ahead_update {l : Stage α} {n : ℕ} (hl : l.behind ≤ n) (h : m.Ahead stage a n) :
    m.Ahead (Function.update stage p l) a n := by
  refine ⟨h.1, h.2.1, fun q => ?_⟩
  by_cases hqp : q = p
  · subst hqp
    rw [Function.update_self]
    exact hl
  · rw [Function.update_of_ne hqp]
    exact h.2.2 q

/-- A thread moves to a stage with fewer obligations. -/
theorem update (h : Ledger W m stage) {l : Stage α}
    (hrows : ∀ r a, (r, a) ∈ l.rows → ∃ b, m.rows[r]? = some (a, b))
    (hmessage : ∀ o a, l.message = some (o, a) → m.log[o]? = some a)
    (hbehind : ∀ n a, W a → m.Ahead stage a n → l.behind ≤ n)
    (hsent : ∀ r a rest, l = .sent r a rest → m.Newest r a → W a →
      m.Pending (Function.update stage p l) a) : Ledger W m (Function.update stage p l) := by
  have hpending : ∀ b, W b → m.Pending stage b → m.Pending (Function.update stage p l) b := by
    intro b hb hold
    obtain ⟨n, hn⟩ := hold
    exact ⟨n, ahead_update (hbehind n b hb hn) hn⟩
  refine ⟨h.bounded, fun q r b hq => ?_, fun q o b hq => ?_, fun b hb => ?_,
    fun q r b rest hq hnew hb => ?_⟩
  · by_cases hqp : q = p
    · subst hqp
      rw [Function.update_self] at hq
      exact hrows r b hq
    · rw [Function.update_of_ne hqp] at hq
      exact h.listed q r b hq
  · by_cases hqp : q = p
    · subst hqp
      rw [Function.update_self] at hq
      exact hmessage o b hq
    · rw [Function.update_of_ne hqp] at hq
      exact h.read q o b hq
  · rcases h.dispatched b hb with hrow | hmessage
    · exact Or.inl hrow
    · exact Or.inr (hpending b hb hmessage)
  · by_cases hqp : q = p
    · subst hqp
      rw [Function.update_self] at hq
      exact hsent r b rest hq hnew hb
    · rw [Function.update_of_ne hqp] at hq
      exact hpending b hb (h.relayed q r b rest hq hnew hb)

/-- A thread stops. -/
theorem idle (h : Ledger W m stage) (p : ℕ) : Ledger W m (Function.update stage p .idle) :=
  h.update (fun _ _ hr => absurd hr List.not_mem_nil) (fun _ _ hm => by cases hm)
    (fun n _ _ _ => Nat.zero_le n) (fun _ _ _ hl => by cases hl)

/-- A relay lists rows that are there. -/
theorem list (h : Ledger W m stage) {rows : List (ℕ × α)}
    (hrows : ∀ r a, (r, a) ∈ rows → ∃ b, m.rows[r]? = some (a, b)) :
    Ledger W m (Function.update stage p (.listed rows)) :=
  h.update hrows (fun _ _ hm => by cases hm) (fun n _ _ _ => Nat.zero_le n)
    (fun _ _ _ hl => by cases hl)

/-- A new row, after which only its item can have begun to wait. -/
theorem enqueue (h : Ledger W m stage) (hW : ∀ b, b ≠ a → W' b → W b) :
    Ledger W' (m.enqueue a) stage := by
  have hold : ∀ {r x}, m.rows[r]? = some x → (m.enqueue a).rows[r]? = some x := fun hr => by
    rw [Mail.enqueue, List.getElem?_append_left (List.getElem?_eq_some_iff.mp hr).1]
    exact hr
  have hlast : (m.enqueue a).rows[m.rows.length]? = some (a, false) := by
    rw [Mail.enqueue, List.getElem?_append_right (Nat.le_refl _), Nat.sub_self]
    rfl
  have hnewest : ∀ {r b}, b ≠ a → m.Newest r b → (m.enqueue a).Newest r b := by
    intro r b hb hnew r' x hr' hx
    rw [Mail.enqueue, List.getElem?_append] at hx
    split at hx
    · exact hnew r' x hr' hx
    · have hmem := List.mem_of_getElem? hx
      rw [List.mem_singleton.mp hmem]
      exact hb.symm
  refine ⟨h.bounded, fun p r b hr => ?_, h.read, fun b hb => ?_, fun p r b rest hp hnew hb => ?_⟩
  · obtain ⟨mark, hmark⟩ := h.listed p r b hr
    exact ⟨mark, hold hmark⟩
  · by_cases hba : b = a
    · subst hba
      refine Or.inl ⟨m.rows.length, hlast, fun r x hr hx => ?_⟩
      have hlt := (List.getElem?_eq_some_iff.mp hx).1
      rw [Mail.enqueue, List.length_append, List.length_singleton] at hlt
      omega
    · rcases h.dispatched b (hW b hba hb) with ⟨r, hr, hnew⟩ | hmessage
      · exact Or.inl ⟨r, hold hr, hnewest hba hnew⟩
      · exact Or.inr hmessage
  · obtain ⟨mark, hmark⟩ := h.listed p r b (by rw [hp]; exact List.mem_cons_self)
    have hlt := (List.getElem?_eq_some_iff.mp hmark).1
    have hba : b ≠ a := by
      intro hba
      exact hnew m.rows.length _ hlt hlast hba.symm
    refine h.relayed p r b rest hp (fun r' x hr' hx => ?_) (hW b hba hb)
    exact hnew r' x hr' (hold hx)

/-- A relay sends the item of its next row. -/
theorem send {r : ℕ} {rest : List (ℕ × α)} (h : Ledger W m stage)
    (hp : stage p = .listed ((r, a) :: rest)) :
    Ledger W (m.send a) (Function.update stage p (.sent r a rest)) := by
  have hlog : ∀ {n b}, m.log[n]? = some b → (m.send a).log[n]? = some b := fun hn => by
    rw [Mail.send, List.getElem?_append_left (List.getElem?_eq_some_iff.mp hn).1]
    exact hn
  have hpending : ∀ {b}, m.Pending stage b → (m.send a).Pending stage b := fun hold => by
    obtain ⟨n, hn, hb, hbehind⟩ := hold
    exact ⟨n, hn, hlog hb, hbehind⟩
  have hsent : Ledger W (m.send a) stage := by
    refine ⟨?_, h.listed, fun q o b hq => ?_, fun b hb => ?_, fun q r' b rest' hq hnew hb => ?_⟩
    · show m.committed ≤ (m.log ++ [a]).length
      have hbounded := h.bounded
      rw [List.length_append]
      omega
    · exact hlog (h.read q o b hq)
    · rcases h.dispatched b hb with hrow | hmessage
      · exact Or.inl hrow
      · exact Or.inr (hpending hmessage)
    · exact hpending (h.relayed q r' b rest' hq hnew hb)
  apply hsent.update
  · intro r' b hr
    exact h.listed p r' b (by rw [hp]; exact hr)
  · intro o b hb
    cases hb
  · exact fun n _ _ _ => Nat.zero_le n
  · intro r' b rest' hb _ _
    cases hb
    refine ⟨m.log.length, ahead_update (Nat.zero_le _) ⟨h.bounded, ?_, h.behind_le⟩⟩
    rw [Mail.send, List.getElem?_append_right (Nat.le_refl _), Nat.sub_self]
    rfl

/-- The relay marks the row. -/
theorem mark {r : ℕ} {rest : List (ℕ × α)} (h : Ledger W m stage) (hp : stage p = .sent r a rest) :
    Ledger W (m.mark r) (Function.update stage p (.listed rest)) := by
  have hrows : ∀ r', (m.mark r).rows[r']? =
      (m.rows[r']?).map fun x => if r = r' then (x.1, true) else x := by
    intro r'
    rw [Mail.mark, List.getElem?_modify]
    cases m.rows[r']? with
    | none => rfl
    | some x =>
        by_cases hr : r = r'
        · simp [hr]
        · simp [hr]
  have hnewest : ∀ {r' b}, (m.mark r).Newest r' b ↔ m.Newest r' b := by
    intro r' b
    constructor
    · intro hnew i x hi hx
      have hmarked := hnew i (if r = i then (x.1, true) else x) hi (by rw [hrows, hx]; rfl)
      by_cases hr : r = i
      · rw [if_pos hr] at hmarked
        exact hmarked
      · rw [if_neg hr] at hmarked
        exact hmarked
    · intro hnew i x hi hx
      rw [hrows] at hx
      obtain ⟨y, hy, rfl⟩ := Option.map_eq_some_iff.mp hx
      by_cases hr : r = i
      · rw [if_pos hr]
        exact hnew i y hi hy
      · rw [if_neg hr]
        exact hnew i y hi hy
  have hmarked : Ledger W (m.mark r) stage := by
    refine ⟨h.bounded, fun q r' b hr => ?_, h.read, fun b hb => ?_, fun q r' b rest' hq hnew hb => ?_⟩
    · obtain ⟨mark, hmark⟩ := h.listed q r' b hr
      rw [hrows, hmark]
      by_cases hr : r = r'
      · exact ⟨true, by simp [hr]⟩
      · exact ⟨mark, by simp [hr]⟩
    · rcases h.dispatched b hb with ⟨r', hr', hnew⟩ | hmessage
      · by_cases hr : r = r'
        · subst hr
          obtain ⟨mark, hmark⟩ := h.listed p r a (by rw [hp]; exact List.mem_cons_self)
          cases hr'.symm.trans hmark
          exact Or.inr (h.relayed p r _ rest hp hnew hb)
        · refine Or.inl ⟨r', ?_, hnewest.mpr hnew⟩
          rw [hrows, hr']
          simp [hr]
      · exact Or.inr hmessage
    · exact h.relayed q r' b rest' hq (hnewest.mp hnew) hb
  apply hmarked.list
  intro r' b hr
  exact hmarked.listed p r' b (by rw [hp]; exact List.mem_cons_of_mem _ hr)

/-- A consumer reads a message, and passes over none of an item that waits. -/
theorem poll {o : ℕ} (h : Ledger W m stage) (ha : m.log[o]? = some a)
    (hskip : ∀ n b, m.committed ≤ n → n < o → m.log[n]? = some b → ¬ W b) :
    Ledger W m (Function.update stage p (.polled o a)) := by
  apply h.update
  · exact fun _ _ hr => absurd hr List.not_mem_nil
  · intro o' b hb
    cases hb
    exact ha
  · intro n b hb hn
    show o ≤ n
    by_contra hlt
    exact hskip n b hn.1 (Nat.lt_of_not_le hlt) hn.2.1 hb
  · intro r b rest hb
    cases hb

/-- A consumer has acted on its message: the item does not wait any more. -/
theorem take {o : ℕ} (h : Ledger W m stage) (hp : stage p = .polled o a) (ha : ¬ W a) :
    Ledger W m (Function.update stage p (.taken o a)) := by
  have hread := h.read p o a (by rw [hp]; rfl)
  apply h.update
  · exact fun _ _ hr => absurd hr List.not_mem_nil
  · intro o' b hb
    cases hb
    exact hread
  · intro n b hb hn
    -- The message at `o` is not of an item that waits.
    have hne : n ≠ o := by
      intro heq
      subst heq
      cases hread.symm.trans hn.2.1
      exact ha hb
    have hbehind := hn.2.2 p
    rw [hp] at hbehind
    exact Nat.lt_of_le_of_ne hbehind hne.symm
  · intro r b rest hb
    cases hb

/-- The consumer commits. -/
theorem commit {o : ℕ} (h : Ledger W m stage) (hp : stage p = .taken o a) :
    Ledger W (m.commit (o + 1)) (Function.update stage p .idle) := by
  have hread := h.read p o a (by rw [hp]; rfl)
  have hlength := (List.getElem?_eq_some_iff.mp hread).1
  have hpending : ∀ {b}, m.Pending stage b → (m.commit (o + 1)).Pending stage b := by
    intro b hold
    obtain ⟨n, hn, hb, hbehind⟩ := hold
    have hp' := hbehind p
    rw [hp] at hp'
    exact ⟨n, Nat.max_le.mpr ⟨hn, hp'⟩, hb, hbehind⟩
  have hcommitted : Ledger W (m.commit (o + 1)) stage := by
    refine ⟨Nat.max_le.mpr ⟨h.bounded, hlength⟩, h.listed, h.read, fun b hb => ?_,
      fun q r b rest hq hnew hb => hpending (h.relayed q r b rest hq hnew hb)⟩
    rcases h.dispatched b hb with hrow | hmessage
    · exact Or.inl hrow
    · exact Or.inr (hpending hmessage)
  exact hcommitted.idle p

end Ledger

end Outbox

end PosttrainPlatform
