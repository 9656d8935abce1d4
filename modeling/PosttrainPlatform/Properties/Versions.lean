import PosttrainPlatform.Lib.Numbering
import PosttrainPlatform.Properties.Knows

/-!
# Version numbers

The version of a dataset or a model is the largest one so far plus one, and it is read some time before
it is inserted.  Whoever is overtaken meanwhile is refused by the primary key.  So the numbers of a
dataset stay consecutive, and every call that succeeds has a number of its own.
-/

namespace PosttrainPlatform

open PosttrainPlatform.Numbering Programs Service

/-! ### The two registries -/

inductive Registry
  | datasets
  | models
  deriving DecidableEq

/-- The version is registered. -/
def Registry.Taken (db : Db) (v : VersionRef) : Registry → Prop
  | .datasets => (db.datasetVersions.lookup v).isSome
  | .models => (db.modelVersions.lookup v).isSome

/-- What a statement registers. -/
def Op.registers : Op → Option (Registry × VersionRef)
  | .createDatasetVersion v _ => some (.datasets, v)
  | .createModelVersion v _ => some (.models, v)
  | _ => none

/-- The call has read that this version is the next one. -/
def Past.HasNext (h : Past) (v : VersionRef) : Registry → Prop
  | .datasets => h.Answered (.nextDatasetVersion v.1) v.2
  | .models => h.Answered (.nextModelVersion v.1) v.2

/-- The call has not tried to register anything. -/
def Past.Unregistered (h : Past) : Prop := ∀ d ∈ h, d.1.registers = none

/-- **Who registers a version has read its number**, and tries it once. -/
def Past.Numbers (h : Past) (op : Op) : Prop :=
  ∀ g v, op.registers = some (g, v) → h.HasNext v g ∧ h.Unregistered

/-- The call has registered the version. -/
def Past.Registered (h : Past) (g : Registry) (v : VersionRef) : Prop :=
  ∃ (op : Op) (a : op.Ret), op.registers = some (g, v) ∧ h.Answered op a

/-! ### The programs -/

section Programs

variable {env : Env} {h : Past} {α : Type}

theorem Past.unregistered_nil : Past.Unregistered [] := fun d hd => by cases hd

theorem Past.Unregistered.cons (hh : h.Unregistered) {d : Done Op Op.Ret Exn}
    (hd : d.1.registers = none) : Past.Unregistered (d :: h) := by
  intro e he
  obtain rfl | he := List.mem_cons.mp he
  · exact hd
  · exact hh e he

/-- A program that registers nothing. -/
theorem numbers_of_all {p : Service α} (hp : p.All fun op => op.registers = none)
    (hh : h.Unregistered) : p.Justified Past.Numbers h fun _ m => Past.Unregistered m := by
  refine Prog.justified_of_all (I := fun m : Past => m.Unregistered) (fun m op hm hop => ?_) hp hh
  refine ⟨fun g v hregisters => ?_, fun r => hm.cons hop⟩
  rw [hop] at hregisters
  cases hregisters

/-- The number is read, and its version is inserted. -/
theorem numbers_insert {β : Type} {next : Op} {insert : next.Ret → Op}
    {rest : (n : next.Ret) → (insert n).Ret → Service β} (hnext : next.registers = none)
    (hinsert : ∀ n m, (∀ g v, (insert n).registers = some (g, v) →
      Past.HasNext (⟨next, .ok n⟩ :: m) v g))
    (hrest : ∀ n a, ∃ b, rest n a = pure b) (hh : h.Unregistered) :
    (exec next >>= fun n => exec (insert n) >>= rest n).Justified Past.Numbers h fun _ _ => True := by
  refine Prog.justified_perform_bind (fun g v hregisters => ?_) (fun n => ?_) fun _ => trivial
  · rw [hnext] at hregisters
    cases hregisters
  · have hnew : Past.Unregistered (⟨next, .ok n⟩ :: h) := hh.cons hnext
    refine Prog.justified_perform_bind (fun g v hregisters => ⟨hinsert n h g v hregisters, hnew⟩)
      (fun a => ?_) fun _ => trivial
    obtain ⟨b, hb⟩ := hrest n a
    rw [hb]
    trivial

theorem registers_of_inside {ρ : Role} {δ : Duty} {op : Op} (hop : op.Inside ρ δ)
    (hρ : ρ ≠ .registry) : op.registers = none := by
  have hrole : op.role ≠ .registry := by
    obtain hplain | hcovers := hop.1
    · rw [hplain]
      decide
    · revert hρ hcovers
      cases ρ <;> simp only [Role.covers] <;> cases op.role <;> decide
  cases op <;> first | rfl | exact absurd rfl hrole

theorem numbers_createDatasetVersion (d : ℕ) (data : Bytes) (u : WorkerId) :
    (createDatasetVersion env d data u).Justified Past.Numbers [] fun _ _ => True := by
  have hupload : (uploadArtifact env data u).All fun op => op.registers = none :=
    Prog.all_mono (fun _ hop => registers_of_inside hop (by decide))
      (all_uploadArtifact (δ := .any) env data u)
  refine Prog.justified_bind (numbers_of_all (Prog.all_perform.mpr rfl) Past.unregistered_nil)
    (fun known m hm => ?_) fun _ _ _ => trivial
  refine Prog.justified_bind (numbers_of_all (all_check _ _) hm) (fun _ m hm => ?_)
    fun _ _ _ => trivial
  refine Prog.justified_bind (numbers_of_all hupload hm) (fun r m hm => ?_) fun _ _ _ => trivial
  refine Prog.justified_bind (numbers_of_all (all_check _ _) hm) (fun _ m hm => ?_)
    fun _ _ _ => trivial
  refine numbers_insert rfl (fun n m g v hv => ?_) (fun n a => ⟨_, rfl⟩) hm
  cases hv
  exact History.answered_cons_self _ _ _

theorem numbers_registerVersion (m : ℕ) (a : ArtifactId) (runId : Option RunId) :
    (registerVersion m a runId).Justified Past.Numbers [] fun _ _ => True := by
  refine Prog.justified_bind (numbers_of_all (Prog.all_perform.mpr rfl) Past.unregistered_nil)
    (fun known m hm => ?_) fun _ _ _ => trivial
  refine Prog.justified_bind (numbers_of_all (all_check _ _) hm) (fun _ m hm => ?_)
    fun _ _ _ => trivial
  refine Prog.justified_bind (numbers_of_all (Prog.all_perform.mpr rfl) hm)
    (fun row m hm => ?_) fun _ _ _ => trivial
  refine Prog.justified_bind (numbers_of_all (all_found _ _) hm) (fun artifact m hm => ?_)
    fun _ _ _ => trivial
  refine Prog.justified_bind (numbers_of_all (all_check _ _) hm) (fun _ m hm => ?_)
    fun _ _ _ => trivial
  refine Prog.justified_bind (numbers_of_all (Prog.all_perform.mpr rfl) hm)
    (fun existing m hm => ?_) fun _ _ _ => trivial
  refine Prog.justified_bind (numbers_of_all (all_check _ _) hm) (fun _ m hm => ?_)
    fun _ _ _ => trivial
  refine numbers_insert rfl (fun n m g v hv => ?_) (fun n a => ⟨_, rfl⟩) hm
  cases hv
  exact History.answered_cons_self _ _ _

/-- The sweep over pending artifacts registers nothing. -/
theorem registers_reconcileAll (pending : List (ArtifactId × Artifact)) (healed failed : ℕ) :
    (reconcileAll pending healed failed).All fun op => op.registers = none := by
  induction pending generalizing healed failed with
  | nil => trivial
  | cons item rest ih =>
      refine Prog.all_bind (Prog.all_bind (all_objectExistsWithHash rfl) fun intact => ?_)
        fun counts => ih _ _
      cases intact with
      | true =>
          refine Prog.all_perform_bind.mpr ⟨rfl, fun size => ?_⟩
          exact Prog.all_perform_bind.mpr ⟨rfl, fun result => trivial⟩
      | false => exact Prog.all_perform_bind.mpr ⟨rfl, fun result => trivial⟩

/-- **Every call reads the number that it inserts.** -/
theorem numbers_program (env : Env) (call : Call) :
    (call.program env).Justified Past.Numbers [] fun _ _ => True := by
  have hother : (call.program env).All (fun op => op.registers = none) →
      (call.program env).Justified Past.Numbers [] fun _ _ => True := fun hall =>
    (numbers_of_all hall Past.unregistered_nil).mono fun _ _ _ => trivial
  cases call with
  | createDatasetVersion d data u =>
      exact Prog.justified_bind (numbers_createDatasetVersion d data u) (fun _ _ _ => trivial)
        fun _ _ _ => trivial
  | registerVersion m a runId =>
      exact Prog.justified_bind (numbers_registerVersion m a runId) (fun _ _ _ => trivial)
        fun _ _ _ => trivial
  | reconcileOnce =>
      refine hother (Prog.all_bind ?_ fun _ => trivial)
      exact Prog.all_perform_bind.mpr ⟨rfl, fun pending => registers_reconcileAll _ 0 0⟩
  | createJob | createTrainingRun | createEvaluation | updateJob | cancelJob | deleteJob
  | schedulerRunOnce | recoveryRunOnce | relayOnce | processJobMessage | workerRunOnce
  | uploadArtifact | renewUploadLease | createDataset | createModel | evaluateQualityGate =>
      refine hother (Prog.all_mono (fun op hop => ?_) (inside_program env _))
      exact registers_of_inside hop (by simp [Call.role])

end Programs

/-! ### One statement -/

section Step

variable {env : Env} {p : ℕ} {i : Input} {s : World} {op : Op} {g : Registry} {v : VersionRef}

/-- The other statements leave the registries alone. -/
theorem RecordStep.versions {db : Db} {r : Records} (hstep : RecordStep env db i op r)
    (hop : op.registers = none) :
    r.datasetVersions = db.datasetVersions ∧ r.modelVersions = db.modelVersions := by
  cases hstep <;> first | exact ⟨rfl, rfl⟩ | cases hop

theorem taken_of_unregistered (hop : op.registers = none) :
    g.Taken (op.perform env p i s).1.db v ↔ g.Taken s.db v := by
  obtain ⟨hdatasets, hmodels⟩ := (perform_records env p i s op).versions hop
  cases g with
  | datasets => exact iff_of_eq (congrArg (fun t => (AList.lookup v t).isSome = true) hdatasets)
  | models => exact iff_of_eq (congrArg (fun t => (AList.lookup v t).isSome = true) hmodels)

theorem isSome_lookup_insert {ρ : Type} (t : Table VersionRef ρ) (r : ρ) (v v' : VersionRef) :
    ((t.insert v r).lookup v').isSome ↔ (t.lookup v').isSome ∨ v' = v := by
  rw [Table.lookup_insert_eq]
  by_cases hkey : v' = v
  · simp [hkey]
  · simp [hkey]

variable (env p i) in
/-- **A registration is refused, or its version was free and is taken now.** -/
theorem registers_cases (hop : op.registers = some (g, v)) :
    (op.perform env p i s = (s, .error .databaseError)) ∨
      ∃ a, (op.perform env p i s).2 = .ok a ∧ ¬g.Taken s.db v ∧
        ∀ g' v', g'.Taken (op.perform env p i s).1.db v' ↔ g'.Taken s.db v' ∨ (g' = g ∧ v' = v) := by
  cases op
  case createDatasetVersion v₀ a =>
      cases hop
      simp only [Op.perform]
      cases hcreate : DatasetsRepo.createVersion s.db v a with
      | none => exact Or.inl rfl
      | some db =>
          obtain ⟨table, hnew, rfl⟩ := Option.map_eq_some_iff.mp hcreate
          obtain ⟨hfree, rfl⟩ := Table.insertNew_eq_some.mp hnew
          refine Or.inr ⟨(), rfl, fun htaken => ?_, fun g' v' => ?_⟩
          · simp [Registry.Taken, hfree] at htaken
          · cases g' with
            | datasets =>
                refine (isSome_lookup_insert s.db.datasetVersions a v v').trans ?_
                simp [Registry.Taken]
            | models => simp [Registry.Taken, World.tryWrite, World.write]
  case createModelVersion v₀ row =>
      cases hop
      simp only [Op.perform]
      cases hcreate : ModelsRepo.createVersion s.db v row with
      | none => exact Or.inl rfl
      | some db =>
          obtain ⟨hfree, _, _, rfl⟩ := createModelVersion_cases hcreate
          refine Or.inr ⟨(), rfl, fun htaken => ?_, fun g' v' => ?_⟩
          · simp [Registry.Taken, hfree] at htaken
          · cases g' with
            | datasets => simp [Registry.Taken, World.tryWrite, World.write]
            | models =>
                refine (isSome_lookup_insert s.db.modelVersions row v v').trans ?_
                simp [Registry.Taken]
  all_goals cases hop

/-- The version that is read is the next one. -/
theorem next_of_numbered {d n : ℕ}
    (hg : ∀ (g : Registry) (d : ℕ), Numbered fun n => g.Taken s.db (d, n))
    (hnext : (op = .nextDatasetVersion d ∧ g = .datasets ∧ DatasetsRepo.nextVersion s.db d = n) ∨
      (op = .nextModelVersion d ∧ g = .models ∧ ModelsRepo.nextVersion s.db d = n)) :
    Proposed (fun n => g.Taken s.db (d, n)) n ∧ ¬g.Taken s.db (d, n) := by
  have hmem : ∀ {ρ : Type} (t : Table VersionRef ρ) (n : ℕ),
      n ∈ ((t.rows.map Prod.fst).filter fun v => v.1 = d).map Prod.snd ↔
        (t.lookup (d, n)).isSome := by
    intro ρ t n
    rw [Option.isSome_iff_exists]
    simp only [List.mem_map, List.mem_filter, decide_eq_true_eq]
    constructor
    · rintro ⟨_, ⟨⟨⟨v, row⟩, hrow, rfl⟩, rfl⟩, rfl⟩
      exact ⟨row, Table.mem_rows.mp hrow⟩
    · rintro ⟨row, hrow⟩
      exact ⟨(d, n), ⟨⟨((d, n), row), Table.mem_rows.mpr hrow, rfl⟩, rfl⟩, rfl⟩
  obtain ⟨_, rfl, rfl⟩ | ⟨_, rfl, rfl⟩ := hnext
  · exact (hg .datasets d).next (hmem s.db.datasetVersions)
  · exact (hg .models d).next (hmem s.db.modelVersions)

end Step

/-! ### Every run -/

/-- **The invariant**: the numbers are consecutive, a number that was read is not beyond the next one,
and whatever is registered beyond the initial state has been registered by one call. -/
structure Versioned (s₀ s : World) (h : Pasts) : Prop where
  numbered : ∀ (g : Registry) d, Numbered fun n => g.Taken s.db (d, n)
  proposed : ∀ p (g : Registry) v, Past.HasNext (h p) v g →
    Proposed (fun n => g.Taken s.db (v.1, n)) v.2
  overtaken : ∀ p (g : Registry) v, Past.HasNext (h p) v g → g.Taken s.db v →
    ∃ q, Past.Registered (h q) g v
  registered : ∀ p (g : Registry) v, Past.Registered (h p) g v → g.Taken s.db v
  source : ∀ (g : Registry) v, g.Taken s.db v → g.Taken s₀.db v ∨ ∃ p, Past.Registered (h p) g v
  unique : ∀ p q (g : Registry) v, Past.Registered (h p) g v → Past.Registered (h q) g v → q = p

section Invariant

variable {env : Env} {p : ℕ} {s₀ s s' : World} {h h' : Pasts} {op : Op} {g : Registry}
  {v : VersionRef}

theorem Past.HasNext.mono {m m' : Past} (hsub : m ⊆ m') (hnext : m.HasNext v g) :
    m'.HasNext v g := by
  cases g with
  | datasets => exact History.Answered.mono (h := m) hnext hsub
  | models => exact History.Answered.mono (h := m) hnext hsub

theorem Past.Registered.mono {m m' : Past} (hsub : m ⊆ m') (hr : m.Registered g v) :
    m'.Registered g v := by
  obtain ⟨op, a, hop, ha⟩ := hr
  exact ⟨op, a, hop, ha.mono hsub⟩

/-- A number that a call has read is one that it has just read, or one that it had read before. -/
theorem hasNext_add {q : ℕ} {r : Except Exn op.Ret}
    (hnext : Past.HasNext (h.add p ⟨op, r⟩ q) v g) :
    Past.HasNext (h q) v g ∨
      (op = .nextDatasetVersion v.1 ∧ g = .datasets ∧ HEq r (Except.ok v.2 : Except Exn ℕ)) ∨
      (op = .nextModelVersion v.1 ∧ g = .models ∧ HEq r (Except.ok v.2 : Except Exn ℕ)) := by
  cases g with
  | datasets =>
      obtain ⟨rfl, hnew⟩ | hold := Histories.answered_add hnext
      · obtain ⟨rfl, hr⟩ := Sigma.mk.inj_iff.mp hnew
        exact Or.inr (Or.inl ⟨rfl, rfl, hr.symm⟩)
      · exact Or.inl hold
  | models =>
      obtain ⟨rfl, hnew⟩ | hold := Histories.answered_add hnext
      · obtain ⟨rfl, hr⟩ := Sigma.mk.inj_iff.mp hnew
        exact Or.inr (Or.inr ⟨rfl, rfl, hr.symm⟩)
      · exact Or.inl hold

/-- What a call has registered is what it has just registered, or what it had registered before. -/
theorem registered_add {q : ℕ} {r : Except Exn op.Ret}
    (hr : Past.Registered (h.add p ⟨op, r⟩ q) g v) :
    Past.Registered (h q) g v ∨ (q = p ∧ op.registers = some (g, v) ∧ ∃ a, r = .ok a) := by
  obtain ⟨op', a, hop, ha⟩ := hr
  obtain ⟨rfl, hnew⟩ | hold := Histories.answered_add ha
  · obtain ⟨rfl, hr⟩ := Sigma.mk.inj_iff.mp hnew
    exact Or.inr ⟨rfl, hop, a, (eq_of_heq hr).symm⟩
  · exact Or.inl ⟨op', a, hop, hold⟩

/-- A change that leaves the registries alone, and adds neither a number nor a registration. -/
theorem Versioned.frame (hv : Versioned s₀ s h)
    (htaken : ∀ (g : Registry) v, g.Taken s'.db v ↔ g.Taken s.db v)
    (hnext : ∀ q (g : Registry) v, Past.HasNext (h' q) v g → Past.HasNext (h q) v g)
    (hregistered : ∀ q g v, Past.Registered (h' q) g v ↔ Past.Registered (h q) g v) :
    Versioned s₀ s' h' where
  numbered g d := by
    simp only [htaken]
    exact hv.numbered g d
  proposed p g v hn := by
    simp only [htaken]
    exact hv.proposed p g v (hnext p g v hn)
  overtaken p g v hn ht := by
    obtain ⟨q, hq⟩ := hv.overtaken p g v (hnext p g v hn) ((htaken g v).mp ht)
    exact ⟨q, (hregistered q g v).mpr hq⟩
  registered p g v hr := (htaken g v).mpr (hv.registered p g v ((hregistered p g v).mp hr))
  source g v ht := by
    refine (hv.source g v ((htaken g v).mp ht)).imp_right fun hp => ?_
    obtain ⟨p, hp⟩ := hp
    exact ⟨p, (hregistered p g v).mpr hp⟩
  unique p q g v hp hq :=
    hv.unique p q g v ((hregistered p g v).mp hp) ((hregistered q g v).mp hq)

/-- The entry registers nothing. -/
theorem registered_add_iff {r : Except Exn op.Ret} (hop : op.registers = none ∨ ∀ a, r ≠ .ok a)
    (q : ℕ) : Past.Registered (h.add p ⟨op, r⟩ q) g v ↔ Past.Registered (h q) g v := by
  refine ⟨fun hr => ?_, fun hr => hr.mono (Histories.subset_add h p q _)⟩
  obtain hold | ⟨_, hnew, a, ha⟩ := registered_add hr
  · exact hold
  · obtain hnone | hfail := hop
    · rw [hnone] at hnew
      cases hnew
    · exact absurd ha (hfail a)

/-- **A version is inserted** by a call that has read its number. -/
theorem Versioned.insert (hv : Versioned s₀ s h) (hop : op.registers = some (g, v))
    (hnumbers : Past.Numbers (h p) op) {a : op.Ret} (hfree : ¬g.Taken s.db v)
    (htaken : ∀ (g' : Registry) v', g'.Taken s'.db v' ↔ g'.Taken s.db v' ∨ (g' = g ∧ v' = v)) :
    Versioned s₀ s' (h.add p ⟨op, .ok a⟩) := by
  have hgrow : ∀ (g' : Registry) v', g'.Taken s.db v' → g'.Taken s'.db v' :=
    fun g' v' ht => (htaken g' v').mpr (Or.inl ht)
  have hsub := fun q => Histories.subset_add h p q ⟨op, .ok a⟩
  have hself : Past.Registered (h.add p ⟨op, .ok a⟩ p) g v :=
    ⟨op, a, hop, Histories.mem_add.mpr (Or.inl ⟨rfl, rfl⟩)⟩
  have hnext : ∀ q (g' : Registry) v', Past.HasNext (h.add p ⟨op, .ok a⟩ q) v' g' →
      Past.HasNext (h q) v' g' := by
    intro q g' v' hn
    obtain hold | ⟨rfl, _⟩ | ⟨rfl, _⟩ := hasNext_add hn
    · exact hold
    · cases hop
    · cases hop
  have hreg : ∀ q g' v', Past.Registered (h.add p ⟨op, .ok a⟩ q) g' v' →
      Past.Registered (h q) g' v' ∨ (q = p ∧ g' = g ∧ v' = v) := by
    intro q g' v' hr
    refine (registered_add hr).imp_right fun hnew => ⟨hnew.1, ?_⟩
    obtain ⟨rfl, rfl⟩ := Prod.mk.inj (Option.some.inj (hop.symm.trans hnew.2.1))
    exact ⟨rfl, rfl⟩
  have hproposed := hv.proposed p g v (hnumbers g v hop).1
  constructor
  case numbered =>
    intro g' d
    by_cases hg : g' = g ∧ d = v.1
    · obtain ⟨rfl, rfl⟩ := hg
      refine (hv.numbered g' v.1).insert hproposed fun n => (htaken g' (v.1, n)).trans ?_
      exact or_congr_right ⟨fun hn => congrArg Prod.snd hn.2, fun hn => ⟨rfl, by rw [hn]⟩⟩
    · have hsame : ∀ n, g'.Taken s'.db (d, n) ↔ g'.Taken s.db (d, n) := fun n =>
        (htaken g' (d, n)).trans (or_iff_left fun hn => hg ⟨hn.1, congrArg Prod.fst hn.2⟩)
      simp only [hsame]
      exact hv.numbered g' d
  case proposed =>
    exact fun q g' v' hn => (hv.proposed q g' v' (hnext q g' v' hn)).mono fun n => hgrow g' _
  case overtaken =>
    intro q g' v' hn ht
    obtain ht | ⟨rfl, rfl⟩ := (htaken g' v').mp ht
    · obtain ⟨q', hq'⟩ := hv.overtaken q g' v' (hnext q g' v' hn) ht
      exact ⟨q', hq'.mono (hsub q')⟩
    · exact ⟨p, hself⟩
  case registered =>
    intro q g' v' hr
    obtain hold | ⟨_, hnew⟩ := hreg q g' v' hr
    · exact hgrow g' v' (hv.registered q g' v' hold)
    · exact (htaken g' v').mpr (Or.inr hnew)
  case source =>
    intro g' v' ht
    obtain ht | ⟨rfl, rfl⟩ := (htaken g' v').mp ht
    · refine (hv.source g' v' ht).imp_right fun hq => ?_
      obtain ⟨q, hq⟩ := hq
      exact ⟨q, hq.mono (hsub q)⟩
    · exact Or.inr ⟨p, hself⟩
  case unique =>
    intro q q' g' v' hq hq'
    obtain hold | ⟨rfl, rfl, rfl⟩ := hreg q g' v' hq
    · obtain hold' | ⟨rfl, rfl, rfl⟩ := hreg q' g' v' hq'
      · exact hv.unique q q' g' v' hold hold'
      · exact absurd (hv.registered q g' v' hold) hfree
    · obtain hold' | ⟨rfl, _⟩ := hreg q' g' v' hq'
      · exact absurd (hv.registered q' g' v' hold') hfree
      · rfl

/-- A statement that registers nothing may read a number. -/
theorem Versioned.skip (hv : Versioned s₀ s h) (hop : op.registers = none) (i : Input) :
    Versioned s₀ (op.perform env p i s).1 (h.add p ⟨op, (op.perform env p i s).2⟩) := by
  have htaken : ∀ (g : Registry) v, g.Taken (op.perform env p i s).1.db v ↔ g.Taken s.db v :=
    fun _ _ => taken_of_unregistered hop
  have hreg := fun q g v => registered_add_iff (h := h) (p := p) (g := g) (v := v)
    (r := (op.perform env p i s).2) (Or.inl hop) q
  have hnext : ∀ q (g : Registry) v,
      Past.HasNext (h.add p ⟨op, (op.perform env p i s).2⟩ q) v g → Past.HasNext (h q) v g ∨
        Proposed (fun n => g.Taken s.db (v.1, n)) v.2 ∧ ¬g.Taken s.db v := by
    intro q g v hn
    obtain hold | ⟨rfl, rfl, hr⟩ | ⟨rfl, rfl, hr⟩ := hasNext_add hn
    · exact Or.inl hold
    · exact Or.inr (next_of_numbered hv.numbered
        (Or.inl ⟨rfl, rfl, Except.ok.inj (eq_of_heq hr)⟩))
    · exact Or.inr (next_of_numbered hv.numbered
        (Or.inr ⟨rfl, rfl, Except.ok.inj (eq_of_heq hr)⟩))
  constructor
  case numbered =>
    intro g d
    simp only [htaken]
    exact hv.numbered g d
  case proposed =>
    intro q g v hn
    simp only [htaken]
    obtain hold | ⟨hnew, _⟩ := hnext q g v hn
    · exact hv.proposed q g v hold
    · exact hnew
  case overtaken =>
    intro q g v hn ht
    obtain hold | ⟨_, hfree⟩ := hnext q g v hn
    · obtain ⟨q', hq'⟩ := hv.overtaken q g v hold ((htaken g v).mp ht)
      exact ⟨q', (hreg q' g v).mpr hq'⟩
    · exact absurd ((htaken g v).mp ht) hfree
  case registered => exact fun q g v hr => (htaken g v).mpr (hv.registered q g v ((hreg q g v).mp hr))
  case source =>
    intro g v ht
    refine (hv.source g v ((htaken g v).mp ht)).imp_right fun hq => ?_
    obtain ⟨q, hq⟩ := hq
    exact ⟨q, (hreg q g v).mpr hq⟩
  case unique =>
    exact fun q q' g v hq hq' => hv.unique q q' g v ((hreg q g v).mp hq) ((hreg q' g v).mp hq')

/-- A statement that fails leaves the invariant as it is. -/
theorem Versioned.fault (hv : Versioned s₀ s h) (op : Op) (e : Exn) :
    Versioned s₀ s (h.add p ⟨op, .error e⟩) := by
  refine hv.frame (fun _ _ => Iff.rfl) (fun q g v hn => ?_)
    fun q g v => registered_add_iff (Or.inr fun _ => by simp) q
  cases g with
  | datasets => exact Histories.answered_of_fault hn
  | models => exact Histories.answered_of_fault hn

/-- **Every statement keeps the invariant.** -/
theorem Versioned.perform (hv : Versioned s₀ s h) (hnumbers : Past.Numbers (h p) op) (i : Input) :
    Versioned s₀ (op.perform env p i s).1 (h.add p ⟨op, (op.perform env p i s).2⟩) := by
  cases hop : op.registers with
  | none => exact hv.skip hop i
  | some gv =>
      obtain ⟨g, v⟩ := gv
      obtain hrefused | ⟨a, ha, hfree, htaken⟩ := registers_cases env p i hop
      · rw [hrefused]
        exact hv.fault op _
      · rw [ha]
        exact hv.insert hop hnumbers hfree htaken

theorem versioned_invariant (env : Env) (s₀ : World) :
    HistoryInvariant (M := platform env) Past.Numbers (Versioned s₀) (fun _ _ => True)
      fun _ _ _ => True where
  perform _ i _ _ _ _ _ hv hnumbers _ := hv.perform hnumbers i
  fault _ e op _ _ _ hv _ := hv.fault op e
  halt _ _ _ _ hv := hv.frame (fun _ _ => Iff.rfl) (fun _ _ _ => id) fun _ _ _ => Iff.rfl
  ambient a s _ _ hv := by
    refine hv.frame (fun g v => ?_) (fun _ _ _ => id) fun _ _ _ => Iff.rfl
    show g.Taken (s.beat env a.1 a.2).db v ↔ g.Taken s.db v
    rw [beat_frame]
    cases g <;> exact Iff.rfl

end Invariant

section Run

variable {env : Env} {s : World} {es : List (SysEvent env)} {c : System env}

/-- The versions that the world begins with are numbered consecutively. -/
def World.Numbered (s : World) : Prop :=
  ∀ (g : Registry) d, Numbering.Numbered fun n => g.Taken s.db (d, n)

theorem versioned_of_reaches (h : Reaches s es c) (hs : s.Numbered) :
    Versioned s c.shared (pasts env s es) := by
  refine (versioned_invariant env s).run (numbers_program env) ?_ (fun _ _ _ _ => trivial)
    (Runs.always_of_forall (Config.atStep_of_forall fun _ _ _ => trivial) _ es) h.2
  have hempty : ∀ p g v, ¬Past.Registered ((fun _ => [] : Pasts) p) g v := by
    intro p g v hr
    obtain ⟨_, _, _, ha⟩ := hr
    cases ha
  have hnext : ∀ p (g : Registry) v, ¬Past.HasNext ((fun _ => [] : Pasts) p) v g := by
    intro p g v hn
    cases g <;> cases hn
  exact ⟨hs, fun p g v hn => absurd hn (hnext p g v), fun p g v hn => absurd hn (hnext p g v),
    fun p g v hr => absurd hr (hempty p g v), fun g v ht => Or.inl ht,
    fun p q g v hr => absurd hr (hempty p g v)⟩

/-- The numbers of a registry are bounded. -/
theorem Registry.exists_bound (g : Registry) (db : Db) (d : ℕ) :
    ∃ N, ∀ n, g.Taken db (d, n) → n ≤ N := by
  have hbound : ∀ {ρ : Type} (t : Table VersionRef ρ), ∃ N, ∀ n, (t.lookup (d, n)).isSome → n ≤ N := by
    intro ρ t
    refine ⟨(t.rows.map fun r => r.1.2).sum, fun n hn => ?_⟩
    obtain ⟨row, hrow⟩ := Option.isSome_iff_exists.mp hn
    exact List.single_le_sum (fun _ _ => Nat.zero_le _) _
      (List.mem_map.mpr ⟨((d, n), row), Table.mem_rows.mpr hrow, rfl⟩)
  cases g with
  | datasets => exact hbound db.datasetVersions
  | models => exact hbound db.modelVersions

/-- **Version numbers have no gap and no two owners**: the versions of a dataset or a model are those
from 1 to some number, and each one that was not there at the beginning has been registered by exactly
one call, however the calls are interleaved. -/
theorem versions_numbered (h : Reaches s es c) (hs : s.Numbered) (g : Registry) (d : ℕ) :
    (∃ N, ∀ n, g.Taken c.shared.db (d, n) ↔ 0 < n ∧ n ≤ N) ∧
    ∀ n, g.Taken c.shared.db (d, n) → ¬g.Taken s.db (d, n) →
      ∃! p, Past.Registered (pasts env s es p) g (d, n) := by
  have hv := versioned_of_reaches h hs
  refine ⟨?_, fun n htaken hnew => ?_⟩
  · obtain ⟨N, hN⟩ := g.exists_bound c.shared.db d
    exact (hv.numbered g d).interval hN
  · obtain hold | ⟨p, hp⟩ := hv.source g (d, n) htaken
    · exact absurd hold hnew
    · exact ⟨p, hp, fun q hq => hv.unique p q g (d, n) hp hq⟩

/-- **A dataset version is refused only to who was overtaken**: when the insert of a call is rejected,
another call has registered the number since it was read. -/
theorem refused_version_overtaken (h : Reaches s es c) (hs : s.Numbered) {p : ℕ} {call : Call}
    {v : VersionRef} {a : ArtifactId} {k : Except Exn Unit → Service Reply} {i : Input}
    (hat : c.AtOp p call (.createDatasetVersion v a) k)
    (hrefused : ((Op.createDatasetVersion v a).perform env p i c.shared).2 ≠ .ok ()) :
    ∃ q ≠ p, Past.Registered (pasts env s es q) .datasets v := by
  have hv := versioned_of_reaches h hs
  obtain ⟨hnext, hfirst⟩ :=
    ((disciplined_of_run (numbers_program env) h.2).justified hat).1 .datasets v rfl
  have htaken : Registry.datasets.Taken c.shared.db v := by
    show (c.shared.db.datasetVersions.lookup v).isSome
    by_contra hfree
    rw [Option.not_isSome_iff_eq_none] at hfree
    refine hrefused ?_
    simp only [Op.perform, DatasetsRepo.createVersion, Table.insertNew, hfree]
    rfl
  obtain ⟨q, hq⟩ := hv.overtaken p .datasets v hnext htaken
  refine ⟨q, fun heq => ?_, hq⟩
  obtain ⟨op, a, hop, ha⟩ := hq
  rw [heq] at ha
  have hnone : op.registers = none := hfirst _ ha
  rw [hop] at hnone
  cases hnone

end Run

/-! ### Two uploads at once -/

theorem World.fresh_numbered : World.fresh.Numbered := by
  intro g d
  have hnone : ∀ n, ¬g.Taken World.fresh.db (d, n) := by
    intro n ht
    cases g <;> cases ht
  exact ⟨fun n ht => absurd ht (hnone n), fun n ht => absurd ht (hnone n)⟩

/-- Two calls read the same next number, and the first one inserts it. -/
def overtakenVersion : List (SysEvent Env.standard) :=
  session 0 (.createDataset "dataset") 1 { uuid := 1 } ++
    session 1 (.createDatasetVersion 1 [1] 7) 8 { uuid := 1 } ++
    session 2 (.createDatasetVersion 1 [2] 8) 8 { uuid := 2 } ++ proceed 1 1 {}

/-- The second call is refused because the first one has its number. -/
theorem second_version_overtaken : ∃ c : System Env.standard,
    Reaches World.fresh overtakenVersion c ∧ ∃ q ≠ 2,
      Past.Registered (pasts .standard World.fresh overtakenVersion q) .datasets (1, 1) := by
  obtain ⟨c, hc, ⟨op, hop, hregisters⟩, htaken⟩ := exists_reaches World.fresh_initial
    overtakenVersion (P := fun c : System .standard =>
      (∃ op ∈ c.pending 2, op.registers = some (.datasets, (1, 1))) ∧
        c.shared.db.datasetVersions.lookup (1, 1) = some 1) (by decide +kernel)
  obtain ⟨call, k, hat⟩ := Config.pending_eq_some.mp hop
  cases op
  case createDatasetVersion v a =>
      cases hregisters
      refine ⟨c, hc, refused_version_overtaken (i := {}) hc World.fresh_numbered hat ?_⟩
      simp [Op.perform, DatasetsRepo.createVersion, Table.insertNew, htaken, World.tryWrite]
  all_goals cases hregisters

/-- The call that was overtaken fails, and a third one gets the next number. -/
theorem third_version_numbered : ∃ c : System Env.standard,
    Reaches World.fresh (overtakenVersion ++ proceed 2 1 {} ++
      session 3 (.createDatasetVersion 1 [3] 9) 9 { uuid := 3 }) c ∧
      (∀ n, Registry.datasets.Taken c.shared.db (1, n) ↔ 0 < n ∧ n ≤ 2) := by
  obtain ⟨c, hc, htwo, hthree⟩ := exists_reaches World.fresh_initial
    (overtakenVersion ++ proceed 2 1 {} ++
      session 3 (.createDatasetVersion 1 [3] 9) 9 { uuid := 3 })
    (P := fun c : System .standard =>
      (c.shared.db.datasetVersions.lookup (1, 2)).isSome = true ∧
        c.shared.db.datasetVersions.lookup (1, 3) = none) (by decide +kernel)
  refine ⟨c, hc, fun n => ?_⟩
  obtain ⟨⟨N, hN⟩, _⟩ := versions_numbered hc World.fresh_numbered .datasets 1
  have hlow : 2 ≤ N := ((hN 2).mp htwo).2
  have hhigh : ¬3 ≤ N := by
    intro hle
    have htaken : Registry.datasets.Taken c.shared.db (1, 3) := (hN 3).mpr ⟨by decide, hle⟩
    simp [Registry.Taken, hthree] at htaken
  obtain rfl : N = 2 := by omega
  exact hN n

end PosttrainPlatform
