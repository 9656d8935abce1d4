import PosttrainPlatform.Properties.Searches
import PosttrainPlatform.Properties.ToyEvaluations
import PosttrainPlatform.Subprocess.Codec
import PosttrainPlatform.Subprocess.TrainerActions

/-!
# Trainings with the toy trainer

What is known of the lines and the files of a subprocess that runs the toy trainer until it ends or is
killed, and of the files that its supervisor has read.
-/

namespace PosttrainPlatform

open Programs Process ToyTrainer

/-- What the toy trainer leaves behind that is stopped after some of its actions. -/
def ToyTrainer.Leaves (env : Env) (py : Python) (context : Dict) (files : List (String × Bytes))
    (i : Input) : Prop :=
  ∃ host acts,
    acts <+: (trainingMain host context (ToyTrainer.run env py host files context)).trace ∧
      PosttrainPlatform.Leaves acts i

def toyTrainerEntrypoint : Json := .str "app.training.toy_trainer"

/-- A subprocess whose entrypoint is the toy trainer runs that. -/
def RunsToyTrainer (env : Env) (py : Python) : Op → Input → World → Prop
  | .spawn .training context files, i, _ =>
      context.get? "training_entrypoint" = some toyTrainerEntrypoint →
        ToyTrainer.Leaves env py context files i
  | _, _, _ => True

/-! ### What a trainer leaves behind -/

section Leaves

variable {env : Env} {py : Python} {context : Dict} {files : List (String × Bytes)} {i : Input}
  {m : ℕ}

/-- **Every action of a trainer that begins after `m` steps** is an event of the entrypoint, or one of
the training of its configuration. -/
theorem ToyTrainer.Leaves.does (h : ToyTrainer.Leaves env py context files i)
    (hbegins : ∀ host, BeginsAt py host files context m) :
    ∃ host acts, PosttrainPlatform.Leaves acts i ∧ ∀ before x, Traces.Occurs before x acts →
      Framing x ∨ ∃ c, (readConfig host context).result = .ok c ∧ c.Does env py m before x := by
  obtain ⟨host, acts, hacts, hleaves⟩ := h
  refine ⟨host, acts, hleaves, fun before x hx => ?_⟩
  obtain hframing | ⟨y, tail, rfl, htail⟩ := occurs_trainingMain (hx.mono hacts)
  · exact Or.inl hframing
  · obtain ⟨c, hc, hdoes⟩ := does_of_run (hbegins host) htail
    exact Or.inr ⟨c, hc, hdoes.mono (List.subset_cons_self y tail)⟩

/-- **An event of the trainer**: what it has reported before stands in earlier lines, and a file that it
has written before has the content that it writes there. -/
theorem ToyTrainer.Leaves.event (h : ToyTrainer.Leaves env py context files i)
    (hbegins : ∀ host, BeginsAt py host files context m) {before after : List Line} {event : Dict}
    {kind : String} (hlines : i.lines = before ++ .json (.obj event) :: after)
    (hkind : event.get? "event" = some (.str kind)) (hkinds : kind ∉ framingKinds) :
    ∃ (c : ToyTrainer.Config) (acts : List Action), c.Reads context ∧
      c.Does env py m acts (.report event) ∧
      (∀ e, .report e ∈ acts →
        .json (.obj e) ∈ before ∧ (e.get? "event" = some (.str "metric") →
          ∃ earlier, c.Does env py m earlier (.report e))) ∧
      ∀ path data, .write path data ∈ acts →
        (∀ earlier data', c.Does env py m earlier (.write path data') → data' = data) →
          i.files.lookup path = some data := by
  obtain ⟨host, acts, hleaves, hdoes⟩ := h.does hbegins
  obtain ⟨pre, hoccurs, hbefore⟩ := hleaves.occurs hlines
  obtain hframing | ⟨c, hc, hevent⟩ := hdoes pre _ hoccurs
  · exact absurd hframing (not_framing hkind hkinds)
  have hall : ∀ y ∈ acts, ¬ Framing y → ∃ earlier, c.Does env py m earlier y := by
    intro y hy hno
    obtain ⟨earlier, hy⟩ := Traces.exists_occurs hy
    obtain hframing | ⟨c', hc', hdone⟩ := hdoes earlier y hy
    · exact absurd hframing hno
    · obtain rfl : c = c' := Except.ok.inj (hc.symm.trans hc')
      exact ⟨earlier, hdone⟩
  refine ⟨c, pre, reads_of_readConfig hc, hevent, fun e he => ⟨hbefore e he, fun hmetric => ?_⟩, ?_⟩
  · exact hall _ (hoccurs.before_mem he) (not_framing hmetric (by decide))
  · intro path data hwrite hsame
    refine hleaves.lookup (hoccurs.before_mem hwrite) fun data' hwrite' => ?_
    obtain ⟨earlier, hdone⟩ := hall _ hwrite' id
    exact hsame earlier data' hdone

end Leaves

/-! ### The files that were read -/

/-- Every answer of a thread to `open` is the file of its subprocess, where there is one. -/
def Past.ReadsFiles (h : Past) (i : Input) : Prop :=
  ∀ path data data', i.files.lookup path = some data →
    h.Answered (.readFile (.str path)) data' → data' = data

/-- The subprocess of every thread has left its lines and its files, and the files that were read are
those. -/
def Opened (env : Env) (py : Python) (s : World) (h : Pasts) : Prop :=
  ∀ p executor context files lines, (h p).Answered (.spawn executor context files) lines →
    ∃ i, RunsToyTrainer env py (.spawn executor context files) i s ∧ i.lines = lines ∧
      s.disk p = i.files ∧ Past.ReadsFiles (h p) i

section Opened

variable {env : Env} {py : Python} {p : ℕ} {s s' : World} {h h' : Pasts}

/-- A change that leaves the files alone, and adds no answer. -/
theorem Opened.frame (ho : Opened env py s h) (hdisk : s'.disk = s.disk)
    (hanswers : ∀ q op (a : op.Ret), (h' q).Answered op a → (h q).Answered op a) :
    Opened env py s' h' := by
  intro q executor context files lines hspawn
  obtain ⟨i, hruns, hlines, hfiles, hreads⟩ := ho q executor context files lines (hanswers q _ _ hspawn)
  refine ⟨i, ?_, hlines, hdisk ▸ hfiles, fun path data data' hdata hread => ?_⟩
  · cases executor <;> exact hruns
  · exact hreads path data data' hdata (hanswers q _ _ hread)

/-- Nobody reads a file before the subprocess. -/
theorem not_read_before_spawn (hk : Knows env s h) {executor : Executor} {context : Dict}
    {files : List (String × Bytes)} (hop : Past.InOrder (h p) (.spawn executor context files))
    {path : Json} {data : Bytes} (hread : (h p).Answered (.readFile path) data) : False := by
  obtain ⟨executor', context', files', lines, hspawn⟩ := hk.justified (.of_answered hread)
  obtain hzero | hless := hop
  · cases hzero
  · exact absurd (hless _ hspawn) (lt_irrefl _)

/-- **Every statement reads the files that the subprocess has left.** -/
theorem Opened.perform (ho : Opened env py s h) (hk : Knows env s h) {op : Op}
    (hop : Past.Disciplined env (h p) op) {i : Input} (hruns : RunsToyTrainer env py op i s) :
    Opened env py (op.perform env p i s).1 (h.add p ⟨op, (op.perform env p i s).2⟩) := by
  intro q executor context files lines hspawn
  obtain ⟨rfl, hnew⟩ | hold := Histories.answered_add hspawn
  · -- the subprocess that has just been started
    obtain ⟨rfl, hanswer⟩ := Sigma.mk.inj_iff.mp hnew
    have hlines : i.lines = lines := (Except.ok.inj (eq_of_heq hanswer)).symm
    refine ⟨i, ?_, hlines, Function.update_self _ _ _, fun path data data' _ hread => ?_⟩
    · cases executor <;> exact hruns
    · obtain ⟨_, heq⟩ | hread := Histories.answered_add hread
      · cases heq
      · exact (not_read_before_spawn hk hop.1 hread).elim
  · obtain ⟨i₀, hruns₀, hlines, hfiles, hreads⟩ := ho q executor context files lines hold
    by_cases hstarts : ∃ executor' context' files', op = .spawn executor' context' files'
    · obtain ⟨executor', context', files', rfl⟩ := hstarts
      -- a thread has one subprocess
      have hother : q ≠ p := by
        rintro rfl
        obtain hzero | hless := hop.1
        · cases hzero
        · exact absurd (hless _ hold) (lt_irrefl _)
      refine ⟨i₀, ?_, hlines, (Function.update_of_ne hother _ _).trans hfiles, ?_⟩
      · cases executor <;> exact hruns₀
      · intro path data data' hdata hread
        obtain ⟨rfl, _⟩ | hread := Histories.answered_add hread
        · exact absurd rfl hother
        · exact hreads path data data' hdata hread
    · push Not at hstarts
      have hdisk : (op.perform env p i s).1.disk = s.disk :=
        perform_disk env p i s fun executor' context' files' => hstarts executor' context' files'
      refine ⟨i₀, ?_, hlines, (congrFun hdisk q).trans hfiles, fun path data data' hdata hread => ?_⟩
      · cases executor <;> exact hruns₀
      · obtain ⟨rfl, hnew⟩ | hread := Histories.answered_add hread
        · obtain ⟨rfl, hanswer⟩ := Sigma.mk.inj_iff.mp hnew
          have hfile : s.fileOf q (.str path) = some data := by
            unfold World.fileOf
            rw [hfiles]
            exact hdata
          have hresult : ((Op.readFile (.str path)).perform env q i s).2 = .ok data := by
            simp [Op.perform, hfile, World.read]
          exact Except.ok.inj ((eq_of_heq hanswer).trans hresult)
        · exact hreads path data data' hdata hread

theorem opened_invariant (env : Env) (py : Python) :
    HistoryInvariant (M := platform env) (Past.Disciplined env) (Opened env py) (Knows env)
      (RunsToyTrainer env py) where
  perform _ _ _ _ _ _ hk ho hop hruns := ho.perform hk hop hruns
  fault _ _ _ _ _ _ ho _ := ho.frame rfl fun _ _ _ => Histories.answered_of_fault
  halt _ _ _ _ ho := ho.frame rfl fun _ _ _ => id
  ambient a s _ _ ho := by
    refine ho.frame ?_ fun _ _ _ => id
    show (s.beat env a.1 a.2).disk = s.disk
    rw [beat_frame]

theorem opened_of_reaches {es : List (SysEvent env)} {c : System env} (h : Reaches s es c)
    (htoy : Runs.Always Config.step (Config.AtStep (RunsToyTrainer env py))
      ({ shared := s } : System env) es) :
    Opened env py c.shared (pasts env s es) :=
  (opened_invariant env py).run (disciplined_program env) (fun _ _ _ _ _ ha => by cases ha)
    (fun fs m _ hm => knows_of_reaches ⟨h.1, hm⟩) htoy h.2

end Opened

/-! ### Checking an output -/

/-- What a pass of the toy trainer is given. -/
structure ToyTrainer.Pass where
  host : Host
  context : Dict
  files : List (String × Bytes)

namespace ToyTrainer.Pass

variable {env : Env} {pass : Pass}

/-- The input has what the pass leaves behind after some of its actions. -/
def Prints (env : Env) (pass : Pass) (i : Input) : Prop :=
  ∃ acts, acts <+: (trainingMain pass.host pass.context
      (ToyTrainer.run env .standard pass.host pass.files pass.context)).trace ∧
    i.lines = (acts.filterMap Action.event?).map (fun event => .json (.obj event)) ∧
    i.files = (acts.filterMap Action.file?).reverse

theorem prints_nil {i : Input} (hlines : i.lines = []) (hfiles : i.files = []) :
    pass.Prints env i := ⟨[], List.nil_prefix, hlines, hfiles⟩

theorem leaves {i : Input} (h : pass.Prints env i) :
    ToyTrainer.Leaves env .standard pass.context pass.files i := by
  obtain ⟨acts, hprefix, hlines, hfiles⟩ := h
  refine ⟨pass.host, acts, hprefix, ?_, hfiles⟩
  rw [hlines, List.filterMap_map]
  exact congrFun List.filterMap_eq_map _

/-- A subprocess of the trainer is given what the pass is given. -/
def check (pass : Pass) : Op → Bool
  | .spawn .training context files =>
      Dict.same context pass.context && decide (files = pass.files)
  | _ => true

end ToyTrainer.Pass

/-- **Threads that have what a pass leaves behind run the toy trainer**, if they give it what the pass is
given. -/
theorem runsToyTrainer_of_check {env : Env} (s : World) (es : List (SysEvent env))
    (pass : ℕ → ToyTrainer.Pass)
    (hinputs : ∀ e ∈ es, SuppliedWith (fun p i => (pass p).Prints env i) e)
    (h : Runs.Always Config.step (PendingMeets fun p => (pass p).check)
      ({ shared := s } : System env) es) :
    Runs.Always Config.step (Config.AtStep (RunsToyTrainer env .standard))
      ({ shared := s } : System env) es := by
  refine atStep_of_supplied (fun p op i s hprints hcheck => ?_) hinputs h
  cases op
  case spawn executor context files =>
      cases executor with
      | evaluation | simulated => trivial
      | training =>
          obtain ⟨hcontext, hfiles⟩ := Bool.and_eq_true_iff.mp hcheck
          obtain rfl := Dict.eq_of_same hcontext
          obtain rfl := of_decide_eq_true hfiles
          exact fun _ => ToyTrainer.Pass.leaves hprints
  all_goals trivial

end PosttrainPlatform
