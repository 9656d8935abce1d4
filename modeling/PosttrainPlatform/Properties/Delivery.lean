import PosttrainPlatform.Properties.EvaluationRuns

/-!
# What a completed evaluation has recorded

The executor ignores what its writes return.  A write that is refused shows that the attempt is lost,
though, and then marking the run is refused as well: when a run is SUCCEEDED, some attempt has printed
its output to the end, and every event of it has its row.
-/

namespace PosttrainPlatform

open Programs

/-- The row that an event reports is in the database. -/
structure World.Recorded (env : Env) (s : World) (runId : RunId) (event : Dict) : Prop where
  result : event.get? "event" = some (.str "result") → ∃ exampleId,
    event.get? "example_id" = some exampleId ∧
      (s.db.evaluationResults.lookup (runId, env.pyStr exampleId)).isSome
  metric : event.get? "event" = some (.str "metric") → ∃ metricName name part,
    event.get? "metric_name" = some metricName ∧ env.textColumn metricName = some name ∧
      env.textColumn (event.getD "split" (.str "all")) = some part ∧
      (s.db.evaluationMetrics.lookup (runId, name, part)).isSome

/-- An evaluation subprocess of the run has printed its output to the end, and every event has its
row. -/
def Delivered (env : Env) (s : World) (h : Pasts) (runId : RunId) : Prop :=
  ∃ p t run context files lines, t.runId = runId ∧
    Past.StartsEvaluation (h p) t run context files ∧
    (h p).Answered (.spawn .evaluation context files) lines ∧
    (∃ e : Dict, .json (.obj e) ∈ lines ∧ e.get? "event" = some (.str "final")) ∧
    ∀ e, .json (.obj e) ∈ lines → s.Recorded env runId e

/-- **Runs that are SUCCEEDED have been delivered.** -/
def AllDelivered (env : Env) (s : World) (h : Pasts) : Prop :=
  ∀ runId run, s.db.evaluationRuns.lookup runId = some run → run.status = .succeeded →
    Delivered env s h runId

section Invariant

variable {env : Env} {p : ℕ} {s s' : World} {h h' : Pasts} {runId : RunId}

theorem World.Recorded.grow {event : Dict} (hr : s.Recorded env runId event)
    (hgrow : s.Grows s') : s'.Recorded env runId event where
  result hkind := by
    obtain ⟨exampleId, hid, hrow⟩ := hr.result hkind
    exact ⟨exampleId, hid, hgrow.records.evaluationResults.isSome hrow⟩
  metric hkind := by
    obtain ⟨metricName, name, part, hmetric, hname, hpart, hrow⟩ := hr.metric hkind
    exact ⟨metricName, name, part, hmetric, hname, hpart,
      hgrow.records.evaluationMetrics.isSome hrow⟩

theorem Delivered.grow (hd : Delivered env s h runId) (hgrow : s.Grows s')
    (hsub : ∀ q, h q ⊆ h' q) : Delivered env s' h' runId := by
  obtain ⟨p, t, run, context, files, lines, hrun, hstart, hspawn, hfinal, hrows⟩ := hd
  exact ⟨p, t, run, context, files, lines, hrun, hstart.mono (hsub p), hspawn.mono (hsub p), hfinal,
    fun e he => (hrows e he).grow hgrow⟩

/-- **What a live attempt has handled is recorded.** -/
theorem Knows.recorded (hk : Knows env s h) {t : Ticket} {event : Dict}
    (hhandled : Past.HandledEvaluation env (h p) t event)
    (howns : s.db.Owns t.jobId t.workerId t.attemptNumber) : s.Recorded env t.runId event where
  result hkind := by
    obtain ⟨exampleId, b, hid, hrecord⟩ := hhandled.result hkind
    obtain hlost | hrow := hk.told p _ _ hrecord
    · exact absurd hlost (not_lost_of_owns howns)
    · exact ⟨exampleId, hid, hrow⟩
  metric hkind := by
    obtain ⟨metricName, metricValue, b, hname, _, hrecord⟩ := hhandled.metric hkind
    obtain hlost | ⟨name, part, hcolumn, hpart, hrow⟩ := hk.told p _ _ hrecord
    · exact absurd hlost (not_lost_of_owns howns)
    · exact ⟨metricName, name, part, hname, hcolumn, hpart, hrow⟩

/-- An evaluation that a live attempt has handled to its end is delivered. -/
theorem Knows.delivered (hk : Knows env s h) {t : Ticket} (he : Past.Evaluated env (h p) t)
    (howns : s.db.Owns t.jobId t.workerId t.attemptNumber) : Delivered env s h t.runId := by
  obtain ⟨run, context, files, lines, hstart, hspawn, hhandled, hfinal⟩ := he
  exact ⟨p, t, run, context, files, lines, rfl, hstart, hspawn, hfinal,
    fun e he => hk.recorded (hhandled e he) howns⟩

/-- **Marking a run as SUCCEEDED finds it delivered.** -/
theorem AllDelivered.perform (hd : AllDelivered env s h) (hk : Knows env s h) {op : Op}
    (hop : Past.Disciplined env (h p) op) (i : Input) :
    AllDelivered env (op.perform env p i s).1 (h.add p ⟨op, (op.perform env p i s).2⟩) := by
  intro runId run hrun hs
  have hbefore : Delivered env s h runId := by
    obtain hold | ⟨row₁, rfl, rfl⟩ | ⟨j, w, k, setCompleted, row₀, rfl, howns, _, _⟩ :=
      (perform_records env p i s op).evaluationRuns hrun
    · exact hd runId run hold hs
    · have hqueued : row₁.status = .queued := hop.2.1
      rw [hs] at hqueued
      cases hqueued
    · exact hk.delivered (t := ⟨j, w, k, runId⟩) (hop.2.2.2 hs) howns
  exact hbefore.grow (perform_grows env p i s op) fun q => Histories.subset_add h p q _

theorem delivered_invariant (env : Env) :
    HistoryInvariant (M := platform env) (Past.Disciplined env) (AllDelivered env) (Knows env)
      fun _ _ _ => True where
  perform _ i _ _ _ _ hk hd hop _ := hd.perform hk hop i
  fault p _ _ _ h _ hd _ runId run hrun hs :=
    (hd runId run hrun hs).grow (.refl _) fun q => Histories.subset_add h p q _
  halt p s _ _ hd runId run hrun hs :=
    (hd runId run hrun hs).grow (s.stopHeartbeat_grows p) fun _ _ hd => hd
  ambient a s h _ hd := by
    intro runId run hrun hs
    have hrun : (s.beat env a.1 a.2).db.evaluationRuns.lookup runId = some run := hrun
    rw [beat_frame] at hrun
    exact (hd runId run hrun hs).grow (beat_grows env s a.1 a.2) fun _ _ hd => hd

/-- **Every completed run of every state that is reached is delivered.** -/
theorem delivered_of_reaches {s : World} {es : List (SysEvent env)} {c : System env}
    (h : Reaches s es c) : AllDelivered env c.shared (pasts env s es) := by
  refine (delivered_invariant env).run (disciplined_program env) (fun runId run hrun => ?_)
    (fun fs m _ hm => knows_of_reaches ⟨h.1, hm⟩)
    (Runs.always_of_forall (Config.atStep_of_forall fun _ _ _ => trivial) _ es) h.2
  rw [h.1.db] at hrun
  cases hrun

end Invariant

end PosttrainPlatform
