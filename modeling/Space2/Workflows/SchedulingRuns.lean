import Space2.Workflows.Scheduling

/-!
# Scheduling over whole runs

Every program of the runner but `cancel-run` keeps `Scheduled` at each of its writes. On an
acyclic definition the reset of selected targets never fires: a step that has just succeeded was
running, so none of the targets it selects can have left `pending`.
-/

namespace Space2.Workflows
open Base Base.Durable

variable {definition : Definition} {executor : Executor} {resumed : String → Nat} {s : State}
  {id : String}

theorem step_of_status {run : Run} {status : StepStatus} (h : run.status? id = some status) :
    ∃ held, run.step id = some held ∧ held.status = status :=
  Option.map_eq_some_iff.mp h

theorem findStep_id {step : Step} (h : definition.findStep id = some step) : step.id = id := by
  have hmem := List.mem_of_getLast? h
  simpa using (List.mem_filter.mp hmem).2

section Moves

/-- A pending step that is marked ready or skipped. -/
theorem Scheduled.leavePending (h : Scheduled definition executor resumed s) {held : RunStep}
    (hheld : s.run.step id = some held) (hpending : held.status = .pending)
    {updates : StepUpdate} (hattempt : updates.attempt = none)
    (hnot : updates.status ≠ .cancelled)
    (hpredecessors : PredecessorsSettled definition s.run id) :
    Scheduled definition executor resumed (s.upsertStep id updates) := by
  have hbefore := h.attempts id held hheld
  rw [hpending] at hbefore
  have hspare : s.calls.countP (Call.runs id) + 1 ≤ held.attempt + 1 := hbefore
  refine h.upsertStep hheld (by rw [hpending]; rfl) (fun _ _ _ => hpredecessors) ?_ ?_
    fun hc => absurd hc hnot
  · rw [RunStep.update_attempt, hattempt, Option.getD_none]
    split_ifs <;> omega
  · rw [RunStep.update_attempt, hattempt, Option.getD_none]
    exact h.limits id held hheld

/-- A step under way that ends, or waits. -/
theorem Scheduled.leaveRunning (h : Scheduled definition executor resumed s) {held : RunStep}
    (hheld : s.run.step id = some held) (hrunning : held.status = .running)
    {updates : StepUpdate} (hattempt : updates.attempt = none)
    (hstatus : runnable updates.status = false)
    (hcancelled : updates.status = .cancelled → AnsweredCancelled executor s.calls id) :
    Scheduled definition executor resumed (s.upsertStep id updates) := by
  have hbefore := h.attempts id held hheld
  refine h.upsertStep hheld (by rw [hrunning]; rfl) (fun hp => ?_) ?_ ?_ hcancelled
  · rw [hrunning] at hp
    cases hp
  · rw [RunStep.update_attempt, hattempt, Option.getD_none, hstatus]
    simp only [Bool.false_eq_true, if_false]
    omega
  · rw [RunStep.update_attempt, hattempt, Option.getD_none]
    exact h.limits id held hheld

theorem Scheduled.appendPlain (h : Scheduled definition executor resumed s) (event : Event)
    (hplain : ∀ other, ¬ event.completes other) :
    Scheduled definition executor resumed (s.appendEvent event) :=
  h.appendEvent fun other hc => absurd hc (hplain other)

/-- The event of a step that was just updated to a successful end. -/
theorem Scheduled.appendCompleted {updates : StepUpdate}
    (h : Scheduled definition executor resumed (s.upsertStep id updates))
    (hsuccess : terminalSuccess updates.status = true) (event : Event)
    (hevent : ∀ other, event.completes other → other = id) :
    Scheduled definition executor resumed ((s.upsertStep id updates).appendEvent event) := by
  apply h.appendEvent
  intro other hc
  rw [hevent other hc]
  exact ⟨_, Run.step_upsertStep_self _ _ _, hsuccess⟩

theorem Scheduled.skip (h : Scheduled definition executor resumed s)
    (hpending : s.run.status? id = some .pending)
    (hcan : canSkipAsUnselected definition s.run id = true) (source : String) :
    Scheduled definition executor resumed (s.upsertStep id skipUpdate) ∧
      Scheduled definition executor resumed
        ((s.upsertStep id skipUpdate).appendEvent (.stepSkipped id (some source) none)) := by
  obtain ⟨held, hheld, hstatus⟩ := step_of_status hpending
  have hupdate : Scheduled definition executor resumed (s.upsertStep id skipUpdate) :=
    h.leavePending hheld hstatus rfl (by simp [skipUpdate])
    (canSkip_predecessors hcan)
  exact ⟨hupdate, hupdate.appendCompleted rfl _ fun other hc => hc.symm⟩

end Moves

section Ready

theorem markReady_spec (hacyclic : definition.Acyclic) (step : Step) :
    Spec (Scheduled definition executor resumed) (markReady definition step)
      (Scheduled definition executor resumed) (fun _ => Scheduled definition executor resumed) := by
  refine spec_of_each fun s h => spec_query_bind h fun waits hwaits => ?_
  refine spec_ite (fun htrue => ?_) fun _ => spec_pure_at h h
  have hboth : s.run.status? step.id = some .pending ∧
      stepReady definition s.run step.id = true := by
    rw [← Except.ok.inj hwaits] at htrue
    exact of_decide_eq_true htrue
  obtain ⟨held, hheld, hpending⟩ := step_of_status hboth.1
  have hupdate : Scheduled definition executor resumed
      (s.upsertStep step.id { status := .ready }) :=
    h.leavePending hheld hpending rfl (by simp) (h.ready_predecessors hacyclic hboth.2)
  have hevent := hupdate.appendPlain (.stepReady step.id) fun _ hc => hc
  exact record_spec h hupdate hevent hevent

theorem markReadySteps_spec (hacyclic : definition.Acyclic) :
    Spec (Scheduled definition executor resumed) (markReadySteps definition)
      (Scheduled definition executor resumed) (fun _ => Scheduled definition executor resumed) :=
  spec_forM (J := fun _ => Scheduled definition executor resumed) (fun _ _ h => h)
    fun _ step _ _ => markReady_spec hacyclic step

end Ready

section Skipping
variable {J : State → Prop}

/-- Whatever every single skip keeps, the skipping of a subgraph keeps. -/
theorem skipSubgraph_spec
    (hskip : ∀ s id source, J s → s.run.status? id = some .pending →
      canSkipAsUnselected definition s.run id = true → J (s.upsertStep id skipUpdate) ∧
        J ((s.upsertStep id skipUpdate).appendEvent (.stepSkipped id (some source) none)))
    (fuel : Nat) (id source : String) :
    Spec J (skipSubgraph definition fuel id source) J (fun _ => J) := by
  induction fuel generalizing id source with
  | zero => exact spec_pure fun _ h => ⟨h, h⟩
  | succ fuel ih =>
    refine spec_of_each fun s h => spec_query_bind h fun skips hskips => ?_
    refine spec_ite (fun htrue => ?_) fun _ => spec_pure_at h h
    have hboth : s.run.status? id = some .pending ∧
        canSkipAsUnselected definition s.run id = true := by
      rw [← Except.ok.inj hskips] at htrue
      exact of_decide_eq_true htrue
    obtain ⟨hupdate, hevent⟩ := hskip s id source h hboth.1 hboth.2
    refine stepUpdate_bind h (appendEvent_bind hupdate ?_)
    have hloop : Spec J ((definition.outgoingControlEdges id).forM fun edge =>
        skipSubgraph definition fuel edge.targetStepId id) J (fun _ => J) :=
      spec_forM (J := fun _ => J) (fun _ _ h => h) fun _ edge _ _ => ih edge.targetStepId id
    exact hloop.weaken (fun _ heq => heq ▸ hevent) (fun _ h => h) fun _ _ h => h

variable (definition) in
theorem skipUnselectedTargets_spec
    (hskip : ∀ s id source, J s → s.run.status? id = some .pending →
      canSkipAsUnselected definition s.run id = true → J (s.upsertStep id skipUpdate) ∧
        J ((s.upsertStep id skipUpdate).appendEvent (.stepSkipped id (some source) none)))
    (source : String) (selection : Selection) :
    Spec J (skipUnselectedTargets definition source selection) J (fun _ => J) := by
  cases selection with
  | all => exact spec_pure fun _ h => ⟨h, h⟩
  | only ids =>
    refine spec_forM (J := fun _ => J) (fun _ _ h => h) fun _ edge _ _ => ?_
    refine spec_ite (fun _ => spec_pure fun _ h => ⟨h, h⟩) fun _ => ?_
    refine spec_of_each fun s h => spec_query_bind h fun fuel _ => ?_
    exact (skipSubgraph_spec hskip fuel edge.targetStepId source).weaken (fun _ heq => heq ▸ h)
      (fun _ h => h) fun _ _ h => h

end Skipping

section Fuel

/-- Skipping a pending step leaves one pending step less. -/
theorem pendingCount_skip {run : Run} (h : run.status? id = some .pending) :
    pendingCount (run.upsertStep id skipUpdate) + 1 = pendingCount run := by
  obtain ⟨old, hold, hstatus⟩ := step_of_status h
  have hmem : (⟨id, old⟩ : Sigma fun _ : String => RunStep) ∈ run.steps.entries :=
    AList.mem_lookup_iff.mp hold
  obtain ⟨found, before, after, -, hentries, herase⟩ :=
    List.exists_of_kerase (List.mem_keys_of_mem hmem)
  have hsame : found = old := by
    have hfound : (⟨id, found⟩ : Sigma fun _ : String => RunStep) ∈ run.steps.entries := by
      rw [hentries]
      simp
    exact run.steps.nodupKeys.eq_of_mk_mem hfound hmem
  have hupdated : (run.upsertStep id skipUpdate).steps.entries =
      ⟨id, ((run.step id).getD .new).update skipUpdate⟩ :: (before ++ after) := by
    rw [← herase]
    exact AList.entries_insert
  rw [pendingCount, pendingCount, hupdated, hentries, hsame]
  simp only [List.countP_cons, List.countP_append, hstatus, RunStep.update_status, skipUpdate,
    decide_true, if_true]
  simp only [reduceCtorEq, decide_false, Bool.false_eq_true, if_false]
  omega

theorem forM_congr {α : Type} {f g : α → Runner Unit} {P : State → Prop} {l : List α}
    (hsame : ∀ a ∈ l, ∀ s, P s → f a s = g a s) (hkeep : ∀ a ∈ l, ∀ s, P s → P ((f a).final s)) :
    ∀ s, P s → l.forM f s = l.forM g s := by
  induction l with
  | nil => exact fun _ _ => rfl
  | cons a l ih =>
    intro s hs
    change (f a >>= fun _ => l.forM f) s = (g a >>= fun _ => l.forM g) s
    have hrest := ih (fun b hb => hsame b (List.mem_cons_of_mem a hb))
      (fun b hb => hkeep b (List.mem_cons_of_mem a hb)) _ (hkeep a List.mem_cons_self s hs)
    have hfirst := hsame a List.mem_cons_self s hs
    have hfinal : (g a).final s = (f a).final s := by rw [Program.final, Program.final, hfirst]
    cases hr : (f a s).result with
    | error e => rw [bind_writes_error hr, bind_writes_error (hfirst ▸ hr), hfirst]
    | ok u => rw [bind_of_ok hr, bind_of_ok (hfirst ▸ hr), hfinal, hrest, hfirst]

theorem bind_congr_at {α β : Type} {p : Runner α} {f g : α → Runner β}
    (h : ∀ a, (p s).result = .ok a → f a (p.final s) = g a (p.final s)) :
    (p >>= f) s = (p >>= g) s := by
  cases hr : (p s).result with
  | error e => rw [bind_writes_error hr, bind_writes_error hr]
  | ok a => rw [bind_of_ok hr, bind_of_ok hr, h a hr]

theorem skipSubgraph_pending (fuel bound : Nat) (source : String) :
    Spec (fun t : State => pendingCount t.run ≤ bound) (skipSubgraph definition fuel id source)
      (fun t => pendingCount t.run ≤ bound) (fun _ t => pendingCount t.run ≤ bound) := by
  apply skipSubgraph_spec
  intro t other source ht hpending _
  have hless := pendingCount_skip hpending
  have hupdate : pendingCount (t.run.upsertStep other skipUpdate) ≤ bound := by omega
  exact ⟨hupdate, hupdate⟩

/-- The number of pending steps is enough fuel: more changes nothing. -/
theorem skipSubgraph_fuel {fuel : Nat} (h : pendingCount s.run ≤ fuel) (source : String) :
    skipSubgraph definition (fuel + 1) id source s = skipSubgraph definition fuel id source s := by
  induction fuel generalizing id source s with
  | zero =>
    have hidle : s.run.status? id ≠ some .pending := by
      intro hpending
      have hless := pendingCount_skip hpending
      omega
    simp [skipSubgraph, query, bind, next, hidle, pure]
  | succ fuel ih =>
    apply bind_congr_at
    intro skips hskips
    cases skips with
    | false => rfl
    | true =>
      have hboth := of_decide_eq_true (Except.ok.inj hskips)
      have hless := pendingCount_skip hboth.1
      have hpending : pendingCount (s.run.upsertStep id skipUpdate) ≤ fuel := by omega
      simp only [if_true]
      apply bind_congr_at
      intro _ hupdate
      apply bind_congr_at
      intro _ _
      apply forM_congr (P := fun t => pendingCount t.run ≤ fuel)
      · intro edge _ t ht
        exact ih ht id
      · intro edge _ t ht
        exact (skipSubgraph_pending (fuel + 1) fuel id).crash t ht _ (Program.crashes_final _ _)
      · have hsteps : (stepUpdate definition id skipUpdate).final s =
            s.upsertStep id skipUpdate := by
          have hspec : Spec (· = s) (stepUpdate definition id skipUpdate) (fun _ => True)
              (fun _ t => t = s.upsertStep id skipUpdate) := stepUpdate_spec trivial trivial rfl
          exact hspec.post s rfl _ hupdate
        change pendingCount (((stepUpdate definition id skipUpdate).final s).appendEvent
          (.stepSkipped id (some source) none)).run ≤ fuel
        rw [hsteps]
        exact hpending

end Fuel

section Success
variable {selection : Selection}

variable (definition) in
/-- A step has succeeded with this selection, and nothing it selects is completed. -/
structure Routed (id : String) (selection : Selection) (s : State) : Prop where
  source : ∃ done, s.run.step id = some done ∧ done.status = .succeeded ∧
    done.nextStepIds = some selection
  targets : ∀ edge ∈ definition.outgoingControlEdges id,
    targetSelected selection edge.targetStepId id = true →
      (s.run.status? edge.targetStepId).any terminalSuccess = false

theorem selectedTarget_succeeded {done : RunStep} (hstatus : done.status = .succeeded)
    (hnext : done.nextStepIds = some selection) (target : String) :
    selectedTarget done target id = targetSelected selection target id := by
  cases selection <;> simp [selectedTarget, targetSelected, hstatus, hnext]

/-- A skipped step is not one the succeeded step selects. -/
theorem Routed.skip {other : String} (h : Routed definition id selection s)
    (hpending : s.run.status? other = some .pending)
    (hcan : canSkipAsUnselected definition s.run other = true) :
    Routed definition id selection (s.upsertStep other skipUpdate) := by
  obtain ⟨done, hdone, hstatus, hnext⟩ := h.source
  have hne : id ≠ other := by
    rintro rfl
    rw [Run.status?, hdone, Option.map_some, hstatus] at hpending
    cases hpending
  refine ⟨⟨done, (Run.step_upsertStep_ne hne).trans hdone, hstatus, hnext⟩, ?_⟩
  intro edge hedge hselected
  obtain ⟨hmem, hcontrol, hsource⟩ := Definition.mem_outgoing.mp hedge
  have htarget : edge.targetStepId ≠ other := by
    intro heq
    have hreach := canSkip_edge hcan (Definition.mem_inbound.mpr ⟨hmem, hcontrol, heq⟩)
    obtain ⟨before, hbefore, -, hunselected⟩ := unselectedReachable_source hreach
    rw [hsource] at hbefore hunselected
    obtain rfl := Option.some.inj (hdone.symm.trans hbefore)
    rw [selectedTarget_succeeded hstatus hnext, hselected] at hunselected
    exact Bool.noConfusion (hunselected (by simp [hstatus]))
  have hsame : (s.upsertStep other skipUpdate).run.status? edge.targetStepId =
      s.run.status? edge.targetStepId :=
    congrArg (Option.map RunStep.status) (Run.step_upsertStep_ne htarget)
  rw [hsame]
  exact h.targets edge hedge hselected

theorem Routed.appendEvent (h : Routed definition id selection s) (event : Event) :
    Routed definition id selection (s.appendEvent event) := ⟨h.source, h.targets⟩

/-- A step that is not settled cannot have a completed target. -/
theorem Scheduled.targets_open (h : Scheduled definition executor resumed s) {held : RunStep}
    (hheld : s.run.step id = some held) (hopen : settled held.status = false) {edge : Edge}
    (hedge : edge ∈ definition.outgoingControlEdges id) :
    (s.run.status? edge.targetStepId).any terminalSuccess = false := by
  obtain ⟨hmem, hcontrol, hsource⟩ := Definition.mem_outgoing.mp hedge
  cases htarget : s.run.step edge.targetStepId with
  | none => simp [Run.status?, htarget]
  | some found =>
    have hstatus : s.run.status? edge.targetStepId = some found.status := by
      rw [Run.status?, htarget, Option.map_some]
    rw [hstatus, Option.any_some]
    by_contra hdone
    have hsuccess : terminalSuccess found.status = true := by simpa using hdone
    obtain ⟨before, hbefore, hset⟩ := h.predecessors _ found htarget
      (by rintro hc; simp [hc, terminalSuccess] at hsuccess)
      (by rintro hc; simp [hc, terminalSuccess] at hsuccess) id
      ⟨edge, hmem, hcontrol, hsource, rfl⟩
    obtain rfl := Option.some.inj (hheld.symm.trans hbefore)
    exact Bool.noConfusion (hopen.symm.trans hset)

theorem resetTarget_spec {edge : Edge} (hedge : edge ∈ definition.outgoingControlEdges id) :
    Spec (fun t => Scheduled definition executor resumed t ∧ Routed definition id selection t)
      (resetTarget definition id selection edge) (Scheduled definition executor resumed)
      (fun _ t => Scheduled definition executor resumed t ∧ Routed definition id selection t) := by
  refine spec_of_each fun s h => spec_query_bind h.1 fun resets hresets => ?_
  refine spec_ite (fun htrue => ?_) fun _ => spec_pure_at h.1 h
  rw [← Except.ok.inj hresets] at htrue
  obtain ⟨hselected, hdone⟩ := of_decide_eq_true htrue
  rw [h.2.targets edge hedge hselected] at hdone
  exact Bool.noConfusion hdone

theorem applySuccess_spec (hacyclic : definition.Acyclic)
    (h : Scheduled definition executor resumed s) {held : RunStep}
    (hheld : s.run.step id = some held) (hrunning : held.status = .running) (outcome : Outcome) :
    Spec (· = s) (applySuccess definition id outcome) (Scheduled definition executor resumed)
      (fun _ => Scheduled definition executor resumed) := by
  have hupdate : Scheduled definition executor resumed (s.upsertStep id {
      status := .succeeded
      output := some (outcome.output.getD .empty)
      state := some (outcome.state.getD .empty)
      nextStepIds := some (routingSelection outcome)
      finishedAt := true }) :=
    h.leaveRunning hheld hrunning rfl rfl (by simp)
  have hevent := hupdate.appendCompleted rfl (.stepSucceeded id) fun _ hc => hc.symm
  have hrouted : Routed definition id (routingSelection outcome) ((s.upsertStep id {
      status := .succeeded
      output := some (outcome.output.getD .empty)
      state := some (outcome.state.getD .empty)
      nextStepIds := some (routingSelection outcome)
      finishedAt := true }).appendEvent (.stepSucceeded id)) := by
    refine ⟨⟨_, Run.step_upsertStep_self .., rfl, rfl⟩, fun edge hedge _ => ?_⟩
    obtain ⟨hmem, hcontrol, hsource⟩ := Definition.mem_outgoing.mp hedge
    have hne : edge.targetStepId ≠ id := (hacyclic.ne ⟨edge, hmem, hcontrol, hsource, rfl⟩).symm
    rw [← h.targets_open hheld (by rw [hrunning]; rfl) hedge]
    exact congrArg (fun found => Option.any terminalSuccess (Option.map RunStep.status found))
      (Run.step_upsertStep_ne hne)
  refine stepUpdate_bind h (appendEvent_bind hupdate ?_)
  have hskipping := skipUnselectedTargets_spec definition
    (J := fun t => Scheduled definition executor resumed t ∧
      Routed definition id (routingSelection outcome) t)
    (fun t other source ht hpending hcan =>
      have hsched := ht.1.skip hpending hcan source
      have hroute := ht.2.skip hpending hcan
      ⟨⟨hsched.1, hroute⟩, ⟨hsched.2, hroute.appendEvent _⟩⟩) id (routingSelection outcome)
  refine spec_bind (hskipping.weaken (fun _ heq => heq ▸ ⟨hevent, hrouted⟩) (fun _ ht => ht.1)
    fun _ _ ht => ht) fun _ => ?_
  have hresets := spec_forM (l := definition.outgoingControlEdges id)
    (f := resetTarget definition id (routingSelection outcome))
    (I := Scheduled definition executor resumed)
    (J := fun _ t => Scheduled definition executor resumed t ∧
      Routed definition id (routingSelection outcome) t) (fun _ _ ht => ht.1)
    fun done edge rest hsplit => resetTarget_spec (by rw [hsplit]; simp)
  exact hresets.weaken (fun _ ht => ht) (fun _ ht => ht) fun _ _ ht => ht.1

end Success

section Outcomes

theorem failStep_spec (h : Scheduled definition executor resumed s) {held : RunStep}
    (hheld : s.run.step id = some held) (hrunning : held.status = .running) (outcome : Outcome) :
    Spec (· = s) (failStep definition id outcome) (Scheduled definition executor resumed)
      (fun _ => Scheduled definition executor resumed) := by
  have hupdate : Scheduled definition executor resumed (s.upsertStep id {
      status := .failed, error := some (outcomeError outcome), finishedAt := true }) :=
    h.leaveRunning hheld hrunning rfl rfl (by simp)
  have hevent := hupdate.appendPlain (.stepFailed id (outcomeError outcome)) fun _ hc => hc
  exact record_spec h hupdate hevent hevent

theorem applySkip_spec (h : Scheduled definition executor resumed s) {held : RunStep}
    (hheld : s.run.step id = some held) (hrunning : held.status = .running) (outcome : Outcome) :
    Spec (· = s) (applySkip definition id outcome) (Scheduled definition executor resumed)
      (fun _ => Scheduled definition executor resumed) := by
  have hupdate : Scheduled definition executor resumed (s.upsertStep id {
      status := .skipped
      reason := outcome.reason
      nextStepIds := some (routingSelection outcome)
      finishedAt := true }) :=
    h.leaveRunning hheld hrunning rfl rfl (by simp)
  have hevent := hupdate.appendCompleted rfl (.stepSkipped id none outcome.reason)
    fun _ hc => hc.symm
  refine stepUpdate_bind h (appendEvent_bind hupdate ?_)
  exact (skipUnselectedTargets_spec definition (J := Scheduled definition executor resumed)
    (fun t other source ht hpending hcan => ht.skip hpending hcan source) id
    (routingSelection outcome)).weaken (fun _ heq => heq ▸ hevent) (fun _ ht => ht) fun _ _ ht => ht

theorem applyWait_spec (h : Scheduled definition executor resumed s) {held : RunStep}
    (hheld : s.run.step id = some held) (hrunning : held.status = .running) (outcome : Outcome) :
    Spec (· = s) (applyWait definition id outcome) (Scheduled definition executor resumed)
      (fun _ => Scheduled definition executor resumed) := by
  have hupdate : Scheduled definition executor resumed (s.upsertStep id {
      status := .waiting
      wait := some ⟨outcome.waitKind, outcome.request⟩
      state := some (outcome.state.getD .empty) }) :=
    h.leaveRunning hheld hrunning rfl rfl (by simp)
  have hevent := hupdate.appendPlain (.stepWaiting id outcome.waitKind) fun _ hc => hc
  exact record_spec h hupdate hevent hevent

theorem applyCancel_spec (h : Scheduled definition executor resumed s) {held : RunStep}
    (hheld : s.run.step id = some held) (hrunning : held.status = .running)
    (hanswered : AnsweredCancelled executor s.calls id) (outcome : Outcome) :
    Spec (· = s) (applyCancel definition id outcome) (Scheduled definition executor resumed)
      (fun _ => Scheduled definition executor resumed) := by
  have hupdate : Scheduled definition executor resumed (s.upsertStep id {
      status := .cancelled, output := some (outcome.output.getD .empty), finishedAt := true }) :=
    h.leaveRunning hheld hrunning rfl rfl fun _ => hanswered
  have hevent := hupdate.appendPlain (.stepCancelled id none) fun _ hc => hc
  exact record_spec h hupdate hevent hevent

/-- A retry goes back to `ready` with one more attempt, as long as the limit admits it. -/
theorem applyRetry_spec (h : Scheduled definition executor resumed s) {step : Step}
    (hstep : definition.findStep step.id = some step) {held : RunStep}
    (hheld : s.run.step step.id = some held) (hrunning : held.status = .running)
    (outcome : Outcome) :
    Spec (· = s) (applyRetry definition step outcome) (Scheduled definition executor resumed)
      (fun _ => Scheduled definition executor resumed) := by
  refine spec_query_bind h fun found hfound => ?_
  obtain rfl : some held = found := hheld.symm.trans (Except.ok.inj hfound)
  refine spec_ite (fun hlimit => ?_) fun _ => failStep_spec h hheld hrunning _
  have hattempts := h.attempts step.id held hheld
  have hbound : held.attempt + 1 ≤ attemptLimit definition step.id := by
    simp only [attemptLimit, hstep, Option.map_some, Option.getD_some]
    simp only [Option.map_some, Option.getD_some] at hlimit
    omega
  have hupdate : Scheduled definition executor resumed (s.upsertStep step.id {
      status := .ready
      attempt := some (held.attempt + 1)
      state := some (outcome.state.getD .empty)
      retryAfterMs := outcome.delayMs }) := by
    refine h.upsertStep hheld (by rw [hrunning]; rfl) (fun hp => ?_) ?_ hbound (by simp)
    · rw [hrunning] at hp
      cases hp
    · change _ + 1 ≤ held.attempt + 1 + 1
      omega
  have hevent := hupdate.appendPlain
    (.stepRetried step.id (held.attempt + 1) outcome.delayMs) fun _ hc => hc
  exact record_spec h hupdate hevent hevent

theorem applyOutcome_spec (hacyclic : definition.Acyclic)
    (h : Scheduled definition executor resumed s) {step : Step}
    (hstep : definition.findStep step.id = some step) {held : RunStep}
    (hheld : s.run.step step.id = some held) (hrunning : held.status = .running)
    {returned : Returned} (hanswered : (normalizeOutcome returned).status = .cancelled →
      AnsweredCancelled executor s.calls step.id) :
    Spec (· = s) (applyOutcome definition step returned) (Scheduled definition executor resumed)
      (fun _ => Scheduled definition executor resumed) := by
  unfold applyOutcome applyNormalized
  split
  next => exact applySuccess_spec hacyclic h hheld hrunning _
  next => exact applySkip_spec h hheld hrunning _
  next => exact applyWait_spec h hheld hrunning _
  next => exact applyRetry_spec h hstep hheld hrunning _
  next hstatus => exact applyCancel_spec h hheld hrunning (hanswered hstatus) _
  next => exact failStep_spec h hheld hrunning _
  next => exact spec_pure_at h h

end Outcomes

section Execution

theorem updateRunStatus_spec {status : RunStatus} {output error : Option Lua}
    (h : Scheduled definition executor resumed s) :
    Spec (· = s) (updateRunStatus status output error) (Scheduled definition executor resumed)
      (fun _ => Scheduled definition executor resumed) :=
  spec_write fun _ heq => heq ▸ ⟨h, h.updateRun .., h.updateRun ..⟩

theorem invoke_bind {α : Type} {call : Call} {k : Returned → Runner α} {I : State → Prop}
    {Q : α → State → Prop} (hI : I s) (hcall : I (s.addCall call))
    (h : ∀ returned, executor.respond (s.addCall call).calls = .ok returned →
      Spec (· = s.addCall call) (k returned) I Q) :
    Spec (· = s) (invoke executor call >>= k) I Q := by
  refine spec_bind (R := fun returned t => t = s.addCall call ∧
    executor.respond (s.addCall call).calls = .ok returned) ?_ fun returned => ?_
  · exact spec_write_bind hI (spec_query_at hcall fun returned hr => ⟨rfl, hr⟩)
  · refine spec_of_each fun t ht => ?_
    rw [ht.1]
    exact h returned ht.2

theorem executeReadyStep_spec (hacyclic : definition.Acyclic)
    (h : Scheduled definition executor resumed s) (hready : s.run.status? id = some .ready) :
    Spec (· = s) (executeReadyStep definition executor id)
      (Scheduled definition executor resumed) (fun _ => Scheduled definition executor resumed) := by
  obtain ⟨held, hheld, hstatus⟩ := step_of_status hready
  refine spec_query_bind h fun step hfind => ?_
  have hstep : definition.findStep id = some step := by
    cases hf : definition.findStep id with
    | none => simp [hf] at hfind
    | some found => simpa [hf] using hfind
  obtain rfl := findStep_id hstep
  refine spec_query_bind h fun input _ => ?_
  have hspare : s.calls.countP (Call.runs step.id) + 1 ≤ held.attempt + 1 := by
    have hattempts := h.attempts step.id held hheld
    rw [hstatus] at hattempts
    exact hattempts
  have hupdate : Scheduled definition executor resumed
      (s.upsertStep step.id { status := .running, input := some input }) := by
    refine h.upsertStep hheld (by rw [hstatus]; rfl) (fun hp => ?_) ?_
      (h.limits step.id held hheld) (by simp)
    · rw [hstatus] at hp
      cases hp
    · change _ + 0 ≤ held.attempt + 1
      omega
  have hevent := hupdate.appendPlain (.stepStarted step.id false) fun _ hc => hc
  refine stepUpdate_bind h (appendEvent_bind hupdate ?_)
  refine spec_query_bind hevent fun t ht => ?_
  obtain rfl := Except.ok.inj ht
  have hrunning : ((s.upsertStep step.id { status := .running, input := some input }).appendEvent
      (.stepStarted step.id false)).run.step step.id =
      some (held.update { status := .running, input := some input }) := by
    refine (Run.step_upsertStep hheld _ _).trans ?_
    rw [if_pos rfl]
  have hcall := hevent.addCall
    (.run step.id input (stateOf (((s.upsertStep step.id
      { status := .running, input := some input }).appendEvent
        (.stepStarted step.id false)).run.step step.id))
      ((s.upsertStep step.id { status := .running, input := some input }).appendEvent
        (.stepStarted step.id false)).run) hrunning rfl
    (fun other snapshot hexec => ⟨hexec.1.symm, hexec.2.symm⟩)
    (fun other hruns => ⟨(of_decide_eq_true hruns).symm, hspare⟩)
    (fun other hresumes => Bool.noConfusion hresumes)
  refine invoke_bind hevent hcall fun returned hreturned => ?_
  exact applyOutcome_spec hacyclic hcall hstep hrunning rfl fun hcancel =>
    ⟨_, _, _, returned, List.prefix_rfl, ⟨rfl, rfl⟩, hreturned, hcancel⟩

theorem tickLoop_spec (hacyclic : definition.Acyclic) (left : Nat) :
    Spec (Scheduled definition executor resumed) (tickLoop definition executor left)
      (Scheduled definition executor resumed) (fun _ => Scheduled definition executor resumed) := by
  induction left with
  | zero => exact spec_pure fun _ h => ⟨h, h⟩
  | succ left ih =>
    refine spec_bind (markReadySteps_spec hacyclic) fun _ => spec_of_each fun s h => ?_
    refine spec_query_bind h fun next hnext => ?_
    cases next with
    | none => exact spec_pure_at h h
    | some id =>
      have hready : s.run.status? id = some .ready := by
        have hfound := List.find?_some (Except.ok.inj hnext)
        exact of_decide_eq_true hfound
      exact spec_bind (executeReadyStep_spec hacyclic h hready) fun _ => ih

theorem finishRunIfComplete_spec (h : Scheduled definition executor resumed s) :
    Spec (· = s) finishRunIfComplete (Scheduled definition executor resumed)
      (fun _ => Scheduled definition executor resumed) := by
  refine spec_query_bind h fun run _ => ?_
  refine spec_ite (fun _ => ?_) fun _ => spec_ite (fun _ => ?_) fun _ => spec_ite (fun _ => ?_)
    fun _ => spec_ite (fun _ => ?_) fun _ => spec_pure_at h h
  all_goals exact appendEvent_bind h (updateRunStatus_spec (h.appendPlain _ fun _ hc => hc))

theorem settleRun_spec (h : Scheduled definition executor resumed s) :
    Spec (· = s) settleRun (Scheduled definition executor resumed)
      (fun _ => Scheduled definition executor resumed) := by
  refine spec_query_bind h fun run _ => spec_ite (fun _ => ?_) fun _ => finishRunIfComplete_spec h
  exact appendEvent_bind h (updateRunStatus_spec (h.appendPlain _ fun _ hc => hc))

theorem startIfQueued_spec :
    Spec (Scheduled definition executor resumed) startIfQueued
      (Scheduled definition executor resumed) (fun _ => Scheduled definition executor resumed) := by
  refine spec_of_each fun s h => spec_query_bind h fun run _ => ?_
  refine spec_ite (fun _ => ?_) fun _ => spec_pure_at h h
  exact appendEvent_bind h (updateRunStatus_spec (h.appendPlain _ fun _ hc => hc))

theorem tickRun_spec (hacyclic : definition.Acyclic) (maxSteps : Nat) :
    Spec (Scheduled definition executor resumed) (tickRun definition executor maxSteps)
      (Scheduled definition executor resumed) (fun _ => Scheduled definition executor resumed) := by
  refine spec_bind startIfQueued_spec fun _ => spec_of_each fun s h => ?_
  refine spec_query_bind h fun run _ => spec_ite (fun _ => ?_) fun _ => spec_pure_at h h
  refine spec_bind ((tickLoop_spec hacyclic maxSteps).weaken (fun _ heq => heq ▸ h)
    (fun _ ht => ht) fun _ _ ht => ht) fun _ => ?_
  exact spec_bind (markReadySteps_spec hacyclic) fun _ => spec_of_each fun _ ht => settleRun_spec ht

/-- Resuming uses up one resumption of the step. -/
theorem resumeStep_spec (hacyclic : definition.Acyclic)
    (h : Scheduled definition executor resumed s)
    (hspare : s.calls.countP (Call.resumes id) + 1 ≤ resumed id) (waitResult : Option Lua) :
    Spec (· = s) (resumeStep definition executor id waitResult)
      (Scheduled definition executor resumed) (fun _ => Scheduled definition executor resumed) := by
  refine spec_query_bind h fun step hfind => ?_
  have hstep : definition.findStep id = some step := by
    cases hf : definition.findStep id with
    | none => simp [hf] at hfind
    | some found => simpa [hf] using hfind
  obtain rfl := findStep_id hstep
  refine spec_query_bind h fun held hwaiting => ?_
  obtain ⟨hheld, hstatus⟩ : s.run.step step.id = some held ∧ held.status = .waiting := by
    cases hfound : s.run.step step.id with
    | none => simp [hfound] at hwaiting
    | some found =>
      by_cases hw : found.status = .waiting
      · simp only [hfound, hw, if_true] at hwaiting
        obtain rfl := Except.ok.inj hwaiting
        exact ⟨rfl, hw⟩
      · simp [hfound, hw] at hwaiting
  have hrun : Scheduled definition executor resumed (s.updateRun .running none none) :=
    h.updateRun ..
  refine spec_write_bind h ?_
  have hupdate : Scheduled definition executor resumed
      ((s.updateRun .running none none).upsertStep step.id { status := .running }) := by
    refine hrun.upsertStep hheld (by rw [hstatus]; rfl) (fun hp => ?_) ?_
      (h.limits step.id held hheld) (by simp)
    · rw [hstatus] at hp
      cases hp
    · exact (Nat.le_add_right _ _).trans (h.attempts step.id held hheld)
  have hevent := hupdate.appendPlain (.stepStarted step.id true) fun _ hc => hc
  refine stepUpdate_bind hrun (appendEvent_bind hupdate ?_)
  refine spec_query_bind hevent fun t ht => ?_
  obtain rfl := Except.ok.inj ht
  have hrunning : (((s.updateRun .running none none).upsertStep step.id
      { status := .running }).appendEvent (.stepStarted step.id true)).run.step step.id =
      some (held.update { status := .running }) := by
    refine (Run.step_upsertStep hheld _ _).trans ?_
    rw [if_pos rfl]
  have hcall := hevent.addCall
    (.resume step.id waitResult held.state (((s.updateRun .running none none).upsertStep
      step.id { status := .running }).appendEvent (.stepStarted step.id true)).run) hrunning rfl
    (fun other snapshot hexec => ⟨hexec.1.symm, hexec.2.symm⟩)
    (fun other hruns => Bool.noConfusion hruns)
    (fun other hresumes => (of_decide_eq_true hresumes : step.id = other) ▸ hspare)
  refine invoke_bind hevent hcall fun returned hreturned => ?_
  refine spec_bind (applyOutcome_spec hacyclic hcall hstep hrunning rfl fun hcancel =>
    ⟨_, _, _, returned, List.prefix_rfl, ⟨rfl, rfl⟩, hreturned, hcancel⟩) fun _ => ?_
  exact spec_of_each fun _ ht => finishRunIfComplete_spec ht

end Execution

section Runs

theorem step_insertNew (steps : List Step) (start : AList fun _ : String => RunStep)
    (id : String) :
    (steps.foldl (fun entries step => entries.insert step.id .new) start).lookup id =
      if id ∈ steps.map Step.id then some .new else start.lookup id := by
  induction steps generalizing start with
  | nil => simp
  | cons step steps ih =>
    rw [List.foldl_cons, ih]
    by_cases heq : id = step.id
    · subst heq
      simp [AList.lookup_insert]
    · rw [AList.lookup_insert_ne heq]
      simp [heq]

theorem startRun_step {runId : String} {input : Lua} {held : RunStep}
    (h : (startRun definition runId input).run.step id = some held) : held = .new := by
  have hlookup := step_insertNew definition.steps ∅ id
  change _ = some held at h
  rw [Run.step, startRun, hlookup] at h
  split_ifs at h with hmem
  · exact (Option.some.inj h).symm
  · simp at h

theorem startRun_scheduled (runId : String) (input : Lua) (resumed : String → Nat) :
    Scheduled definition executor resumed (startRun definition runId input) := by
  constructor
  · intro id hid
    refine ⟨.new, ?_⟩
    have hlookup := step_insertNew definition.steps ∅ id
    rw [if_pos hid] at hlookup
    exact hlookup
  · intro id held hheld hpending
    exact absurd (by rw [startRun_step hheld]; rfl) hpending
  · intro id held hheld
    rw [startRun_step hheld]
    exact Nat.le_refl 1
  · intro id held hheld
    rw [startRun_step hheld]
    exact Nat.zero_le _
  · exact fun id => Nat.zero_le _
  · intro id event hevent hcompletes
    rw [List.mem_singleton.mp hevent] at hcompletes
    exact hcompletes.elim
  · intro id held hheld hstatus
    rw [startRun_step hheld] at hstatus
    cases hstatus
  · intro history call id snapshot hinit
    have hnil := List.prefix_nil.mp hinit
    simp at hnil

/-- One command, run to its end or interrupted. -/
theorem Scheduled.command (hacyclic : definition.Acyclic) {command : Command}
    (hcommand : command.isCancel = false) {t u : State}
    (h : Scheduled definition executor resumed t)
    (hcrash : (command.program definition executor).Crashes t u) :
    Scheduled definition executor
      (fun id => resumed id + if command.resumes id = true then 1 else 0) u := by
  cases command with
  | tick maxSteps =>
    exact ((tickRun_spec hacyclic maxSteps).crash t h u hcrash).weaken fun _ => Nat.le_add_right _ _
  | resume id waitResult =>
    have hmore : Scheduled definition executor
        (fun other => resumed other + if Command.resumes other (.resume id waitResult) = true
          then 1 else 0) t := h.weaken fun _ => Nat.le_add_right _ _
    refine (resumeStep_spec hacyclic hmore ?_ waitResult).crash t rfl u hcrash
    simpa [Command.resumes] using h.resumes id
  | cancel reason => exact Bool.noConfusion hcommand

/-- The invariant over whole runs, counting the resumptions issued. -/
theorem Runs.scheduled (hacyclic : definition.Acyclic) {commands : List Command} {runId : String}
    {input : Lua} (hruns : Runs definition executor (fun _ command => command.isCancel = false)
      commands (startRun definition runId input) s) :
    Scheduled definition executor (fun id => commands.countP (Command.resumes id)) s := by
  refine hruns.invariant (I := fun commands t =>
    Scheduled definition executor (fun id => commands.countP (Command.resumes id)) t)
    (startRun_scheduled runId input _) fun commands command t u h hallowed hcrash => ?_
  refine (h.command hacyclic hallowed hcrash).weaken fun id => ?_
  rw [List.countP_append, List.countP_singleton]

/-- On an acyclic definition, whatever the executor answers and wherever it raises: a step is
executed only over a run in which each control predecessor is succeeded or skipped, or was
cancelled by its own outcome, and in which the step itself was never completed before; and it is
run once, once more for each attempt its retry policy admits, and resumed at most as often as a
resumption was issued. -/
theorem scheduling_respects_control_graph (hacyclic : definition.Acyclic)
    {commands : List Command} {runId : String} {input : Lua}
    (hruns : Runs definition executor (fun _ command => command.isCancel = false)
      commands (startRun definition runId input) s) :
    (∀ history call id snapshot, history ++ [call] <+: s.calls → call.Executes id snapshot →
      (∀ source, definition.Controls source id → ∃ before, snapshot.step source = some before ∧
        (before.status = .succeeded ∨ before.status = .skipped ∨
          before.status = .cancelled ∧ AnsweredCancelled executor history source)) ∧
      ∀ event ∈ snapshot.events, ¬ event.completes id) ∧
    ∀ id ∈ definition.steps.map Step.id,
      s.calls.countP (Call.runs id) ≤ attemptLimit definition id + 1 ∧
      s.calls.countP (Call.resumes id) ≤ commands.countP (Command.resumes id) := by
  have hscheduled := hruns.scheduled hacyclic
  constructor
  · intro history call id snapshot hinit hexecutes
    have hsound := hscheduled.calls history call id snapshot hinit hexecutes
    refine ⟨fun source hsource => ?_, hsound.fresh⟩
    obtain ⟨before, hbefore, hstatus⟩ := hsound.predecessors source hsource
    refine ⟨before, hbefore, ?_⟩
    simpa [terminalSuccess, or_assoc] using hstatus
  · intro id hid
    obtain ⟨held, hheld⟩ := hscheduled.present id hid
    have hattempts := hscheduled.attempts id held hheld
    have hlimit := hscheduled.limits id held hheld
    exact ⟨by omega, hscheduled.resumes id⟩

/-! Two steps in a row, none of them with a retry policy. -/

def chain : Definition where
  id := "chain"
  steps := [⟨"draft", "code", .empty, none⟩, ⟨"send", "code", .empty, none⟩]
  edges := [⟨"edge", none, "draft", "send", none, none⟩]
  endpoints := by simp

theorem chain_controls {source target : String} (h : chain.Controls source target) :
    source = "draft" ∧ target = "send" := by
  obtain ⟨edge, hedge, -, rfl, rfl⟩ := h
  rw [List.mem_singleton.mp hedge]
  exact ⟨rfl, rfl⟩

theorem chain_acyclic : chain.Acyclic := by
  intro id hcycle
  have hsource : ∀ target, Relation.TransGen chain.Controls id target → target = "send" := by
    intro target hpath
    cases hpath with
    | single hlast => exact (chain_controls hlast).2
    | tail _ hlast => exact (chain_controls hlast).2
  obtain ⟨next, hfirst, -⟩ := Relation.TransGen.head'_iff.mp hcycle
  have hdraft : id = "draft" := (chain_controls hfirst).1
  have hsend : id = "send" := hsource id hcycle
  rw [hdraft] at hsend
  exact absurd hsend (by decide)

def succeedAlways : Executor where
  respond _ := .ok (.table { status := .succeeded })
  cancels := false

def chainRun : State := (tickRun chain succeedAlways 2).final (startRun chain "run" .empty)

theorem chainRun_runs : Runs chain succeedAlways (fun _ command => command.isCancel = false)
    [.tick 2] (startRun chain "run" .empty) chainRun :=
  .snoc (.nil _) rfl (Program.crashes_final _ _)

theorem scheduling_respects_control_graph_chain :
    chainRun.calls.length = 2 ∧ ∀ id ∈ chain.steps.map Step.id,
      chainRun.calls.countP (Call.runs id) ≤ attemptLimit chain id + 1 ∧
      chainRun.calls.countP (Call.resumes id) ≤ [Command.tick 2].countP (Command.resumes id) :=
  ⟨rfl, (scheduling_respects_control_graph chain_acyclic chainRun_runs).2⟩

/-- The first execution is not an attempt in the sense of `max-attempts`. -/
theorem first_execution_unlimited : ¬ ∀ (definition : Definition) (executor : Executor)
    (commands : List Command) (runId : String) (input : Lua) (s : State), definition.Acyclic →
    Runs definition executor (fun _ command => command.isCancel = false) commands
      (startRun definition runId input) s →
    ∀ id ∈ definition.steps.map Step.id, s.calls.countP (Call.runs id) ≤
      attemptLimit definition id + commands.countP (Command.resumes id) := by
  intro h
  have hcount := h chain succeedAlways _ "run" .empty chainRun chain_acyclic chainRun_runs "draft"
    (by simp [chain])
  have honce : chainRun.calls.countP (Call.runs "draft") = 1 := rfl
  have hlimit : attemptLimit chain "draft" + [Command.tick 2].countP (Command.resumes "draft") = 0 :=
    rfl
  omega

end Runs

end Space2.Workflows
