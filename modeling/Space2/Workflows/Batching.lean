import Space2.Workflows.Completion
import Mathlib.Algebra.BigOperators.Group.Finset.Basic
import Mathlib.Data.List.Count
import Mathlib.Data.Set.Finite.Basic
import Mathlib.Order.WellFounded

/-!
# Ticks and their batches

A tick executes as many ready steps as it may, and marking steps ready twice is marking them once,
so ticks only cut one sequence of executions into batches. Each step is executed once at most, and
an acyclic run with nothing ready is complete.
-/
namespace Space2.Workflows
open Base Base.Durable Relation

variable {definition : Definition} {executor : Executor} {s : State} {id : String}

section Marking

def Markable (definition : Definition) (run : Run) (id : String) : Prop :=
  run.status? id = some .pending ∧ stepReady definition run id = true

def Marked (definition : Definition) (run : Run) : Prop :=
  ∀ step ∈ definition.steps, ¬ Markable definition run step.id

def readyUpdate : StepUpdate := { status := .ready }

/-- A step that is marked ready makes no other step ready. -/
theorem stepReady_marked {run : Run} {held : RunStep} {other : String}
    (hheld : run.step id = some held) (hpending : held.status = .pending) (hne : other ≠ id) :
    stepReady definition (run.upsertStep id readyUpdate) other = stepReady definition run other := by
  have hstatus : (run.upsertStep id readyUpdate).status? other = run.status? other :=
    congrArg (Option.map RunStep.status) (Run.step_upsertStep_ne hne)
  have hjoined : stepReady.joined definition (run.upsertStep id readyUpdate) other =
      stepReady.joined definition run other := by
    unfold stepReady.joined sources
    rw [List.any_filterMap, List.any_filterMap, List.all_filterMap, List.all_filterMap]
    have hedge : ∀ edge : Edge, edge.sourceStepId = id ∨
        (run.upsertStep id readyUpdate).step edge.sourceStepId = run.step edge.sourceStepId := by
      intro edge
      by_cases hsource : edge.sourceStepId = id
      · exact .inl hsource
      · exact .inr (Run.step_upsertStep_ne hsource)
    congr 2
    · funext edge
      rcases hedge edge with hsource | hsame
      · rw [hsource, Run.step_upsertStep_self, hheld]
        simp [hpending, readyUpdate, terminalSuccess]
      · rw [hsame]
    · funext edge
      rcases hedge edge with hsource | hsame
      · rw [hsource, Run.step_upsertStep_self, hheld]
        simp [hpending, readyUpdate, terminal]
      · rw [hsame]
  unfold stepReady
  rw [hjoined, hstatus]

theorem markReady_ends {step : Step} {done : List Step}
    {calls : List Call} (hquiet : Quiet definition s)
    (hswept : ∀ other, ¬ Skippable definition s.run other)
    (hdone : ∀ other ∈ done, ¬ Markable definition s.run other.id) (hcalls : s.calls = calls) :
    Ends (markReady definition step) s fun _ t => Quiet definition t ∧
      (∀ other, ¬ Skippable definition t.run other) ∧
      (∀ other ∈ done ++ [step], ¬ Markable definition t.run other.id) ∧ t.calls = calls := by
  refine ends_bind (ends_query rfl ?_)
  split_ifs with hwaits
  · obtain ⟨hpending, hready⟩ := of_decide_eq_true hwaits
    obtain ⟨held, hheld, hstatus⟩ := step_of_status hpending
    have hstep' := hquiet.steps step.id held hheld
    refine ends_bind (stepUpdate_ends hstep'.known (appendEvent_ends ?_))
    have hmarked : QuietStep definition step.id (held.update readyUpdate) := by
      refine ⟨hstep'.known, rfl, fun hset => ?_, hstep'.attempt, fun hsucceeded => ?_⟩
      · have hskipped := hstep'.unselected hset
        rw [hstatus] at hskipped
        cases hskipped
      · cases hsucceeded
    refine ⟨(hquiet.upsertStep hheld hmarked).appendEvent _, ?_, ?_, hcalls⟩
    · intro other hskip
      exact hswept other (Skippable.of_open hheld rfl (by simp) hskip).2
    · intro other hmem ⟨hpending', hready'⟩
      change (s.run.upsertStep step.id readyUpdate).status? other.id = some .pending at hpending'
      change stepReady definition (s.run.upsertStep step.id readyUpdate) other.id = true at hready'
      have hne : other.id ≠ step.id := by
        intro heq
        rw [Run.status?, heq, Run.step_upsertStep_self] at hpending'
        cases hpending'
      rw [stepReady_marked hheld hstatus hne] at hready'
      rw [Run.status?, Run.step_upsertStep_ne hne] at hpending'
      rcases List.mem_append.mp hmem with hold | hnew
      · exact hdone other hold ⟨hpending', hready'⟩
      · exact hne (congrArg Step.id (List.mem_singleton.mp hnew))
  · refine ends_pure ⟨hquiet, hswept, fun other hmem => ?_, hcalls⟩
    rcases List.mem_append.mp hmem with hold | hnew
    · exact hdone other hold
    · rw [List.mem_singleton.mp hnew]
      exact fun hmarkable => hwaits (decide_eq_true hmarkable)

theorem markReadySteps_ends (hacyclic : definition.Acyclic) (h : Calm definition executor s) :
    Ends (markReadySteps definition) s fun _ t =>
      Calm definition executor t ∧ Marked definition t.run ∧ t.calls = s.calls := by
  have hends : Ends (markReadySteps definition) s fun _ t => Quiet definition t ∧
      (∀ other, ¬ Skippable definition t.run other) ∧
      (∀ other ∈ definition.steps, ¬ Markable definition t.run other.id) ∧ t.calls = s.calls := by
    refine ends_forM (J := fun (done : List Step) t => Quiet definition t ∧
      (∀ other, ¬ Skippable definition t.run other) ∧
      (∀ other ∈ done, ¬ Markable definition t.run other.id) ∧ t.calls = s.calls)
      (fun done step rest _ t ht => ?_) ⟨h.quiet, h.swept, nofun, rfl⟩
    exact markReady_ends ht.1 ht.2.1 ht.2.2.1 ht.2.2.2
  refine (hends.and_spec ((markReadySteps_spec hacyclic).weaken (fun _ heq => heq ▸ h.scheduled)
    (fun _ ht => ht) fun _ _ ht => ht)).mono ?_
  rintro _ t ⟨⟨hquiet, hswept, hmarked, hcalls⟩, hscheduled⟩
  exact ⟨⟨hscheduled, hquiet, hswept⟩, hmarked, hcalls⟩

theorem markReadySteps_marked (h : Marked definition s.run) :
    Ends (markReadySteps definition) s fun _ t => t = s := by
  refine ends_forM (J := fun _ t => t = s) (fun done step rest hsplit t ht => ?_) rfl
  subst ht
  refine ends_bind (ends_query rfl ?_)
  split_ifs with hwaits
  · exact absurd (of_decide_eq_true hwaits) (h step (by rw [hsplit]; simp))
  · exact ends_pure rfl

end Marking

section Steps

variable (definition executor) in
/-- The state once every step that can be is marked ready. -/
def mark (s : State) : State := (markReadySteps definition).final s

variable (definition executor) in
/-- One execution of the loop of a tick, or the end of it. -/
def advance (s : State) : State :=
  match nextReady definition (mark definition s).run with
  | some id => (executeReadyStep definition executor id).final (mark definition s)
  | none => mark definition s

theorem Calm.mark (h : Calm definition executor s) (hacyclic : definition.Acyclic) :
    Calm definition executor (mark definition s) ∧ Marked definition (mark definition s).run ∧
      (mark definition s).calls = s.calls := by
  obtain ⟨_, hmark⟩ := (markReadySteps_ends hacyclic h).final
  exact hmark

theorem mark_of_marked (h : Marked definition s.run) : mark definition s = s := by
  obtain ⟨_, hsame⟩ := (markReadySteps_marked h).final
  exact hsame

theorem nextReady_status {run : Run} (h : nextReady definition run = some id) :
    run.status? id = some .ready :=
  of_decide_eq_true (@List.find?_some _ (fun id => decide (run.status? id = some .ready)) _ _ h)

theorem Calm.mark_mark (h : Calm definition executor s) (hacyclic : definition.Acyclic) :
    Workflows.mark definition (Workflows.mark definition s) = Workflows.mark definition s :=
  mark_of_marked (h.mark hacyclic).2.1

variable (hacyclic : definition.Acyclic) (hcompletes : executor.Completes)
  (hreadable : Readable definition executor)

section
include hacyclic hcompletes hreadable

theorem Calm.execute (h : Calm definition executor s)
    (hnext : nextReady definition (Workflows.mark definition s).run = some id) :
    Ends (executeReadyStep definition executor id) (Workflows.mark definition s) fun _ t =>
      Calm definition executor t ∧ t.calls.length = s.calls.length + 1 := by
  obtain ⟨hcalm, -, hcalls⟩ := h.mark hacyclic
  rw [← hcalls]
  exact executeReadyStep_ends hacyclic hcompletes hreadable hcalm (nextReady_status hnext)

theorem Calm.advance (h : Calm definition executor s) :
    Calm definition executor (advance definition executor s) := by
  unfold Workflows.advance
  split
  · next id hnext =>
    obtain ⟨_, hafter⟩ := (h.execute hacyclic hcompletes hreadable hnext).final
    exact hafter.1
  · exact (h.mark hacyclic).1

theorem Calm.iterate (h : Calm definition executor s) (n : Nat) :
    Calm definition executor ((Workflows.advance definition executor)^[n] s) := by
  induction n with
  | zero => exact h
  | succ n ih =>
    rw [Function.iterate_succ_apply']
    exact ih.advance hacyclic hcompletes hreadable

omit hcompletes hreadable in
theorem Calm.advance_mark (h : Calm definition executor s) :
    Workflows.advance definition executor (Workflows.mark definition s) =
      Workflows.advance definition executor s := by
  unfold Workflows.advance
  rw [h.mark_mark hacyclic]

omit hcompletes hreadable in
theorem Calm.iterate_mark (h : Calm definition executor s) (n : Nat) :
    Workflows.mark definition ((Workflows.advance definition executor)^[n]
      (Workflows.mark definition s)) =
      Workflows.mark definition ((Workflows.advance definition executor)^[n] s) := by
  cases n with
  | zero => exact h.mark_mark hacyclic
  | succ n => rw [Function.iterate_succ_apply, Function.iterate_succ_apply, h.advance_mark hacyclic]

omit hcompletes hreadable in
/-- With nothing ready the loop stands still. -/
theorem Calm.iterate_still (h : Calm definition executor s)
    (hnone : nextReady definition (Workflows.mark definition s).run = none) (n : Nat) :
    Workflows.mark definition ((Workflows.advance definition executor)^[n] s) =
      Workflows.mark definition s := by
  rw [← h.iterate_mark hacyclic]
  have hfixed : Workflows.advance definition executor (Workflows.mark definition s) =
      Workflows.mark definition s := by
    unfold Workflows.advance
    rw [h.mark_mark hacyclic, hnone]
  rw [Function.iterate_fixed hfixed, h.mark_mark hacyclic]

/-- The loop of a tick is so many executions, or fewer when nothing is ready. -/
theorem tickLoop_ends (h : Calm definition executor s) (left : Nat) :
    Ends (tickLoop definition executor left) s fun _ t =>
      Workflows.mark definition t =
        Workflows.mark definition ((Workflows.advance definition executor)^[left] s) ∧
      Calm definition executor t := by
  induction left generalizing s with
  | zero => exact ends_pure ⟨rfl, h⟩
  | succ left ih =>
    refine ends_bind ((markReadySteps_ends hacyclic h).exact.mono ?_)
    rintro _ t rfl
    refine ends_bind (ends_query rfl ?_)
    change Ends (match nextReady definition (Workflows.mark definition s).run with
      | some id => _
      | none => _) (Workflows.mark definition s) _
    rw [Function.iterate_succ_apply]
    cases hnext : nextReady definition (Workflows.mark definition s).run with
    | some id =>
      have hadvance : Workflows.advance definition executor s =
          (executeReadyStep definition executor id).final (Workflows.mark definition s) := by
        unfold Workflows.advance
        rw [hnext]
      refine ends_bind ((h.execute hacyclic hcompletes hreadable hnext).exact.mono ?_)
      rintro _ t rfl
      rw [← hadvance]
      exact ih (h.advance hacyclic hcompletes hreadable)
    | none =>
      have hadvance : Workflows.advance definition executor s = Workflows.mark definition s := by
        unfold Workflows.advance
        rw [hnext]
      refine ends_pure ⟨?_, (h.mark hacyclic).1⟩
      rw [hadvance, h.iterate_mark hacyclic, h.iterate_still hacyclic hnext, h.mark_mark hacyclic]

end

end Steps

section Settling

theorem anyStatus_iff {run : Run} {status : StepStatus} :
    run.anyStatus status = true ↔ ∃ id held, run.step id = some held ∧ held.status = status := by
  rw [Run.anyStatus, List.any_eq_true]
  constructor
  · rintro ⟨⟨id, held⟩, hmem, hstatus⟩
    exact ⟨id, held, AList.mem_lookup_iff.mpr hmem, of_decide_eq_true hstatus⟩
  · rintro ⟨id, held, hheld, hstatus⟩
    exact ⟨⟨id, held⟩, AList.mem_lookup_iff.mp hheld, decide_eq_true hstatus⟩

theorem allTerminalSuccess_iff {run : Run} :
    run.allTerminalSuccess = true ↔
      ∀ id held, run.step id = some held → terminalSuccess held.status = true := by
  rw [Run.allTerminalSuccess, List.all_eq_true]
  constructor
  · intro hall id held hheld
    exact hall ⟨id, held⟩ (AList.mem_lookup_iff.mp hheld)
  · rintro hall ⟨id, held⟩ hmem
    exact hall id held (AList.mem_lookup_iff.mpr hmem)

theorem Quiet.anyStatus (h : Quiet definition s) {status : StepStatus}
    (hstatus : quietStatus status = false) : s.run.anyStatus status = false := by
  by_contra hany
  obtain ⟨id, held, hheld, rfl⟩ := anyStatus_iff.mp (by simpa using hany)
  exact Bool.noConfusion (hstatus.symm.trans (h.steps id held hheld).status)

/-- While a step is ready the run goes on. -/
theorem settleRun_ready (h : Quiet definition s) (hready : s.run.status? id = some .ready) :
    Ends settleRun s fun _ t => t = s := by
  obtain ⟨held, hheld, hstatus⟩ := step_of_status hready
  have hany : s.run.anyStatus .ready = true := anyStatus_iff.mpr ⟨id, held, hheld, hstatus⟩
  have hall : s.run.allTerminalSuccess = false := by
    by_contra hall
    have hdone := allTerminalSuccess_iff.mp (by simpa using hall) id held hheld
    rw [hstatus] at hdone
    cases hdone
  refine ends_bind (ends_query rfl ?_)
  rw [if_neg (by simp [noReadyFailure, hany])]
  refine ends_bind (ends_query rfl ?_)
  rw [if_neg (by simp [show s.run.anyStatus .failed = false from h.anyStatus rfl]),
    if_neg (by simp [show s.run.anyStatus .cancelled = false from h.anyStatus rfl]),
    if_neg (by simp [show s.run.anyStatus .waiting = false from h.anyStatus rfl]), if_neg (by simp [hall])]
  exact ends_pure rfl

def State.finished (s : State) : State :=
  (s.appendEvent .runSucceeded).updateRun .succeeded (some s.run.outputFromSteps) none

/-- Once every step has succeeded or is skipped the run has succeeded. -/
theorem settleRun_done
    (hdone : ∀ id held, s.run.step id = some held → terminalSuccess held.status = true) :
    Ends settleRun s fun _ t => t = s.finished := by
  have hopen : ∀ status, terminalSuccess status = false → s.run.anyStatus status = false := by
    intro status hstatus
    by_contra hany
    obtain ⟨id, held, hheld, rfl⟩ := anyStatus_iff.mp (by simpa using hany)
    exact Bool.noConfusion (hstatus.symm.trans (hdone id held hheld))
  have hresolved : s.run.unresolvedPending = false := by
    simp [Run.unresolvedPending, hopen .pending rfl, hopen .ready rfl, hopen .running rfl]
  refine ends_bind (ends_query rfl ?_)
  rw [if_neg (by simp [noReadyFailure, hresolved])]
  refine ends_bind (ends_query rfl ?_)
  rw [if_neg (by simp [hopen .failed rfl]), if_neg (by simp [hopen .cancelled rfl]),
    if_neg (by simp [hopen .waiting rfl]), if_pos (allTerminalSuccess_iff.mpr hdone)]
  exact ends_bind (ends_write (ends_write rfl))

end Settling

section Complete

/-- The control edges between the steps of an acyclic definition are well founded. -/
theorem Definition.Acyclic.induction (hacyclic : definition.Acyclic) {P : String → Prop}
    (h : ∀ id ∈ definition.steps.map Step.id, (∀ source, definition.Controls source id → P source) →
      P id) : ∀ id ∈ definition.steps.map Step.id, P id := by
  have hwf : WellFounded fun source target : { id // id ∈ definition.steps.map Step.id } =>
      TransGen definition.Controls source.1 target.1 := by
    have : Finite { id // id ∈ definition.steps.map Step.id } := by
      simpa only [List.coe_toFinset, Set.coe_ofPred] using
        (definition.steps.map Step.id).toFinset.finite_toSet.to_subtype
    have : IsTrans { id // id ∈ definition.steps.map Step.id } fun source target =>
        TransGen definition.Controls source.1 target.1 := ⟨fun _ _ _ => TransGen.trans⟩
    have : Std.Irrefl fun source target : { id // id ∈ definition.steps.map Step.id } =>
        TransGen definition.Controls source.1 target.1 := ⟨fun id => hacyclic id.1⟩
    exact Finite.wellFounded_of_trans_of_irrefl _
  intro id hid
  have hall : ∀ step : { id // id ∈ definition.steps.map Step.id }, P step.1 := by
    intro step
    induction step using hwf.induction with
    | _ step ih =>
      refine h step.1 step.2 fun source hcontrols => ?_
      obtain ⟨edge, hedge, hcontrol, hsource, htarget⟩ := hcontrols
      have hmem : source ∈ definition.steps.map Step.id := hsource ▸ (definition.endpoints edge hedge).1
      exact ih ⟨source, hmem⟩ (.single ⟨edge, hedge, hcontrol, hsource, htarget⟩)
  exact hall ⟨id, hid⟩

theorem stepReady_of_joined {run : Run} (h : stepReady.joined definition run id = true) :
    stepReady definition run id = true := by
  unfold stepReady
  split
  · rfl
  · rw [h, Bool.or_true]
  · exact h

/-- A step whose sources are complete is ready, or none of them has selected it. -/
theorem ready_or_skippable {run : Run}
    (h : ∀ edge ∈ definition.inboundControlEdges id, ∃ source,
      run.step edge.sourceStepId = some source ∧ terminalSuccess source.status = true) :
    stepReady definition run id = true ∨ canSkipAsUnselected definition run id = true := by
  by_cases hinbound : definition.inboundControlEdges id = []
  · left
    unfold stepReady
    rw [hinbound]
  by_cases hselected : ∃ edge ∈ definition.inboundControlEdges id, ∃ source,
      run.step edge.sourceStepId = some source ∧
        selectedTarget source id edge.sourceStepId = true
  · left
    obtain ⟨edge, hedge, source, hsource, hselected⟩ := hselected
    obtain ⟨found, hfound, hsuccess⟩ := h edge hedge
    obtain rfl := Option.some.inj (hsource.symm.trans hfound)
    refine stepReady_of_joined (Bool.and_eq_true_iff.mpr ⟨List.any_eq_true.mpr ?_,
      List.all_eq_true.mpr ?_⟩)
    · refine ⟨(edge, source), List.mem_filterMap.mpr ⟨edge, hedge, by rw [hsource]; rfl⟩, ?_⟩
      exact Bool.and_eq_true_iff.mpr ⟨hsuccess, hselected⟩
    · rintro ⟨other, before⟩ hmem
      obtain ⟨edge', hedge', hpair⟩ := List.mem_filterMap.mp hmem
      obtain ⟨found, hfound, hsuccess⟩ := h edge' hedge'
      rw [hfound] at hpair
      obtain ⟨rfl, rfl⟩ := Prod.mk.inj (Option.some.inj hpair)
      cases hstatus : found.status <;> simp_all [terminalSuccess, terminal]
  · right
    refine Bool.and_eq_true_iff.mpr ⟨by simpa using hinbound, List.all_eq_true.mpr fun edge hedge => ?_⟩
    obtain ⟨source, hsource, hsuccess⟩ := h edge hedge
    have hnot : selectedTarget source id edge.sourceStepId = false := by
      by_contra hyes
      exact hselected ⟨edge, hedge, source, hsource, by simpa using hyes⟩
    obtain ⟨-, -, htarget⟩ := Definition.mem_inbound.mp hedge
    simp [unselectedReachable, hsource, hsuccess, htarget, hnot]

/-- When nothing is ready and nothing can be marked ready, every step is complete. -/
theorem Calm.complete (h : Calm definition executor s) (hacyclic : definition.Acyclic)
    (hmarked : Marked definition s.run) (hnone : nextReady definition s.run = none) :
    ∀ id held, s.run.step id = some held → terminalSuccess held.status = true := by
  have hsteps : ∀ id ∈ definition.steps.map Step.id,
      ∀ held, s.run.step id = some held → terminalSuccess held.status = true := by
    refine hacyclic.induction fun id hid ih held hheld => ?_
    have hstep := h.quiet.steps id held hheld
    have hnotready : held.status ≠ .ready := by
      intro hready
      have hfind := List.find?_eq_none.mp hnone id hid
      simp [Run.status?, hheld, hready] at hfind
    by_contra hopen
    have hpending : held.status = .pending := by
      have hquiet := hstep.status
      cases hstatus : held.status <;> simp_all [quietStatus, terminalSuccess]
    have hstatus : s.run.status? id = some .pending := by rw [Run.status?, hheld, Option.map_some, hpending]
    have hsource : ∀ edge ∈ definition.inboundControlEdges id,
        ∃ source, s.run.step edge.sourceStepId = some source ∧
          terminalSuccess source.status = true := by
      intro edge hedge
      obtain ⟨hmem, hcontrol, htarget⟩ := Definition.mem_inbound.mp hedge
      obtain ⟨source, hsource⟩ := h.scheduled.source hmem
      exact ⟨source, hsource, ih _ ⟨edge, hmem, hcontrol, rfl, htarget⟩ source hsource⟩
    obtain ⟨step, hstepmem, rfl⟩ := List.mem_map.mp hid
    rcases ready_or_skippable hsource with hready | hskip
    · exact hmarked step hstepmem ⟨hstatus, hready⟩
    · exact h.swept step.id ⟨hstatus, hskip⟩
  exact fun id held hheld => hsteps id (h.quiet.steps id held hheld).known held hheld

end Complete

section Calls

def Call.stepId : Call → String
  | run id _ _ _ => id
  | resume id _ _ _ => id
  | cancel id _ => id

theorem Call.stepId_of_runs {call : Call} (h : call.runs id = true) : call.stepId = id := by
  cases call with
  | run other input state snapshot => exact of_decide_eq_true h
  | resume other result state snapshot => cases h
  | cancel other state => cases h

theorem Call.runs_iff {call : Call} {other : String} (h : call.runs id = true) :
    call.runs other = true ↔ id = other := by
  cases call with
  | run found input state snapshot =>
    obtain rfl : found = id := of_decide_eq_true h
    exact decide_eq_true_iff
  | resume found result state snapshot => cases h
  | cancel found state => cases h

end Calls

section Ticks
open scoped BigOperators

variable (definition executor) in
/-- The state after so many executions: finished once nothing is ready any more. -/
def stage (s : State) (executions : Nat) : State :=
  let reached := mark definition ((advance definition executor)^[executions] s)
  if nextReady definition reached.run = none then reached.finished else reached

variable (hacyclic : definition.Acyclic) (hcompletes : executor.Completes)
  (hreadable : Readable definition executor)

theorem settleRun_stage (hacyclic : definition.Acyclic) (h : Calm definition executor s)
    (hmarked : Marked definition s.run) :
    Ends settleRun s fun _ t =>
      t = if nextReady definition s.run = none then s.finished else s := by
  split_ifs with hnone
  · exact settleRun_done (h.complete hacyclic hmarked hnone)
  · obtain ⟨id, hnext⟩ := Option.ne_none_iff_exists'.mp hnone
    exact settleRun_ready h.quiet (nextReady_status hnext)

include hacyclic hcompletes hreadable

/-- A tick from a queued run or a running one. -/
theorem tickRun_ends {t : State} (hstart : Ends startIfQueued s fun _ u => u = t)
    (h : Calm definition executor t) (maxSteps : Nat) :
    Ends (tickRun definition executor maxSteps) s fun _ u =>
      u = stage definition executor t maxSteps := by
  refine ends_bind (hstart.mono ?_)
  rintro _ u rfl
  refine ends_bind (ends_query rfl ?_)
  rw [if_pos (.inl h.quiet.running)]
  refine ends_bind ((tickLoop_ends hacyclic hcompletes hreadable h maxSteps).mono ?_)
  rintro _ v ⟨hmark, hcalm⟩
  refine ends_bind ((markReadySteps_ends hacyclic hcalm).exact.mono ?_)
  rintro _ w rfl
  obtain ⟨hcalm', hmarked, -⟩ := hcalm.mark hacyclic
  refine (settleRun_stage hacyclic hcalm' hmarked).mono ?_
  rintro _ x rfl
  rw [hmark]
  rfl

theorem tickRun_running (h : Calm definition executor s) (maxSteps : Nat) :
    Ends (tickRun definition executor maxSteps) s fun _ t =>
      t = stage definition executor s maxSteps := by
  refine tickRun_ends hacyclic hcompletes hreadable (ends_bind (ends_query rfl ?_)) h maxSteps
  rw [if_neg (by rw [h.quiet.running]; decide)]
  exact ends_pure rfl

/-- `Reached m` is what the ticks have made of the run after `m` executions. -/
theorem Calm.reached (h : Calm definition executor s) (executions : Nat) :
    Calm definition executor (Workflows.mark definition
      ((Workflows.advance definition executor)^[executions] s)) :=
  ((h.iterate hacyclic hcompletes hreadable executions).mark hacyclic).1

/-- The executions of two ticks are those of one. -/
theorem stage_add (h : Calm definition executor s) (m n : Nat) :
    (nextReady definition (mark definition ((advance definition executor)^[m] s)).run = none →
      stage definition executor s (m + n) = stage definition executor s m) ∧
    stage definition executor (mark definition ((advance definition executor)^[m] s)) n =
      stage definition executor s (m + n) := by
  have hcalm := h.iterate hacyclic hcompletes hreadable m
  have hsplit : (advance definition executor)^[m + n] s =
      (advance definition executor)^[n] ((advance definition executor)^[m] s) := by
    rw [Nat.add_comm, Function.iterate_add_apply]
  refine ⟨fun hnone => ?_, ?_⟩
  · unfold stage
    rw [hsplit, hcalm.iterate_still hacyclic hnone]
  · unfold stage
    rw [hsplit, hcalm.iterate_mark hacyclic]

theorem calls_length (h : Calm definition executor s) {m : Nat}
    (hready : ∀ k < m, nextReady definition (mark definition ((advance definition executor)^[k]
      s)).run ≠ none) :
    ((advance definition executor)^[m] s).calls.length = s.calls.length + m := by
  induction m with
  | zero => rfl
  | succ m ih =>
    have hcalm := h.iterate hacyclic hcompletes hreadable m
    obtain ⟨id, hnext⟩ := Option.ne_none_iff_exists'.mp (hready m (Nat.lt_succ_self m))
    obtain ⟨_, -, hlength⟩ := (hcalm.execute hacyclic hcompletes hreadable hnext).final
    have hadvance : advance definition executor ((advance definition executor)^[m] s) =
        (executeReadyStep definition executor id).final
          (mark definition ((advance definition executor)^[m] s)) := by
      rw [advance, hnext]
    rw [Function.iterate_succ_apply', hadvance, hlength, ih fun k hk => hready k (by omega)]
    omega

omit hacyclic hcompletes hreadable in
/-- Every call runs a step of its own. -/
theorem Calm.calls_le (h : Calm definition executor s) : s.calls.length ≤ definition.steps.length := by
  have hid : ∀ call ∈ s.calls, call.stepId ∈ definition.steps.map Step.id := by
    intro call hmem
    obtain ⟨id, hid, hruns⟩ := h.quiet.calls call hmem
    rw [Call.stepId_of_runs hruns]
    exact hid
  have hnodup : (s.calls.map Call.stepId).Nodup := by
    refine List.nodup_iff_count_le_one.mpr fun id => ?_
    by_cases hmem : id ∈ s.calls.map Call.stepId
    · obtain ⟨call, hcall, rfl⟩ := List.mem_map.mp hmem
      obtain ⟨held, hheld⟩ := h.scheduled.present call.stepId (hid call hcall)
      have hattempts := h.scheduled.attempts call.stepId held hheld
      rw [(h.quiet.steps call.stepId held hheld).attempt] at hattempts
      have hcount : (s.calls.map Call.stepId).count call.stepId =
          s.calls.countP (Call.runs call.stepId) := by
        rw [List.count, List.countP_map]
        refine List.countP_congr fun other hother => ?_
        obtain ⟨id, -, hruns⟩ := h.quiet.calls other hother
        have hsame := Call.stepId_of_runs hruns
        rw [Function.comp_apply, beq_iff_eq, Call.runs_iff hruns, hsame]
      omega
    · rw [List.count_eq_zero.mpr hmem]
      exact Nat.zero_le 1
  have hle := (List.subperm_of_subset hnodup (by
    intro id hmem
    obtain ⟨call, hcall, rfl⟩ := List.mem_map.mp hmem
    exact hid call hcall)).length_le
  rwa [List.length_map, List.length_map] at hle

/-- There are no more executions than steps. -/
theorem stage_still (h : Calm definition executor s) {m : Nat} (hm : definition.steps.length ≤ m) :
    nextReady definition (mark definition ((advance definition executor)^[m] s)).run = none := by
  by_contra hsome
  have hready : ∀ k < m + 1, nextReady definition
      (mark definition ((advance definition executor)^[k] s)).run ≠ none := by
    intro k hk hnone
    have hcalm := h.iterate hacyclic hcompletes hreadable k
    have hstill := hcalm.iterate_still hacyclic hnone (m - k)
    rw [← Function.iterate_add_apply, Nat.sub_add_cancel (by omega)] at hstill
    exact hsome (hstill ▸ hnone)
  have hlength := calls_length hacyclic hcompletes hreadable h hready
  have hle := (h.iterate hacyclic hcompletes hreadable (m + 1)).calls_le
  omega

end Ticks

section Runs

variable (definition executor) in
/-- The state after so many ticks, each with its own number of executions. -/
def after (budget : Nat → Nat) (start : State) : Nat → State
  | 0 => start
  | ticks + 1 => (tickRun definition executor (budget ticks)).final (after budget start ticks)

variable (definition executor) in
/-- Every sequence of ticks ends in one and the same state, in which the run has succeeded. -/
def CompletesAlike (start : State) : Prop :=
  ∃ final : State, final.run.status = .succeeded ∧
    (∀ id ∈ definition.steps.map Step.id, ∃ held, final.run.step id = some held ∧
      (held.status = .succeeded ∨ held.status = .skipped)) ∧
    ∀ budget : Nat → Nat, (∀ n, 1 ≤ budget n) →
      (∀ n, (tickRun definition executor (budget n) (after definition executor budget start n)).result =
          .ok () ∧ (after definition executor budget start n).run.status ≠ .failed) ∧
      ∃ ticks, ∀ n, ticks ≤ n → after definition executor budget start n = final

def State.started (s : State) : State :=
  (s.appendEvent .runStarted).updateRun .running none none

theorem startRun_known {runId : String} {input : Lua} {held : RunStep}
    (h : (startRun definition runId input).run.step id = some held) :
    id ∈ definition.steps.map Step.id := by
  have hlookup := step_insertNew definition.steps ∅ id
  change _ = some held at h
  rw [Run.step, startRun, hlookup] at h
  split_ifs at h with hmem
  · exact hmem
  · simp at h

theorem startRun_calm {runId : String} {input : Lua} (hinput : input.isTable = true) :
    Calm definition executor (startRun definition runId input).started := by
  refine ⟨((startRun_scheduled runId input _).appendPlain .runStarted fun _ hc => hc).updateRun .., ?_, ?_⟩
  · refine ⟨rfl, hinput, fun id held hheld => ?_, nofun⟩
    change (startRun definition runId input).run.step id = some held at hheld
    obtain rfl := startRun_step hheld
    exact ⟨startRun_known hheld, rfl, nofun, rfl, nofun⟩
  · rintro id ⟨-, hcan⟩
    obtain ⟨edge, hedge⟩ := List.exists_mem_of_ne_nil _
      (of_decide_eq_true (Bool.and_eq_true_iff.mp hcan).1)
    obtain ⟨before, hbefore, hsuccess, -⟩ := unselectedReachable_source (canSkip_edge hcan hedge)
    change (startRun definition runId input).run.step _ = some before at hbefore
    obtain rfl := startRun_step hbefore
    cases hsuccess

theorem tickRun_succeeded (h : s.run.status = .succeeded) (maxSteps : Nat) :
    Ends (tickRun definition executor maxSteps) s fun _ t => t = s := by
  have hstart : Ends startIfQueued s fun _ t => t = s := by
    refine ends_bind (ends_query rfl ?_)
    rw [if_neg (by rw [h]; decide)]
    exact ends_pure rfl
  refine ends_bind (hstart.mono ?_)
  rintro _ t rfl
  refine ends_bind (ends_query rfl ?_)
  rw [if_neg (by rw [h]; decide)]
  exact ends_pure rfl

theorem startRun_start {runId : String} {input : Lua} :
    Ends startIfQueued (startRun definition runId input) fun _ t =>
      t = (startRun definition runId input).started := by
  refine ends_bind (ends_query rfl ?_)
  have hqueued : (startRun definition runId input).run.status = .queued := rfl
  rw [if_pos hqueued]
  exact ends_bind (ends_write (ends_write rfl))

theorem le_spent {budget : Nat → Nat} (h : ∀ n, 1 ≤ budget n) (n : Nat) :
    n ≤ ∑ i ∈ Finset.range n, budget i := by
  induction n with
  | zero => exact Nat.zero_le _
  | succ n ih =>
    have hn := h n
    rw [Finset.sum_range_succ]
    omega

variable (hacyclic : definition.Acyclic) (hcompletes : executor.Completes)
  (hreadable : Readable definition executor)

include hacyclic hcompletes hreadable

/-- A tick moves from stage to stage. -/
theorem tickRun_stage (h : Calm definition executor s) (m n : Nat) :
    Ends (tickRun definition executor n) (stage definition executor s m) fun _ t =>
      t = stage definition executor s (m + n) := by
  obtain ⟨hstill, hmore⟩ := stage_add hacyclic hcompletes hreadable h m n
  by_cases hnone : nextReady definition (mark definition ((advance definition executor)^[m] s)).run =
      none
  · rw [hstill hnone]
    refine tickRun_succeeded ?_ n
    rw [stage, if_pos hnone]
    rfl
  · have hreached : stage definition executor s m =
        mark definition ((advance definition executor)^[m] s) := if_neg hnone
    rw [hreached, ← hmore]
    exact tickRun_running hacyclic hcompletes hreadable
      (h.reached hacyclic hcompletes hreadable m) n

theorem after_stage {runId : String} {input : Lua} (hinput : input.isTable = true)
    (budget : Nat → Nat) (n : Nat) :
    after definition executor budget (startRun definition runId input) (n + 1) =
      stage definition executor (startRun definition runId input).started
        (∑ i ∈ Finset.range (n + 1), budget i) := by
  have hcalm : Calm definition executor (startRun definition runId input).started :=
    startRun_calm hinput
  induction n with
  | zero =>
    obtain ⟨_, hfirst⟩ := (tickRun_ends hacyclic hcompletes hreadable startRun_start hcalm
      (budget 0)).final
    rw [Finset.sum_range_one]
    exact hfirst
  | succ n ih =>
    obtain ⟨_, hnext⟩ := (tickRun_stage hacyclic hcompletes hreadable hcalm
      (∑ i ∈ Finset.range (n + 1), budget i) (budget (n + 1))).final
    rw [after, ih, hnext, Finset.sum_range_succ _ (n + 1)]

theorem stage_status (h : Calm definition executor s) (m : Nat) :
    (stage definition executor s m).run.status ≠ .failed := by
  unfold stage
  dsimp only
  split_ifs
  · exact nofun
  · rw [(h.reached hacyclic hcompletes hreadable m).quiet.running]
    exact nofun

/-- An acyclic run whose executor always succeeds or skips is completed by finitely many ticks,
and however the executions are spread over the ticks they are the same and leave the same run,
provided no port is taken of an output without fields. -/
theorem acyclic_completes_alike {runId : String} {input : Lua} (hinput : input.isTable = true) :
    CompletesAlike definition executor (startRun definition runId input) := by
  have hcalm : Calm definition executor (startRun definition runId input).started :=
    startRun_calm hinput
  have hdone := stage_still hacyclic hcompletes hreadable hcalm le_rfl
  set start := (startRun definition runId input).started with hstart
  set reached := mark definition ((advance definition executor)^[definition.steps.length] start)
    with hreached
  have hfinal : stage definition executor start definition.steps.length = reached.finished :=
    if_pos hdone
  have hcalm' := hcalm.iterate hacyclic hcompletes hreadable definition.steps.length
  obtain ⟨hquiet, hmarked, -⟩ := hcalm'.mark hacyclic
  refine ⟨reached.finished, rfl, fun id hid => ?_, fun budget hbudget => ⟨fun n => ?_, ?_⟩⟩
  · obtain ⟨held, hheld⟩ := hquiet.scheduled.present id hid
    have hsuccess := hquiet.complete hacyclic hmarked hdone id held hheld
    exact ⟨held, hheld, by simpa [terminalSuccess] using hsuccess⟩
  · cases n with
    | zero =>
      obtain ⟨_, hfirst, -⟩ := tickRun_ends hacyclic hcompletes hreadable
        (@startRun_start definition runId input) hcalm (budget 0)
      exact ⟨hfirst, fun hfailed => RunStatus.noConfusion hfailed⟩
    | succ n =>
      rw [after_stage hacyclic hcompletes hreadable hinput]
      obtain ⟨_, hnext, -⟩ := tickRun_stage hacyclic hcompletes hreadable hcalm
        (∑ i ∈ Finset.range (n + 1), budget i) (budget (n + 1))
      exact ⟨hnext, stage_status hacyclic hcompletes hreadable hcalm _⟩
  · refine ⟨definition.steps.length + 1, fun n hn => ?_⟩
    obtain ⟨n, rfl⟩ : ∃ k, n = k + 1 := ⟨n - 1, by omega⟩
    have hspent := (Nat.le_of_lt_succ hn).trans ((Nat.le_succ n).trans (le_spent hbudget (n + 1)))
    rw [after_stage hacyclic hcompletes hreadable hinput, ← hstart, ← hfinal]
    obtain ⟨extra, hextra⟩ := Nat.exists_eq_add_of_le hspent
    rw [hextra]
    exact (stage_add hacyclic hcompletes hreadable hcalm definition.steps.length extra).1 hdone

omit hacyclic hcompletes hreadable

/-! One step hands a port of its output to the next. -/

def handover : Definition where
  id := "handover"
  steps := [⟨"fetch", "code", .empty, none⟩, ⟨"use", "code", .empty, none⟩]
  edges := [⟨"first", none, "fetch", "use", none, none⟩,
    ⟨"second", some .data, "fetch", "use", some "url", none⟩]
  endpoints := by simp

def answers (output : Lua) : Executor where
  respond _ := .ok (.table { status := .succeeded, output := some output })
  cancels := false

theorem handover_acyclic : handover.Acyclic := by
  have hcontrols : ∀ {source target}, handover.Controls source target →
      source = "fetch" ∧ target = "use" := by
    rintro source target ⟨edge, hedge, -, rfl, rfl⟩
    rcases List.mem_pair.mp hedge with rfl | rfl <;> exact ⟨rfl, rfl⟩
  intro id hcycle
  obtain ⟨next, hfirst, -⟩ := TransGen.head'_iff.mp hcycle
  obtain ⟨last, -, hlast⟩ := TransGen.tail'_iff.mp hcycle
  rw [(hcontrols hfirst).1] at hlast
  exact absurd (hcontrols hlast).2 (by decide)

theorem answers_completes (output : Lua) : (answers output).Completes :=
  fun _ => ⟨_, rfl, .inl rfl⟩

theorem acyclic_completes_alike_handover :
    CompletesAlike handover (answers (.record [("url", .string "file")]))
      (startRun handover "run" .empty) := by
  refine acyclic_completes_alike handover_acyclic (answers_completes _) ?_ rfl
  intro history id input state snapshot outcome hrespond _ _ output houtput
  obtain rfl := Returned.table.inj (Except.ok.inj hrespond)
  obtain rfl := Option.some.inj houtput
  rfl

/-- The run once the first step has answered with a number. -/
def handoverFetched : State :=
  (tickRun handover (answers (.number (.finite 5))) 1).final (startRun handover "run" .empty)

theorem handoverFetched_stuck :
    handoverFetched.run.status = .running ∧
      (tickRun handover (answers (.number (.finite 5))) 1 handoverFetched).writes.isEmpty = true := by
  decide +kernel

/-- Taking a port of a number raises in every tick but the first. -/
theorem handover_never_completes :
    (∀ n, (after handover (answers (.number (.finite 5))) (fun _ => 1)
      (startRun handover "run" .empty) (n + 1)).run.status = .running) ∧
    ¬ ∀ definition executor, definition.Acyclic → executor.Completes →
      ∀ runId, CompletesAlike definition executor (startRun definition runId .empty) := by
  obtain ⟨hrunning, hempty⟩ := handoverFetched_stuck
  have hafter : ∀ n, after handover (answers (.number (.finite 5))) (fun _ => 1)
      (startRun handover "run" .empty) (n + 1) = handoverFetched := by
    intro n
    induction n with
    | zero => rfl
    | succ n ih =>
      rw [after, ih, Program.final, List.isEmpty_iff.mp hempty, commitAll_nil]
  refine ⟨fun n => by rw [hafter n]; exact hrunning, fun hall => ?_⟩
  obtain ⟨final, hsucceeded, -, hbudget⟩ := hall handover (answers (.number (.finite 5)))
    handover_acyclic (answers_completes _) "run"
  obtain ⟨-, ticks, hticks⟩ := hbudget (fun _ => 1) fun _ => le_rfl
  have hfinal := hticks (ticks + 1) (Nat.le_succ ticks)
  rw [hafter ticks] at hfinal
  rw [← hfinal, hrunning] at hsucceeded
  cases hsucceeded

end Runs

end Space2.Workflows
