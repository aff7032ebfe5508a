import Space2.Workflows.SchedulingRuns

/-!
# Executions that complete

An executor that always answers with a success or a skip never leaves a step half way. `Quiet` is
what holds between its executions: each step is pending, ready, succeeded or skipped, and only a
step that was left out is marked so. Skipping is complete: after an execution no pending step has
all its inbound edges unselected.
-/
namespace Space2.Workflows
open Base Base.Durable

variable {definition : Definition} {executor : Executor} {s : State} {id : String}

def Executor.Completes (executor : Executor) : Prop :=
  ∀ history, ∃ outcome, executor.respond history = .ok (.table outcome) ∧
    (outcome.status = .succeeded ∨ outcome.status = .skipped)

/-- A data edge takes a port of the step's output. -/
def Definition.Ported (definition : Definition) (id : String) : Prop :=
  ∃ edge ∈ definition.edges, dataEdge edge = true ∧ edge.sourceStepId = id ∧ edge.sourcePort ≠ none

/-- An output a port is taken of has fields. -/
def Readable (definition : Definition) (executor : Executor) : Prop :=
  ∀ history id input state snapshot outcome,
    executor.respond (history ++ [.run id input state snapshot]) = .ok (.table outcome) →
    outcome.status = .succeeded → definition.Ported id →
    ∀ output ∈ outcome.output, output.indexable = true

section Quiet

def quietStatus : StepStatus → Bool
  | .pending | .ready | .succeeded | .skipped => true
  | _ => false

structure QuietStep (definition : Definition) (id : String) (held : RunStep) : Prop where
  known : id ∈ definition.steps.map Step.id
  status : quietStatus held.status = true
  unselected : held.unselected = true → held.status = .skipped
  attempt : held.attempt = 0
  output : held.status = .succeeded → definition.Ported id → held.output.indexable = true

structure Quiet (definition : Definition) (s : State) : Prop where
  running : s.run.status = .running
  input : s.run.input.isTable = true
  steps : ∀ id held, s.run.step id = some held → QuietStep definition id held
  calls : ∀ call ∈ s.calls, ∃ id ∈ definition.steps.map Step.id, call.runs id = true

theorem Quiet.upsertStep (h : Quiet definition s) {old : RunStep} {updates : StepUpdate}
    (hold : s.run.step id = some old) (hquiet : QuietStep definition id (old.update updates)) :
    Quiet definition (s.upsertStep id updates) := by
  refine ⟨h.running, h.input, fun other held hheld => ?_, h.calls⟩
  rcases Scheduled.step_upsert hold hheld with ⟨rfl, rfl⟩ | ⟨-, hsame⟩
  · exact hquiet
  · exact h.steps other held hsame

theorem Quiet.appendEvent (h : Quiet definition s) (event : Event) :
    Quiet definition (s.appendEvent event) := ⟨h.running, h.input, h.steps, h.calls⟩

end Quiet

section Skippable

/-- The step is pending although all its inbound edges are unselected. -/
def Skippable (definition : Definition) (run : Run) (id : String) : Prop :=
  run.status? id = some .pending ∧ canSkipAsUnselected definition run id = true

/-- A step becomes skippable only through an edge from the step that is updated. -/
theorem Skippable.of_upsert {run : Run} {old : RunStep} {updates : StepUpdate} {other : String}
    (hold : run.step id = some old) (hstatus : updates.status ≠ .pending)
    (h : Skippable definition (run.upsertStep id updates) other) :
    other ≠ id ∧ (Skippable definition run other ∨
      ∃ edge ∈ definition.outgoingControlEdges id, edge.targetStepId = other ∧
        unselectedReachable (run.upsertStep id updates) edge = true) := by
  obtain ⟨hpending, hcan⟩ := h
  have hne : other ≠ id := by
    rintro rfl
    rw [Run.status?, Run.step_upsertStep_self, Option.map_some, Option.some.injEq] at hpending
    exact hstatus hpending
  have hpending' : run.status? other = some .pending := by
    rw [← hpending, Run.status?, Run.status?, Run.step_upsertStep_ne hne]
  refine ⟨hne, ?_⟩
  by_cases hbefore : canSkipAsUnselected definition run other = true
  · exact .inl ⟨hpending', hbefore⟩
  · obtain ⟨hinbound, hall⟩ := Bool.and_eq_true_iff.mp hcan
    have hedge : ∃ edge ∈ definition.inboundControlEdges other,
        unselectedReachable run edge = false := by
      by_contra hnone
      push Not at hnone
      refine hbefore (Bool.and_eq_true_iff.mpr ⟨hinbound, List.all_eq_true.mpr fun edge hmem => ?_⟩)
      simpa using hnone edge hmem
    obtain ⟨edge, hmem, hold'⟩ := hedge
    obtain ⟨hedge, hcontrol, htarget⟩ := Definition.mem_inbound.mp hmem
    have hnew := List.all_eq_true.mp hall edge hmem
    have hsource : edge.sourceStepId = id := by
      by_contra hsource
      rw [unselectedReachable, Run.step_upsertStep_ne hsource] at hnew
      exact Bool.noConfusion (hnew.symm.trans hold')
    exact .inr ⟨edge, Definition.mem_outgoing.mpr ⟨hedge, hcontrol, hsource⟩, htarget, hnew⟩

/-- Nothing is skipped for a step that is still under way. -/
theorem unselectedReachable_open {run : Run} {edge : Edge} {held : RunStep}
    (hheld : run.step edge.sourceStepId = some held) (hopen : terminalSuccess held.status = false) :
    unselectedReachable run edge = false := by
  have hskipped : held.status ≠ .skipped := by
    intro hskip
    rw [hskip] at hopen
    cases hopen
  simp [unselectedReachable, hheld, hopen, hskipped]

theorem Skippable.of_open {run : Run} {old : RunStep} {updates : StepUpdate} {other : String}
    (hold : run.step id = some old) (hopen : terminalSuccess updates.status = false)
    (hstatus : updates.status ≠ .pending)
    (h : Skippable definition (run.upsertStep id updates) other) :
    other ≠ id ∧ Skippable definition run other := by
  obtain ⟨hne, hbefore | ⟨edge, hedge, -, hreach⟩⟩ := h.of_upsert hold hstatus
  · exact ⟨hne, hbefore⟩
  · obtain ⟨-, -, hsource⟩ := Definition.mem_outgoing.mp hedge
    have hheld : (run.upsertStep id updates).step edge.sourceStepId = some (old.update updates) := by
      rw [hsource, Run.step_upsertStep_self, hold, Option.getD_some]
    rw [unselectedReachable_open hheld hopen] at hreach
    cases hreach

end Skippable

section Evaluation

theorem stepUpdate_ends {updates : StepUpdate} {Q : Unit → State → Prop}
    (hknown : id ∈ definition.steps.map Step.id) (h : Q () (s.upsertStep id updates)) :
    Ends (stepUpdate definition id updates) s Q := by
  have hany : definition.steps.any (·.id = id) = true := by simpa using hknown
  refine ends_bind (ends_query (@ensure_eq_ok _ _ _ _ ()|>.mpr hany) (ends_write h))

theorem appendEvent_ends {event : Event} {Q : Unit → State → Prop} (h : Q () (s.appendEvent event)) :
    Ends (appendEvent event) s Q := ends_write h

end Evaluation

section Sweeping

/-- What a sweep of the targets in `swept` has left: nothing skippable but what was left before. -/
structure Swept (definition : Definition) (bound : Nat) (left : String → Prop) (s : State) :
    Prop where
  quiet : Quiet definition s
  fuel : pendingCount s.run ≤ bound
  skippable : ∀ other, Skippable definition s.run other → left other

theorem Swept.weaken {bound bound' : Nat} {left left' : String → Prop}
    (h : Swept definition bound left s) (hle : bound ≤ bound')
    (hleft : ∀ other, left other → left' other) : Swept definition bound' left' s :=
  ⟨h.quiet, h.fuel.trans hle, fun other hskip => hleft other (h.skippable other hskip)⟩

theorem sweep_edges {edges : List Edge} {f : Edge → Runner Unit} {bound : Nat}
    {due : Edge → Prop} {left : String → Prop}
    (hf : ∀ edge ∈ edges, ∀ t left',
      Swept definition bound (fun other => (other = edge.targetStepId ∧ due edge) ∨ left' other) t →
      Ends (f edge) t fun _ => Swept definition bound left')
    (h : Swept definition bound
      (fun other => (∃ edge ∈ edges, edge.targetStepId = other ∧ due edge) ∨ left other) s) :
    Ends (edges.forM f) s fun _ => Swept definition bound left := by
  induction edges generalizing s with
  | nil => exact ends_pure (h.weaken le_rfl fun other hother => by simpa using hother)
  | cons edge rest ih =>
    have hfirst := hf edge List.mem_cons_self s
      (fun other => (∃ edge ∈ rest, edge.targetStepId = other ∧ due edge) ∨ left other)
      (h.weaken le_rfl fun other hother => ?_)
    · exact ends_bind (hfirst.mono fun _ t ht =>
        ih (fun other hmem => hf other (List.mem_cons_of_mem edge hmem)) ht)
    · rcases hother with ⟨found, hmem, htarget, hdue⟩ | hleft
      · rcases List.mem_cons.mp hmem with rfl | hmem
        · exact .inl ⟨htarget.symm, hdue⟩
        · exact .inr (.inl ⟨found, hmem, htarget, hdue⟩)
      · exact .inr (.inr hleft)

theorem Quiet.skip (h : Quiet definition s) (hpending : s.run.status? id = some .pending) :
    Quiet definition (s.upsertStep id skipUpdate) := by
  obtain ⟨held, hheld, hstatus⟩ := step_of_status hpending
  have hquiet := h.steps id held hheld
  refine h.upsertStep hheld ⟨hquiet.known, rfl, fun _ => rfl, hquiet.attempt, ?_⟩
  intro hsucceeded
  cases hsucceeded

/-- Skipping a subgraph takes its first step off the skippable ones, and every step that becomes
skippable on the way. -/
theorem skipSubgraph_ends {bound fuel : Nat} (hfuel : bound ≤ fuel) {left : String → Prop}
    (source : String) (h : Swept definition bound (fun other => other = id ∨ left other) s) :
    Ends (skipSubgraph definition fuel id source) s fun _ => Swept definition bound left := by
  induction fuel generalizing id source s bound left with
  | zero =>
    refine ends_pure ⟨h.quiet, h.fuel, fun other hskip => ?_⟩
    have hless := pendingCount_skip hskip.1
    have hzero := h.fuel
    omega
  | succ fuel ih =>
    refine ends_bind (ends_query rfl ?_)
    split_ifs with hskips
    · obtain ⟨hpending, hcan⟩ := of_decide_eq_true hskips
      obtain ⟨held, hheld, -⟩ := step_of_status hpending
      have hless := pendingCount_skip hpending
      have hbound := h.fuel
      refine ends_bind (stepUpdate_ends (h.quiet.steps id held hheld).known ?_)
      refine ends_bind (appendEvent_ends ?_)
      have hstart : Swept definition (bound - 1)
          (fun other => (∃ edge ∈ definition.outgoingControlEdges id,
            edge.targetStepId = other ∧ True) ∨ left other)
          ((s.upsertStep id skipUpdate).appendEvent (.stepSkipped id (some source) none)) := by
        refine ⟨(h.quiet.skip hpending).appendEvent _, ?_, fun other hskip => ?_⟩
        · change pendingCount (s.run.upsertStep id skipUpdate) ≤ bound - 1
          omega
        · have hskip' : Skippable definition (s.run.upsertStep id skipUpdate) other := hskip
          obtain ⟨hne, hbefore | ⟨edge, hedge, htarget, -⟩⟩ :=
            hskip'.of_upsert hheld (by simp [skipUpdate])
          · exact .inr ((h.skippable other hbefore).resolve_left hne)
          · exact .inl ⟨edge, hedge, htarget, trivial⟩
      refine (sweep_edges (fun edge _ t left' ht => ?_) hstart).mono fun _ t ht =>
        ht.weaken (Nat.sub_le ..) fun _ hleft => hleft
      exact ih (by omega) id (ht.weaken le_rfl fun other hother => hother.imp_left And.left)
    · refine ends_pure ⟨h.quiet, h.fuel, fun other hskip => ?_⟩
      refine (h.skippable other hskip).resolve_left ?_
      rintro rfl
      exact hskips (decide_eq_true hskip)

theorem skipUnselectedSubgraph_ends {bound : Nat} {left : String → Prop} (source : String)
    (h : Swept definition bound (fun other => other = id ∨ left other) s) :
    Ends (skipUnselectedSubgraph definition id source) s fun _ => Swept definition bound left := by
  refine ends_bind (ends_query rfl ?_)
  have hexact : Swept definition (pendingCount s.run) (fun other => other = id ∨ left other) s :=
    ⟨h.quiet, le_rfl, h.skippable⟩
  exact (skipSubgraph_ends le_rfl source hexact).mono fun _ t ht =>
    ht.weaken h.fuel fun _ hleft => hleft

/-- When the targets a step has not selected are all the skippable ones, they are swept. -/
theorem skipUnselectedTargets_ends (hacyclic : definition.Acyclic) {selection : Selection}
    (hquiet : Quiet definition s)
    (h : ∀ other, Skippable definition s.run other → ∃ edge ∈ definition.outgoingControlEdges id,
      edge.targetStepId = other ∧ targetSelected selection edge.targetStepId id = false) :
    Ends (skipUnselectedTargets definition id selection) s fun _ t =>
      Quiet definition t ∧ ∀ other, ¬ Skippable definition t.run other := by
  cases selection with
  | all =>
    refine ends_pure ⟨hquiet, fun other hskip => ?_⟩
    obtain ⟨edge, hedge, -, hselected⟩ := h other hskip
    obtain ⟨hmem, hcontrol, hsource⟩ := Definition.mem_outgoing.mp hedge
    have hne := hacyclic.ne ⟨edge, hmem, hcontrol, hsource, rfl⟩
    simp [targetSelected, hne] at hselected
  | only ids =>
    have hstart : Swept definition (pendingCount s.run)
        (fun other => (∃ edge ∈ definition.outgoingControlEdges id, edge.targetStepId = other ∧
          ids.contains edge.targetStepId = false) ∨ False) s :=
      ⟨hquiet, le_rfl, fun other hskip => .inl (h other hskip)⟩
    refine (sweep_edges (fun edge _ t left ht => ?_) hstart).mono fun _ t ht =>
      ⟨ht.quiet, ht.skippable⟩
    split_ifs with hselected
    · refine ends_pure (ht.weaken le_rfl fun other hother => ?_)
      refine hother.resolve_left fun hdue => ?_
      rw [hselected] at hdue
      cases hdue.2
    · exact skipUnselectedSubgraph_ends id
        (ht.weaken le_rfl fun other hother => hother.imp_left And.left)

end Sweeping

section Execution

theorem addInput_ok {run : Run} {input : Lua} {edge : Edge} (hedge : edge ∈ definition.edges)
    (hdata : dataEdge edge = true)
    (hsteps : ∀ id held, run.step id = some held → QuietStep definition id held) :
    ∃ next, addInput run input edge = .ok next := by
  unfold addInput
  split
  · next source hsource =>
    split_ifs with hsucceeded
    · have hvalue : ∃ value, sourceOutputValue source edge.sourcePort = .ok value := by
        cases hport : edge.sourcePort with
        | none => exact ⟨_, rfl⟩
        | some port =>
          refine Lua.index_of_indexable ((hsteps _ source hsource).output hsucceeded ?_) port
          exact ⟨edge, hedge, hdata, rfl, by simp [hport]⟩
      obtain ⟨value, hvalue⟩ := hvalue
      unfold applyDataEdge
      rw [hvalue]
      cases value with
      | none => exact ⟨_, rfl⟩
      | some value => cases htarget : edge.targetPort <;> cases edge.sourcePort <;> exact ⟨_, rfl⟩
    · exact ⟨_, rfl⟩
  · exact ⟨_, rfl⟩

theorem buildStepInput_ok (h : Quiet definition s) (id : String) :
    ∃ input, buildStepInput definition s.run id = .ok input := by
  unfold buildStepInput
  rw [if_pos h.input]
  have hedges : ∀ edge ∈ definition.edges.filter fun edge => dataEdge edge && edge.targetStepId = id,
      edge ∈ definition.edges ∧ dataEdge edge = true := by
    intro edge hmem
    obtain ⟨hedge, hboth⟩ := List.mem_filter.mp hmem
    exact ⟨hedge, (Bool.and_eq_true_iff.mp hboth).1⟩
  generalize (definition.edges.filter fun edge => dataEdge edge && edge.targetStepId = id) = edges
    at hedges ⊢
  generalize s.run.input = input
  induction edges generalizing input with
  | nil => exact ⟨input, rfl⟩
  | cons edge rest ih =>
    obtain ⟨hedge, hdata⟩ := hedges edge List.mem_cons_self
    obtain ⟨next, hnext⟩ := @addInput_ok _ s.run input edge hedge hdata h.steps
    obtain ⟨last, hlast⟩ := ih (fun other hmem => hedges other (List.mem_cons_of_mem edge hmem)) next
    refine ⟨last, ?_⟩
    rw [List.foldlM_cons, hnext]
    exact hlast

/-- The run between two executions. -/
structure Calm (definition : Definition) (executor : Executor) (s : State) : Prop where
  scheduled : Scheduled definition executor (fun _ => 0) s
  quiet : Quiet definition s
  swept : ∀ other, ¬ Skippable definition s.run other

/-- The state in which the executor is asked to run a step. -/
def State.asked (s : State) (id : String) (input : Lua) : State :=
  let started := (s.upsertStep id { status := .running, input := some input }).appendEvent
    (.stepStarted id false)
  started.addCall (.run id input (stateOf (started.run.step id)) started.run)

theorem unselectedReachable_routed {run : Run} {edge : Edge} {done : RunStep}
    {selection : Selection} (hdone : run.step edge.sourceStepId = some done)
    (hunselected : done.unselected = false) (hnext : done.nextStepIds = some selection)
    (h : unselectedReachable run edge = true) :
    targetSelected selection edge.targetStepId edge.sourceStepId = false := by
  cases selection <;>
    simp_all [unselectedReachable, selectedTarget, targetSelected]

/-- What the executor's answer is recorded as. -/
structure Recorded (definition : Definition) (id : String) (selection : Selection)
    (updates : StepUpdate) : Prop where
  status : terminalSuccess updates.status = true
  selection : updates.nextStepIds = some selection
  attempt : updates.attempt = none
  unselected : updates.unselected = none
  output : updates.status = .succeeded → definition.Ported id →
    ∃ output, updates.output = some output ∧ output.indexable = true

variable {selection : Selection} {updates : StepUpdate} (input : Lua)

theorem step_asked {held : RunStep} (hheld : s.run.step id = some held) :
    (s.asked id input).run.step id =
      some (held.update { status := .running, input := some input }) := by
  refine (Run.step_upsertStep hheld _ _).trans ?_
  rw [if_pos rfl]

theorem step_asked_ne {other : String} (hne : other ≠ id) :
    (s.asked id input).run.step other = s.run.step other := Run.step_upsertStep_ne hne

/-- Once the answer is recorded, only targets the step has not selected can be skippable. -/
theorem Calm.recorded (h : Calm definition executor s) {held : RunStep}
    (hheld : s.run.step id = some held) (hready : held.status = .ready)
    (hrecorded : Recorded definition id selection updates) (event : Event) :
    Quiet definition (((s.asked id input).upsertStep id updates).appendEvent event) ∧
      ∀ other, Skippable definition
        (((s.asked id input).upsertStep id updates).appendEvent event).run other →
        ∃ edge ∈ definition.outgoingControlEdges id, edge.targetStepId = other ∧
          targetSelected selection edge.targetStepId id = false := by
  have hquiet := h.quiet.steps id held hheld
  have hasked := step_asked input hheld
  have hunselected : held.unselected = false := by
    by_contra hset
    have hskipped := hquiet.unselected (by simpa using hset)
    rw [hready] at hskipped
    cases hskipped
  have hsucceeds := hrecorded.status
  have hmoved : updates.status ≠ .pending := by
    intro hpending
    rw [hpending] at hsucceeds
    cases hsucceeds
  constructor
  · refine Quiet.appendEvent (s := (s.asked id input).upsertStep id updates) ⟨h.quiet.running, h.quiet.input, fun other found hfound => ?_, ?_⟩ event
    · by_cases hne : other = id
      · subst hne
        change ((s.asked other input).run.upsertStep other updates).step other = some found at hfound
        rw [Run.step_upsertStep_self, hasked, Option.getD_some] at hfound
        obtain rfl := Option.some.inj hfound
        refine ⟨hquiet.known, ?_, ?_, ?_, ?_⟩
        · change quietStatus updates.status = true
          cases hstatus : updates.status <;> simp_all [terminalSuccess, quietStatus]
        · intro hset
          change updates.unselected.getD held.unselected = true at hset
          rw [hrecorded.unselected, Option.getD_none, hunselected] at hset
          cases hset
        · change updates.attempt.getD held.attempt = 0
          rw [hrecorded.attempt, Option.getD_none, hquiet.attempt]
        · intro hstatus hported
          obtain ⟨output, houtput, hindexable⟩ := hrecorded.output hstatus hported
          change (updates.output.getD held.output).indexable = true
          rw [houtput, Option.getD_some]
          exact hindexable
      · refine h.quiet.steps other found ?_
        rw [← step_asked_ne input hne]
        exact (Run.step_upsertStep_ne hne).symm.trans hfound
    · intro call hcall
      rcases List.mem_append.mp hcall with hold | hnew
      · exact h.quiet.calls call hold
      · rw [List.mem_singleton.mp hnew]
        exact ⟨id, hquiet.known, decide_eq_true rfl⟩
  · intro other hskip
    obtain ⟨hne, hbefore | ⟨edge, hedge, htarget, hreach⟩⟩ := hskip.of_upsert hasked hmoved
    · have hstarted := Skippable.of_open hheld rfl (by simp) hbefore
      exact absurd hstarted.2 (h.swept other)
    · obtain ⟨-, -, hsource⟩ := Definition.mem_outgoing.mp hedge
      have hdone : ((s.asked id input).run.upsertStep id updates).step edge.sourceStepId =
          some ((held.update { status := .running, input := some input }).update updates) := by
        rw [hsource, Run.step_upsertStep_self, hasked, Option.getD_some]
      refine ⟨edge, hedge, htarget, ?_⟩
      rw [← hsource]
      refine unselectedReachable_routed hdone ?_ ?_ hreach
      · change updates.unselected.getD held.unselected = false
        rw [hrecorded.unselected, Option.getD_none, hunselected]
      · change (updates.nextStepIds <|> held.nextStepIds) = some selection
        rw [hrecorded.selection]
        rfl

/-- A step that has just succeeded has no completed target. -/
theorem Calm.routed (h : Calm definition executor s) (hacyclic : definition.Acyclic)
    {held : RunStep} (hheld : s.run.step id = some held) (hready : held.status = .ready)
    (hstatus : updates.status = .succeeded) (hnext : updates.nextStepIds = some selection)
    (event : Event) :
    Routed definition id selection (((s.asked id input).upsertStep id updates).appendEvent event) := by
  refine ⟨⟨_, Run.step_upsertStep_self .., hstatus, ?_⟩, fun edge hedge _ => ?_⟩
  · change (updates.nextStepIds <|> _) = some selection
    rw [hnext]
    rfl
  · obtain ⟨hmem, hcontrol, hsource⟩ := Definition.mem_outgoing.mp hedge
    have hne : edge.targetStepId ≠ id := (hacyclic.ne ⟨edge, hmem, hcontrol, hsource, rfl⟩).symm
    rw [← h.scheduled.targets_open hheld (by rw [hready]; rfl) hedge]
    refine congrArg (fun found => Option.any terminalSuccess (Option.map RunStep.status found)) ?_
    exact (Run.step_upsertStep_ne hne).trans (step_asked_ne input hne)

theorem resets_idle (h : Routed definition id selection s) :
    Ends (resetSelectedTerminalTargets definition id selection) s fun _ t => t = s := by
  refine ends_forM (J := fun _ t => t = s) (fun done edge rest hsplit t ht => ?_) rfl
  subst ht
  refine ends_bind (ends_query rfl ?_)
  split_ifs with hresets
  · obtain ⟨hselected, hdone⟩ := of_decide_eq_true hresets
    rw [h.targets edge (by rw [hsplit]; simp) hselected] at hdone
    cases hdone
  · exact ends_pure rfl

theorem skipUnselectedTargets_calls :
    Spec (· = s) (skipUnselectedTargets definition id selection) (fun t => t.calls = s.calls)
      (fun _ t => t.calls = s.calls) :=
  (skipUnselectedTargets_spec definition (J := fun t => t.calls = s.calls)
    (fun _ _ _ ht _ _ => ⟨ht, ht⟩) id selection).weaken (fun _ heq => heq ▸ rfl) (fun _ ht => ht)
    fun _ _ ht => ht

/-- What an execution leaves behind, apart from the schedule. -/
def Advanced (definition : Definition) (s t : State) : Prop :=
  Quiet definition t ∧ (∀ other, ¬ Skippable definition t.run other) ∧
    t.calls.length = s.calls.length + 1

theorem applySuccess_ends (h : Calm definition executor s) (hacyclic : definition.Acyclic)
    {held : RunStep} (hheld : s.run.step id = some held) (hready : held.status = .ready)
    (outcome : Outcome) (houtput : definition.Ported id →
      ∀ output ∈ outcome.output, output.indexable = true) :
    Ends (applySuccess definition id outcome) (s.asked id input) fun _ => Advanced definition s := by
  set updates : StepUpdate := {
    status := .succeeded
    output := some (outcome.output.getD .empty)
    state := some (outcome.state.getD .empty)
    nextStepIds := some (routingSelection outcome)
    finishedAt := true } with hupdates
  have hknown := (h.quiet.steps id held hheld).known
  have hrecorded : Recorded definition id (routingSelection outcome) updates := by
    refine ⟨rfl, rfl, rfl, rfl, fun _ hported => ⟨_, rfl, ?_⟩⟩
    cases hvalue : outcome.output with
    | none => rfl
    | some output => exact houtput hported output hvalue
  obtain ⟨hquiet, hskip⟩ := h.recorded input hheld hready hrecorded (.stepSucceeded id)
  have hrouted : Routed definition id (routingSelection outcome)
      (((s.asked id input).upsertStep id updates).appendEvent (.stepSucceeded id)) :=
    h.routed input hacyclic hheld hready rfl rfl _
  refine ends_bind (stepUpdate_ends hknown (ends_bind (appendEvent_ends ?_)))
  have hskipping := ((skipUnselectedTargets_ends hacyclic hquiet hskip).and_spec
    skipUnselectedTargets_calls).and_spec ((skipUnselectedTargets_spec definition
      (J := Routed definition id (routingSelection outcome))
      (fun t other source ht hpending hcan =>
        have hroute := ht.skip hpending hcan
        ⟨hroute, hroute.appendEvent _⟩) id (routingSelection outcome)).weaken
      (fun _ heq => heq ▸ hrouted) (fun _ ht => ht) fun _ _ ht => ht)
  refine ends_bind (hskipping.mono ?_)
  rintro _ t ⟨⟨⟨hquiet, hswept⟩, hcalls⟩, hroute⟩
  refine (resets_idle hroute).mono ?_
  rintro _ u rfl
  refine ⟨hquiet, hswept, ?_⟩
  rw [hcalls]
  exact List.length_append

theorem applySkip_ends (h : Calm definition executor s) (hacyclic : definition.Acyclic)
    {held : RunStep} (hheld : s.run.step id = some held) (hready : held.status = .ready)
    (outcome : Outcome) :
    Ends (applySkip definition id outcome) (s.asked id input) fun _ => Advanced definition s := by
  have hknown := (h.quiet.steps id held hheld).known
  have hrecorded : Recorded definition id (routingSelection outcome) {
      status := .skipped
      reason := outcome.reason
      nextStepIds := some (routingSelection outcome)
      finishedAt := true } := ⟨rfl, rfl, rfl, rfl, nofun⟩
  obtain ⟨hquiet, hskip⟩ := h.recorded input hheld hready hrecorded
    (.stepSkipped id none outcome.reason)
  refine ends_bind (stepUpdate_ends hknown (ends_bind (appendEvent_ends ?_)))
  refine ((skipUnselectedTargets_ends hacyclic hquiet hskip).and_spec
    skipUnselectedTargets_calls).mono ?_
  rintro _ t ⟨⟨hquiet, hswept⟩, hcalls⟩
  refine ⟨hquiet, hswept, ?_⟩
  rw [hcalls]
  exact List.length_append

theorem findStep_some (h : id ∈ definition.steps.map Step.id) :
    ∃ step, definition.findStep id = some step := by
  obtain ⟨step, hmem, hid⟩ := List.mem_map.mp h
  have hfound : step ∈ definition.steps.filter (·.id = id) :=
    List.mem_filter.mpr ⟨hmem, decide_eq_true hid⟩
  exact Option.ne_none_iff_exists'.mp fun hnone =>
    List.ne_nil_of_mem hfound (List.getLast?_eq_none_iff.mp hnone)

/-- An execution ends, and leaves the run between two executions again. -/
theorem executeReadyStep_ends (hacyclic : definition.Acyclic) (hcompletes : executor.Completes)
    (hreadable : Readable definition executor) (h : Calm definition executor s)
    (hready : s.run.status? id = some .ready) :
    Ends (executeReadyStep definition executor id) s fun _ t =>
      Calm definition executor t ∧ t.calls.length = s.calls.length + 1 := by
  obtain ⟨held, hheld, hstatus⟩ := step_of_status hready
  have hknown := (h.quiet.steps id held hheld).known
  obtain ⟨step, hstep⟩ := findStep_some hknown
  obtain rfl := findStep_id hstep
  obtain ⟨input, hinput⟩ := buildStepInput_ok h.quiet step.id
  obtain ⟨outcome, hrespond, hanswer⟩ := hcompletes (s.asked step.id input).calls
  have hends : Ends (executeReadyStep definition executor step.id) s
      fun _ => Advanced definition s := by
    refine ends_bind (ends_query (a := step) (by rw [hstep]) ?_)
    refine ends_bind (ends_query hinput ?_)
    refine ends_bind (stepUpdate_ends hknown (ends_bind (appendEvent_ends ?_)))
    refine ends_bind (ends_query rfl (ends_bind ?_))
    refine ends_bind (ends_write (ends_query hrespond ?_))
    unfold applyOutcome applyNormalized
    rcases hanswer with hsucceeded | hskipped
    · have hnormal : normalizeOutcome (.table outcome) = outcome := by
        simp [normalizeOutcome, hsucceeded]
      rw [hnormal, hsucceeded]
      exact applySuccess_ends input h hacyclic hheld hstatus outcome
        (hreadable _ _ _ _ _ outcome hrespond hsucceeded)
    · have hnormal : normalizeOutcome (.table outcome) = outcome := by
        simp [normalizeOutcome, hskipped]
      rw [hnormal, hskipped]
      exact applySkip_ends input h hacyclic hheld hstatus outcome
  refine (hends.and_spec (executeReadyStep_spec hacyclic h.scheduled hready)).mono ?_
  rintro _ t ⟨⟨hquiet, hswept, hcalls⟩, hscheduled⟩
  exact ⟨⟨hscheduled, hquiet, hswept⟩, hcalls⟩

end Execution

end Space2.Workflows
