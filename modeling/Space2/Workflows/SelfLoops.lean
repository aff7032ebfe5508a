import Space2.Workflows.Batching

/-!
# Steps that wait for themselves

An executor that succeeds with the default routing selects every target but the step itself, so an
edge from a step to itself is never taken. A step whose only inbound edge is its own is ready at
once, and then the run is the one of the definition without these edges. A step with a second
inbound edge waits for all its sources, itself among them, and stays pending for ever.
-/
namespace Space2.Workflows
open Base Base.Durable Relation

variable {definition : Definition} {executor : Executor} {s : State} {id : String}

/-- The executor succeeds each time and selects nothing in particular. -/
def Executor.Succeeds (executor : Executor) : Prop :=
  ∀ history, ∃ outcome, executor.respond history = .ok (.table outcome) ∧
    outcome.status = .succeeded ∧ routingSelection outcome = .all

theorem Executor.Succeeds.completes (h : executor.Succeeds) : executor.Completes := by
  intro history
  obtain ⟨outcome, hrespond, hstatus, -⟩ := h history
  exact ⟨outcome, hrespond, .inl hstatus⟩

def selfLoop (edge : Edge) : Bool := controlEdge edge && edge.sourceStepId = edge.targetStepId

namespace Definition

/-- Every control cycle is an edge from a step to itself. -/
def AcyclicButLoops (definition : Definition) : Prop :=
  ∀ id, ¬ TransGen (fun source target => definition.Controls source target ∧ source ≠ target) id id

/-- A step with an edge to itself has no other inbound control edge. -/
def LoopsAlone (definition : Definition) : Prop :=
  ∀ id, ∀ edge ∈ definition.inboundControlEdges id, edge.sourceStepId = id →
    definition.inboundControlEdges id = [edge]

def withoutLoops (definition : Definition) : Definition where
  id := definition.id
  steps := definition.steps
  edges := definition.edges.filter fun edge => !selfLoop edge
  endpoints edge hedge := definition.endpoints edge (List.mem_of_mem_filter hedge)

theorem controls_withoutLoops {source target : String} :
    definition.withoutLoops.Controls source target ↔
      definition.Controls source target ∧ source ≠ target := by
  constructor
  · rintro ⟨edge, hedge, hcontrol, rfl, rfl⟩
    obtain ⟨hmem, hloop⟩ := List.mem_filter.mp hedge
    exact ⟨⟨edge, hmem, hcontrol, rfl, rfl⟩, by simpa [selfLoop, hcontrol] using hloop⟩
  · rintro ⟨⟨edge, hmem, hcontrol, rfl, rfl⟩, hne⟩
    exact ⟨edge, List.mem_filter.mpr ⟨hmem, by simp [selfLoop, hne]⟩, hcontrol, rfl, rfl⟩

/-- Control edges from one step to another alone make no cycle. -/
theorem acyclicButLoops (first last : String) (hne : last ≠ first)
    (h : ∀ source target, definition.Controls source target → source ≠ target →
      source = first ∧ target = last) : definition.AcyclicButLoops := by
  intro id hcycle
  obtain ⟨next, ⟨hfirst, hnext⟩, -⟩ := TransGen.head'_iff.mp hcycle
  obtain ⟨before, -, hlast, hbefore⟩ := TransGen.tail'_iff.mp hcycle
  exact hne ((h _ _ hlast hbefore).2.symm.trans (h _ _ hfirst hnext).1)

theorem AcyclicButLoops.acyclic (h : definition.AcyclicButLoops) :
    definition.withoutLoops.Acyclic := by
  intro id hcycle
  exact h id (TransGen.mono (fun _ _ => controls_withoutLoops.mp) _ _ hcycle)

theorem inbound_withoutLoops (id : String) :
    definition.withoutLoops.inboundControlEdges id =
      (definition.inboundControlEdges id).filter fun edge => edge.sourceStepId ≠ id := by
  unfold inboundControlEdges withoutLoops
  rw [List.filter_filter, List.filter_filter]
  refine List.filter_congr fun edge _ => ?_
  by_cases htarget : edge.targetStepId = id
  · cases hcontrol : controlEdge edge <;> simp [selfLoop, hcontrol, htarget]
  · simp [htarget]

theorem outgoing_withoutLoops (id : String) :
    definition.withoutLoops.outgoingControlEdges id =
      (definition.outgoingControlEdges id).filter fun edge => edge.targetStepId ≠ id := by
  unfold outgoingControlEdges withoutLoops
  rw [List.filter_filter, List.filter_filter]
  refine List.filter_congr fun edge _ => ?_
  by_cases hsource : edge.sourceStepId = id
  · cases hcontrol : controlEdge edge <;> simp [selfLoop, hcontrol, hsource, eq_comm]
  · simp [hsource]

theorem dataEdges_withoutLoops (id : String) :
    (definition.withoutLoops.edges.filter fun edge => dataEdge edge && edge.targetStepId = id) =
      definition.edges.filter fun edge => dataEdge edge && edge.targetStepId = id := by
  unfold withoutLoops
  rw [List.filter_filter]
  refine List.filter_congr fun edge _ => ?_
  cases hdata : dataEdge edge
  · rfl
  · have hkind : edge.kind = some .data := of_decide_eq_true hdata
    simp [selfLoop, controlEdge, hkind]

end Definition

section Unblocked

/-- A pending step is as ready without the loops as with them. -/
theorem stepReady_withoutLoops (halone : definition.LoopsAlone) {run : Run}
    (hpending : run.status? id = some .pending) :
    stepReady definition.withoutLoops run id = stepReady definition run id := by
  have hinbound := definition.inbound_withoutLoops id
  by_cases hloop : ∃ edge ∈ definition.inboundControlEdges id, edge.sourceStepId = id
  · obtain ⟨edge, hedge, hsource⟩ := hloop
    have hsingle := halone id edge hedge hsource
    rw [hsingle, List.filter_cons_of_neg (by simp [hsource])] at hinbound
    simp [stepReady, hsingle, hinbound, hsource, hpending]
  · push Not at hloop
    rw [List.filter_eq_self.mpr fun edge hedge => decide_eq_true (hloop edge hedge)] at hinbound
    unfold stepReady stepReady.joined sources
    rw [hinbound]

theorem markReady_withoutLoops (halone : definition.LoopsAlone) (step : Step) :
    markReady definition.withoutLoops step = markReady definition step := by
  have hwaits : ∀ s : State,
      (s.run.status? step.id = some .pending ∧
        stepReady definition.withoutLoops s.run step.id = true) ↔
      (s.run.status? step.id = some .pending ∧ stepReady definition s.run step.id = true) := by
    intro s
    refine and_congr_right fun hpending => ?_
    rw [stepReady_withoutLoops halone hpending]
  unfold markReady
  simp only [hwaits]
  rfl

theorem markReadySteps_withoutLoops (halone : definition.LoopsAlone) :
    markReadySteps definition.withoutLoops = markReadySteps definition :=
  congrArg definition.steps.forM (funext fun step => markReady_withoutLoops halone step)

theorem forM_filter {α : Type} {f : α → Runner Unit} {p : α → Bool} {l : List α}
    (h : ∀ a ∈ l, p a = false → f a = pure ()) : (l.filter p).forM f = l.forM f := by
  induction l with
  | nil => rfl
  | cons a l ih =>
    have hrest := ih fun b hb => h b (List.mem_cons_of_mem a hb)
    change _ = (f a >>= fun _ => l.forM f)
    cases hp : p a with
    | true =>
      rw [List.filter_cons_of_pos hp, ← hrest]
      rfl
    | false =>
      rw [List.filter_cons_of_neg (by simp [hp]), hrest, h a List.mem_cons_self hp]
      rfl

/-- The default routing never goes back to the step itself. -/
theorem resetSelectedTerminalTargets_withoutLoops (id : String) :
    resetSelectedTerminalTargets definition.withoutLoops id .all =
      resetSelectedTerminalTargets definition id .all := by
  unfold resetSelectedTerminalTargets
  rw [definition.outgoing_withoutLoops]
  refine forM_filter fun edge _ htarget => ?_
  have hsame : edge.targetStepId = id := by simpa using htarget
  unfold resetTarget
  simp only [targetSelected, hsame, ne_eq, not_true_eq_false, decide_false, Bool.false_eq_true,
    false_and]
  rfl

theorem applyOutcome_withoutLoops {outcome : Outcome} (hstatus : outcome.status = .succeeded)
    (hrouting : routingSelection outcome = .all) (step : Step) :
    applyOutcome definition.withoutLoops step (.table outcome) =
      applyOutcome definition step (.table outcome) := by
  have hnormal : normalizeOutcome (.table outcome) = outcome := by
    simp [normalizeOutcome, hstatus]
  unfold applyOutcome applyNormalized
  rw [hnormal, hstatus]
  dsimp only
  unfold applySuccess
  rw [hrouting]
  dsimp only
  rw [resetSelectedTerminalTargets_withoutLoops]
  rfl

theorem executeReadyStep_withoutLoops (hsucceeds : executor.Succeeds) (id : String) :
    executeReadyStep definition.withoutLoops executor id =
      executeReadyStep definition executor id := by
  have hinput : buildStepInput definition.withoutLoops = buildStepInput definition := by
    funext run id
    unfold buildStepInput
    rw [definition.dataEdges_withoutLoops]
  funext s
  unfold executeReadyStep
  rw [hinput]
  refine bind_congr_at fun step _ => bind_congr_at fun input _ => bind_congr_at fun _ _ =>
    bind_congr_at fun _ _ => bind_congr_at fun t _ => bind_congr_at fun returned hreturned => ?_
  have hrespond : executor.respond _ = .ok returned := hreturned
  obtain ⟨outcome, hanswer, hstatus, hrouting⟩ := hsucceeds _
  obtain rfl := Except.ok.inj (hanswer.symm.trans hrespond)
  rw [applyOutcome_withoutLoops hstatus hrouting]

theorem tickLoop_withoutLoops (halone : definition.LoopsAlone) (hsucceeds : executor.Succeeds)
    (left : Nat) :
    tickLoop definition.withoutLoops executor left = tickLoop definition executor left := by
  induction left with
  | zero => rfl
  | succ left ih =>
    unfold tickLoop
    rw [markReadySteps_withoutLoops halone]
    simp only [executeReadyStep_withoutLoops hsucceeds, ih]
    rfl

theorem tickRun_withoutLoops (halone : definition.LoopsAlone) (hsucceeds : executor.Succeeds)
    (maxSteps : Nat) :
    tickRun definition.withoutLoops executor maxSteps = tickRun definition executor maxSteps := by
  unfold tickRun
  rw [markReadySteps_withoutLoops halone, tickLoop_withoutLoops halone hsucceeds]

theorem after_withoutLoops (halone : definition.LoopsAlone) (hsucceeds : executor.Succeeds)
    (budget : Nat → Nat) (start : State) (ticks : Nat) :
    after definition.withoutLoops executor budget start ticks =
      after definition executor budget start ticks := by
  induction ticks with
  | zero => rfl
  | succ ticks ih => rw [after, after, ih, tickRun_withoutLoops halone hsucceeds]

end Unblocked

section Blocked

def Waits (id : String) (s : State) : Prop := s.run.status? id = some .pending

theorem Waits.upsertStep {other : String} {updates : StepUpdate} (h : Waits id s)
    (hne : other ≠ id) : Waits id (s.upsertStep other updates) := by
  unfold Waits Run.status?
  rw [← h, Run.status?]
  exact congrArg (Option.map RunStep.status) (Run.step_upsertStep_ne hne.symm)

/-- A pending step that is one of several sources of its own is not ready. -/
theorem stepReady_blocked {edge : Edge} (hedge : edge ∈ definition.inboundControlEdges id)
    (hloop : edge.sourceStepId = id) (hmore : definition.inboundControlEdges id ≠ [edge])
    {run : Run} (hpending : run.status? id = some .pending) :
    stepReady definition run id = false := by
  have hjoined : stepReady.joined definition run id = false := by
    obtain ⟨held, hheld, hstatus⟩ := step_of_status hpending
    refine Bool.and_eq_false_iff.mpr (.inr (List.all_eq_false.mpr ⟨(edge, held), ?_, ?_⟩))
    · exact List.mem_filterMap.mpr ⟨edge, hedge, by rw [hloop, hheld]; rfl⟩
    · simp [hstatus, terminal]
  unfold stepReady
  split
  · next hnone =>
    rw [hnone] at hedge
    cases hedge
  · next only honly =>
    rw [honly] at hedge
    exact absurd (by rw [honly, List.mem_singleton.mp hedge]) hmore
  · exact hjoined

variable {edge : Edge} (hedge : edge ∈ definition.inboundControlEdges id)
  (hloop : edge.sourceStepId = id) (hmore : definition.inboundControlEdges id ≠ [edge])

include hedge hloop hmore in
theorem markReady_waits (step : Step) :
    Spec (Waits id) (markReady definition step) (Waits id) (fun _ => Waits id) := by
  refine spec_of_each fun s h => spec_query_bind h fun waits hwaits => ?_
  refine spec_ite (fun htrue => ?_) fun _ => spec_pure_at h h
  rw [← Except.ok.inj hwaits] at htrue
  obtain ⟨hpending, hready⟩ := of_decide_eq_true htrue
  have hne : step.id ≠ id := by
    rintro rfl
    rw [stepReady_blocked hedge hloop hmore hpending] at hready
    cases hready
  exact record_spec h (h.upsertStep hne) (h.upsertStep hne) (h.upsertStep hne)

include hedge hloop hmore in
theorem markReadySteps_waits :
    Spec (Waits id) (markReadySteps definition) (Waits id) (fun _ => Waits id) :=
  spec_forM (J := fun _ => Waits id) (fun _ _ h => h)
    fun _ step _ _ => markReady_waits hedge hloop hmore step

/-- Only a step that is complete is made ready again. -/
theorem applySuccess_waits {other : String} (hne : other ≠ id) {outcome : Outcome}
    (hrouting : routingSelection outcome = .all) :
    Spec (Waits id) (applySuccess definition other outcome) (Waits id) (fun _ => Waits id) := by
  refine spec_of_each fun s h => ?_
  unfold applySuccess
  rw [hrouting]
  refine stepUpdate_bind h (appendEvent_bind (h.upsertStep hne) ?_)
  refine spec_bind (R := fun _ => Waits id) (spec_pure_at (h.upsertStep hne) (h.upsertStep hne))
    fun _ => spec_forM (J := fun _ => Waits id) (fun _ _ ht => ht) fun _ target _ _ => ?_
  refine spec_of_each fun t ht => spec_query_bind ht fun resets hresets => ?_
  refine spec_ite (fun htrue => ?_) fun _ => spec_pure_at ht ht
  rw [← Except.ok.inj hresets] at htrue
  have hdone := (of_decide_eq_true htrue).2
  have htarget : target.targetStepId ≠ id := by
    intro heq
    rw [heq, ht] at hdone
    cases hdone
  exact stepUpdate_spec ht (ht.upsertStep htarget) (ht.upsertStep htarget)

theorem executeReadyStep_waits (hsucceeds : executor.Succeeds) {other : String} (hne : other ≠ id) :
    Spec (Waits id) (executeReadyStep definition executor other) (Waits id)
      (fun _ => Waits id) := by
  refine spec_of_each fun s h => spec_query_bind h fun step hfind => ?_
  have hstep : step.id ≠ id := by
    cases hfound : definition.findStep other with
    | none => simp [hfound] at hfind
    | some found =>
      obtain rfl : found = step := by simpa [hfound] using hfind
      rwa [findStep_id hfound]
  refine spec_query_bind h fun input _ => ?_
  have hstarted : Waits id (s.upsertStep other { status := .running, input := some input }) :=
    h.upsertStep hne
  refine stepUpdate_bind h (appendEvent_bind hstarted ?_)
  refine spec_query_bind hstarted fun t ht => ?_
  obtain rfl := Except.ok.inj ht
  refine invoke_bind hstarted hstarted fun returned hreturned => ?_
  obtain ⟨outcome, hanswer, hstatus, hrouting⟩ := hsucceeds _
  obtain rfl := Except.ok.inj (hanswer.symm.trans hreturned)
  have hnormal : normalizeOutcome (.table outcome) = outcome := by
    simp [normalizeOutcome, hstatus]
  unfold applyOutcome applyNormalized
  rw [hnormal, hstatus]
  exact (applySuccess_waits hstep hrouting).weaken (fun _ heq => heq ▸ hstarted) (fun _ ht => ht)
    fun _ _ ht => ht

include hedge hloop hmore in
theorem tickLoop_waits (hsucceeds : executor.Succeeds) (left : Nat) :
    Spec (Waits id) (tickLoop definition executor left) (Waits id) (fun _ => Waits id) := by
  induction left with
  | zero => exact spec_pure fun _ h => ⟨h, h⟩
  | succ left ih =>
    refine spec_bind (markReadySteps_waits hedge hloop hmore) fun _ => spec_of_each fun s h => ?_
    refine spec_query_bind h fun next hnext => ?_
    cases next with
    | none => exact spec_pure_at h h
    | some other =>
      have hne : other ≠ id := by
        rintro rfl
        have hready := nextReady_status (Except.ok.inj hnext)
        rw [h] at hready
        cases hready
      exact spec_bind ((executeReadyStep_waits hsucceeds hne).weaken (fun _ heq => heq ▸ h)
        (fun _ ht => ht) fun _ _ ht => ht) fun _ => ih

theorem settleRun_waits : Spec (Waits id) settleRun (Waits id) (fun _ => Waits id) := by
  have hrecord : ∀ s event status output error, Waits id s →
      Spec (· = s) (do appendEvent event; updateRunStatus status output error) (Waits id)
        (fun _ => Waits id) := by
    intro s event status output error h
    exact appendEvent_bind h (spec_write fun _ heq => heq ▸ ⟨h, h, h⟩)
  refine spec_of_each fun s h => spec_query_bind h fun run _ => spec_ite
    (fun _ => hrecord s _ _ _ _ h) fun _ => spec_query_bind h fun run _ => ?_
  refine spec_ite (fun _ => hrecord s _ _ _ _ h) fun _ => spec_ite (fun _ => hrecord s _ _ _ _ h)
    fun _ => spec_ite (fun _ => hrecord s _ _ _ _ h) fun _ => spec_ite
      (fun _ => hrecord s _ _ _ _ h) fun _ => spec_pure_at h h

include hedge hloop hmore in
theorem tickRun_waits (hsucceeds : executor.Succeeds) (maxSteps : Nat) :
    Spec (Waits id) (tickRun definition executor maxSteps) (Waits id) (fun _ => Waits id) := by
  have hstart : Spec (Waits id) startIfQueued (Waits id) (fun _ => Waits id) := by
    refine spec_of_each fun s h => spec_query_bind h fun run _ => ?_
    refine spec_ite (fun _ => ?_) fun _ => spec_pure_at h h
    exact appendEvent_bind h (spec_write fun _ heq => heq ▸ ⟨h, h, h⟩)
  refine spec_bind hstart fun _ => spec_of_each fun s h => ?_
  refine spec_query_bind h fun run _ => spec_ite (fun _ => ?_) fun _ => spec_pure_at h h
  refine spec_bind ((tickLoop_waits hedge hloop hmore hsucceeds maxSteps).weaken
    (fun _ heq => heq ▸ h) (fun _ ht => ht) fun _ _ ht => ht) fun _ => ?_
  exact spec_bind (markReadySteps_waits hedge hloop hmore) fun _ => settleRun_waits

include hedge hloop hmore in
theorem after_waits (hsucceeds : executor.Succeeds) (budget : Nat → Nat) (h : Waits id s)
    (ticks : Nat) : Waits id (after definition executor budget s ticks) := by
  induction ticks with
  | zero => exact h
  | succ ticks ih =>
    exact (tickRun_waits hedge hloop hmore hsucceeds (budget ticks)).crash _ ih _
      (Program.crashes_final _ _)

theorem startRun_waits (runId : String) (input : Lua) (h : id ∈ definition.steps.map Step.id) :
    Waits id (startRun definition runId input) := by
  have hlookup := step_insertNew definition.steps ∅ id
  rw [if_pos h] at hlookup
  exact congrArg (Option.map RunStep.status) hlookup

end Blocked

section Runs

variable (definition executor) in
/-- However many executions each tick has, the run never fails, as a stalled run does, and after
finitely many ticks every step has been executed or skipped. -/
def NeverBlocks (start : State) : Prop :=
  ∀ budget : Nat → Nat, (∀ n, 1 ≤ budget n) →
    (∀ n, (after definition executor budget start n).run.status ≠ .failed) ∧
    ∃ ticks, ∀ n, ticks ≤ n → ∀ id ∈ definition.steps.map Step.id, ∃ held,
      (after definition executor budget start n).run.step id = some held ∧
        (held.status = .succeeded ∨ held.status = .skipped)

open scoped BigOperators in
theorem Definition.Acyclic.neverBlocks (hacyclic : definition.Acyclic)
    (hcompletes : executor.Completes) (hreadable : Readable definition executor) (runId : String)
    {input : Lua} (hinput : input.isTable = true) :
    NeverBlocks definition executor (startRun definition runId input) := by
  have hcalm : Calm definition executor (startRun definition runId input).started :=
    startRun_calm hinput
  intro budget hbudget
  refine ⟨fun n => ?_, definition.steps.length + 1, fun n hn id hid => ?_⟩
  · cases n with
    | zero => exact nofun
    | succ n =>
      rw [after_stage hacyclic hcompletes hreadable hinput]
      exact stage_status hacyclic hcompletes hreadable hcalm _
  · obtain ⟨n, rfl⟩ : ∃ k, n = k + 1 := ⟨n - 1, by omega⟩
    rw [after_stage hacyclic hcompletes hreadable hinput]
    have hspent := (Nat.le_of_succ_le_succ hn).trans ((Nat.le_succ n).trans (le_spent hbudget (n + 1)))
    have hdone := stage_still hacyclic hcompletes hreadable hcalm hspent
    have hcalm' := hcalm.iterate hacyclic hcompletes hreadable
      (∑ i ∈ Finset.range (n + 1), budget i)
    obtain ⟨hmarkedCalm, hmarked, -⟩ := hcalm'.mark hacyclic
    obtain ⟨held, hheld⟩ := hmarkedCalm.scheduled.present id hid
    have hsuccess := hmarkedCalm.complete hacyclic hmarked hdone id held hheld
    refine ⟨held, ?_, by simpa [terminalSuccess] using hsuccess⟩
    unfold stage
    dsimp only
    rw [if_pos hdone]
    exact hheld

/-- Steps with an edge to themselves never block a run whose executor succeeds with the default
routing exactly when none of them has another inbound control edge, provided the run's input is a
table and no port is taken of an output without fields. -/
theorem self_loops_never_block (hloops : definition.AcyclicButLoops) (hsucceeds : executor.Succeeds)
    (runId : String) (input : Lua) :
    (NeverBlocks definition executor (startRun definition runId input) → definition.LoopsAlone) ∧
    (input.isTable = true → Readable definition executor → definition.LoopsAlone →
      NeverBlocks definition executor (startRun definition runId input)) := by
  constructor
  · intro hnever id edge hedge hloop
    by_contra hmore
    obtain ⟨hmem, -, htarget⟩ := Definition.mem_inbound.mp hedge
    have hid : id ∈ definition.steps.map Step.id := htarget ▸ (definition.endpoints edge hmem).2
    obtain ⟨-, ticks, hticks⟩ := hnever (fun _ => 1) fun _ => le_rfl
    obtain ⟨held, hheld, hdone⟩ := hticks ticks le_rfl id hid
    have hwaits := after_waits hedge hloop hmore hsucceeds (fun _ => 1)
      (startRun_waits runId input hid) ticks
    rw [Waits, Run.status?, hheld, Option.map_some, Option.some.injEq] at hwaits
    rw [hwaits] at hdone
    rcases hdone with hdone | hdone <;> cases hdone
  · intro hinput hreadable halone budget hbudget
    have hports : Readable definition.withoutLoops executor := by
      intro history id input state snapshot outcome hrespond hstatus hsource
      obtain ⟨edge, hedge, hported⟩ := hsource
      exact hreadable history id input state snapshot outcome hrespond hstatus
        ⟨edge, List.mem_of_mem_filter hedge, hported⟩
    have hwithout := hloops.acyclic.neverBlocks hsucceeds.completes hports runId
      hinput budget hbudget
    simp only [after_withoutLoops halone hsucceeds] at hwithout
    exact hwithout

/-! A loop that is entered once, and one that another step leads into. -/

def pollOnce : Definition where
  id := "poll"
  steps := [⟨"poll", "code", .empty, none⟩, ⟨"done", "code", .empty, none⟩]
  edges := [⟨"again", none, "poll", "poll", none, none⟩, ⟨"next", none, "poll", "done", none, none⟩]
  endpoints := by simp

theorem pollOnce_loops : pollOnce.AcyclicButLoops := by
  refine Definition.acyclicButLoops "poll" "done" (by decide) ?_
  rintro source target ⟨edge, hedge, -, rfl, rfl⟩ hne
  rcases List.mem_pair.mp hedge with rfl | rfl
  · exact absurd rfl hne
  · exact ⟨rfl, rfl⟩

theorem pollOnce_alone : pollOnce.LoopsAlone := by
  intro id edge hedge hloop
  obtain ⟨hmem, -, htarget⟩ := Definition.mem_inbound.mp hedge
  rcases List.mem_pair.mp hmem with rfl | rfl
  · obtain rfl : "poll" = id := htarget
    rfl
  · exact absurd (hloop.trans htarget.symm) (by decide)

theorem succeedAlways_succeeds : succeedAlways.Succeeds := fun _ => ⟨_, rfl, rfl, rfl⟩

theorem self_loops_never_block_pollOnce :
    NeverBlocks pollOnce succeedAlways (startRun pollOnce "run" .empty) := by
  refine (self_loops_never_block pollOnce_loops succeedAlways_succeeds "run" .empty).2 rfl ?_
    pollOnce_alone
  rintro history id input state snapshot outcome hrespond - ⟨edge, hedge, hdata, -⟩
  rcases List.mem_pair.mp hedge with rfl | rfl <;> cases hdata

def pollAfterStart : Definition where
  id := "poll"
  steps := [⟨"start", "code", .empty, none⟩, ⟨"poll", "code", .empty, none⟩]
  edges := [⟨"enter", none, "start", "poll", none, none⟩, ⟨"again", none, "poll", "poll", none, none⟩]
  endpoints := by simp

theorem pollAfterStart_loops : pollAfterStart.AcyclicButLoops := by
  refine Definition.acyclicButLoops "start" "poll" (by decide) ?_
  rintro source target ⟨edge, hedge, -, rfl, rfl⟩ hne
  rcases List.mem_pair.mp hedge with rfl | rfl
  · exact ⟨rfl, rfl⟩
  · exact absurd rfl hne

/-- The step that leads into the loop succeeds, and the run fails as stalled. -/
theorem entered_loop_stalls : ¬ ∀ definition executor, definition.AcyclicButLoops →
    executor.Succeeds → ∀ runId, NeverBlocks definition executor
      (startRun definition runId .empty) := by
  intro h
  obtain ⟨hnever, -⟩ := h pollAfterStart succeedAlways pollAfterStart_loops succeedAlways_succeeds
    "run" (fun _ => 1) fun _ => le_rfl
  have hstalled : (after pollAfterStart succeedAlways (fun _ => 1)
      (startRun pollAfterStart "run" .empty) 1).run.status = .failed := by decide +kernel
  exact hnever 1 hstalled

end Runs

end Space2.Workflows
