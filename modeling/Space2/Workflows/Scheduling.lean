import Space2.Workflows.Runner

/-!
# Scheduling

`Scheduled` is the invariant of the runner under ticks and resumptions: a step that has left
`pending` has all its control predecessors settled, a step that may still be executed has an
attempt to spare, and an event that completes a step is never taken back. It holds between any two
writes, so it survives executors that raise.
-/

namespace Space2.Workflows
open Base Base.Durable

variable (definition : Definition) (executor : Executor)

def settled (status : StepStatus) : Bool := terminalSuccess status || status = .cancelled

/-- The step may still be handed to `run-step` without another attempt. -/
def runnable (status : StepStatus) : Bool := status = .pending || status = .ready

def Call.runs (id : String) : Call → Bool
  | run stepId _ _ _ => stepId = id
  | _ => false

def Call.resumes (id : String) : Call → Bool
  | resume stepId _ _ _ => stepId = id
  | _ => false

/-- The call executes the step over that state of the run. -/
def Call.Executes (id : String) (snapshot : Run) : Call → Prop
  | .run stepId _ _ made => stepId = id ∧ made = snapshot
  | .resume stepId _ _ made => stepId = id ∧ made = snapshot
  | .cancel _ _ => False

def Command.resumes (id : String) : Command → Bool
  | .resume stepId _ => stepId = id
  | _ => false

def Command.isCancel : Command → Bool
  | .cancel _ => true
  | _ => false

/-- One of the calls executed the step and was answered with a cancelled outcome. -/
def AnsweredCancelled (calls : List Call) (id : String) : Prop :=
  ∃ history call snapshot returned, history ++ [call] <+: calls ∧ call.Executes id snapshot ∧
    executor.respond (history ++ [call]) = .ok returned ∧
    (normalizeOutcome returned).status = .cancelled

def attemptLimit (id : String) : Nat :=
  ((definition.findStep id).map Definition.maxAttempts |>.getD 0).toNat

def PredecessorsSettled (run : Run) (id : String) : Prop :=
  ∀ source, definition.Controls source id →
    ∃ before, run.step source = some before ∧ settled before.status = true

/-- What holds of the run a call is made over. -/
structure CallSound (history : List Call) (id : String) (snapshot : Run) : Prop where
  predecessors : ∀ source, definition.Controls source id →
    ∃ before, snapshot.step source = some before ∧ (terminalSuccess before.status = true ∨
      before.status = .cancelled ∧ AnsweredCancelled executor history source)
  fresh : ∀ event ∈ snapshot.events, ¬ event.completes id

structure Scheduled (resumed : String → Nat) (s : State) : Prop where
  present : ∀ id ∈ definition.steps.map Step.id, ∃ held, s.run.step id = some held
  predecessors : ∀ id held, s.run.step id = some held → held.status ≠ .pending →
    held.status ≠ .cancelled → PredecessorsSettled definition s.run id
  attempts : ∀ id held, s.run.step id = some held →
    s.calls.countP (Call.runs id) + (if runnable held.status = true then 1 else 0) ≤
      held.attempt + 1
  limits : ∀ id held, s.run.step id = some held → held.attempt ≤ attemptLimit definition id
  resumes : ∀ id, s.calls.countP (Call.resumes id) ≤ resumed id
  completed : ∀ id, ∀ event ∈ s.run.events, event.completes id →
    ∃ held, s.run.step id = some held ∧ terminalSuccess held.status = true
  cancelled : ∀ id held, s.run.step id = some held → held.status = .cancelled →
    AnsweredCancelled executor s.calls id
  calls : ∀ history call id snapshot, history ++ [call] <+: s.calls → call.Executes id snapshot →
    CallSound definition executor history id snapshot

variable {definition executor} {resumed resumed' : String → Nat} {s : State}

theorem AnsweredCancelled.mono {calls calls' : List Call} {id : String}
    (h : AnsweredCancelled executor calls id) (hinit : calls <+: calls') :
    AnsweredCancelled executor calls' id := by
  obtain ⟨history, call, snapshot, returned, hcalls, hrest⟩ := h
  exact ⟨history, call, snapshot, returned, hcalls.trans hinit, hrest⟩

theorem terminal_of_settled {status : StepStatus} (h : settled status = true) :
    terminal status = true := by
  cases status <;> simp_all [settled, terminalSuccess, terminal]

theorem settled_of_terminal {status : StepStatus} (h : terminal status = true)
    (hfailed : status ≠ .failed) : settled status = true := by
  cases status <;> simp_all [settled, terminalSuccess, terminal]

namespace Scheduled

theorem weaken (h : Scheduled definition executor resumed s) (hle : ∀ id, resumed id ≤ resumed' id) :
    Scheduled definition executor resumed' s :=
  { h with resumes := fun id => (h.resumes id).trans (hle id) }

theorem updateRun (h : Scheduled definition executor resumed s) (status : RunStatus)
    (output error : Option Lua) :
    Scheduled definition executor resumed (s.updateRun status output error) :=
  ⟨h.present, h.predecessors, h.attempts, h.limits, h.resumes, h.completed, h.cancelled, h.calls⟩

/-- An event may be appended when every step it completes is completed. -/
theorem appendEvent (h : Scheduled definition executor resumed s) {event : Event}
    (hevent : ∀ id, event.completes id →
      ∃ held, s.run.step id = some held ∧ terminalSuccess held.status = true) :
    Scheduled definition executor resumed (s.appendEvent event) := by
  refine { h with completed := fun id e he hcompletes => ?_ }
  rcases List.mem_append.mp he with hold | hnew
  · exact h.completed id e hold hcompletes
  · rw [List.mem_singleton.mp hnew] at hcompletes
    exact hevent id hcompletes

theorem step_upsert {id other : String} {old held : RunStep} {updates : StepUpdate}
    (hold : s.run.step id = some old)
    (hheld : (s.upsertStep id updates).run.step other = some held) :
    (other = id ∧ held = old.update updates) ∨ (other ≠ id ∧ s.run.step other = some held) := by
  change (s.run.upsertStep id updates).step other = some held at hheld
  rw [Run.step_upsertStep hold updates other] at hheld
  by_cases heq : other = id
  · rw [if_pos heq] at hheld
    exact .inl ⟨heq, (Option.some.inj hheld).symm⟩
  · rw [if_neg heq] at hheld
    exact .inr ⟨heq, hheld⟩

theorem upsert_other {id other : String} {old held : RunStep} {updates : StepUpdate}
    (hold : s.run.step id = some old) (hopen : terminal old.status = false)
    (hheld : s.run.step other = some held) (hended : terminal held.status = true) :
    (s.upsertStep id updates).run.step other = some held := by
  have hne : other ≠ id := by
    intro heq
    rw [heq, hold] at hheld
    rw [Option.some.inj hheld, hended] at hopen
    exact Bool.noConfusion hopen
  exact (Run.step_upsertStep_ne hne).trans hheld

/-- A step that has not ended may move on, provided it leaves `pending` behind settled
predecessors, keeps within its attempts and is cancelled by its own outcome only. -/
theorem upsertStep (h : Scheduled definition executor resumed s)
    {id : String} {old : RunStep} {updates : StepUpdate} (hold : s.run.step id = some old)
    (hopen : terminal old.status = false)
    (hready : old.status = .pending → updates.status ≠ .pending → updates.status ≠ .cancelled →
      PredecessorsSettled definition s.run id)
    (hattempts : s.calls.countP (Call.runs id) + (if runnable updates.status = true then 1 else 0) ≤
      (old.update updates).attempt + 1)
    (hlimit : (old.update updates).attempt ≤ attemptLimit definition id)
    (hcancelled : updates.status = .cancelled → AnsweredCancelled executor s.calls id) :
    Scheduled definition executor resumed (s.upsertStep id updates) := by
  have hkeep : ∀ other, PredecessorsSettled definition s.run other →
      PredecessorsSettled definition (s.upsertStep id updates).run other := by
    intro other hpred source hsource
    obtain ⟨before, hbefore, hset⟩ := hpred source hsource
    exact ⟨before, upsert_other hold hopen hbefore (terminal_of_settled hset), hset⟩
  constructor
  · intro other hother
    obtain ⟨held, hheld⟩ := h.present other hother
    by_cases heq : other = id
    · exact ⟨_, by rw [heq]; exact Run.step_upsertStep_self ..⟩
    · exact ⟨held, (Run.step_upsertStep_ne heq).trans hheld⟩
  · intro other held hheld hpending hnotcancelled
    apply hkeep
    rcases step_upsert hold hheld with ⟨rfl, rfl⟩ | ⟨-, hsame⟩
    · by_cases hp : old.status = .pending
      · exact hready hp hpending hnotcancelled
      · apply h.predecessors other old hold hp
        intro hc
        rw [hc] at hopen
        exact Bool.noConfusion hopen
    · exact h.predecessors other held hsame hpending hnotcancelled
  · intro other held hheld
    rcases step_upsert hold hheld with ⟨rfl, rfl⟩ | ⟨-, hsame⟩
    · exact hattempts
    · exact h.attempts other held hsame
  · intro other held hheld
    rcases step_upsert hold hheld with ⟨rfl, rfl⟩ | ⟨-, hsame⟩
    · exact hlimit
    · exact h.limits other held hsame
  · exact h.resumes
  · intro other event hevent hcompletes
    obtain ⟨held, hheld, hsuccess⟩ := h.completed other event hevent hcompletes
    have hended : terminal held.status = true := terminal_of_settled (by simp [settled, hsuccess])
    exact ⟨held, upsert_other hold hopen hheld hended, hsuccess⟩
  · intro other held hheld hstatus
    rcases step_upsert hold hheld with ⟨rfl, rfl⟩ | ⟨-, hsame⟩
    · exact hcancelled hstatus
    · exact h.cancelled other held hsame hstatus
  · exact h.calls

/-- The run a call is made over: every predecessor of a step that is under way is settled, and
nothing says that the step is completed. -/
theorem callSound (h : Scheduled definition executor resumed s) {id : String} {held : RunStep}
    (hheld : s.run.step id = some held) (hrunning : held.status = .running) :
    CallSound definition executor s.calls id s.run := by
  constructor
  · intro source hsource
    obtain ⟨before, hbefore, hset⟩ := h.predecessors id held hheld (by simp [hrunning])
      (by simp [hrunning]) source hsource
    refine ⟨before, hbefore, ?_⟩
    rcases Bool.or_eq_true_iff.mp hset with hsuccess | hcancelled
    · exact .inl hsuccess
    · have hstatus := of_decide_eq_true hcancelled
      exact .inr ⟨hstatus, h.cancelled source before hbefore hstatus⟩
  · intro event hevent hcompletes
    obtain ⟨held', hheld', hsuccess⟩ := h.completed id event hevent hcompletes
    rw [hheld] at hheld'
    obtain rfl := Option.some.inj hheld'
    simp [hrunning, terminalSuccess] at hsuccess

/-- A call that executes a running step over the run as it is, with an attempt to spare. -/
theorem addCall (h : Scheduled definition executor resumed s) (call : Call) {id : String}
    {held : RunStep} (hheld : s.run.step id = some held) (hrunning : held.status = .running)
    (hcall : ∀ other snapshot, call.Executes other snapshot → other = id ∧ snapshot = s.run)
    (hruns : ∀ other, call.runs other = true →
      other = id ∧ s.calls.countP (Call.runs id) + 1 ≤ held.attempt + 1)
    (hresumes : ∀ other, call.resumes other = true →
      s.calls.countP (Call.resumes other) + 1 ≤ resumed other) :
    Scheduled definition executor resumed (s.addCall call) := by
  refine ⟨h.present, h.predecessors, ?_, h.limits, ?_, h.completed, ?_, ?_⟩
  · intro other held' hheld'
    have hbefore := h.attempts other held' hheld'
    change (s.calls ++ [call]).countP _ + _ ≤ _
    rw [List.countP_append, List.countP_singleton]
    by_cases hr : call.runs other = true
    · obtain ⟨rfl, hspare⟩ := hruns other hr
      obtain rfl := Option.some.inj (hheld.symm.trans hheld')
      simp only [hr, if_true, hrunning, runnable]
      simpa using hspare
    · rw [if_neg hr, Nat.add_zero]
      exact hbefore
  · intro other
    change (s.calls ++ [call]).countP _ ≤ _
    rw [List.countP_append, List.countP_singleton]
    by_cases hr : call.resumes other = true
    · rw [if_pos hr]
      exact hresumes other hr
    · rw [if_neg hr, Nat.add_zero]
      exact h.resumes other
  · intro other held' hheld' hstatus
    exact (h.cancelled other held' hheld' hstatus).mono (List.prefix_append _ _)
  · intro history call' other snapshot hinit hexecutes
    rcases List.prefix_concat_iff.mp hinit with hwhole | hold
    · obtain ⟨rfl, hsame⟩ := List.append_inj' hwhole rfl
      obtain rfl := List.cons.inj hsame |>.1
      obtain ⟨rfl, rfl⟩ := hcall other snapshot hexecutes
      exact h.callSound hheld hrunning
    · exact h.calls history call' other snapshot hold hexecutes

end Scheduled

section Readiness
variable {id : String}

theorem Scheduled.source (h : Scheduled definition executor resumed s) {edge : Edge}
    (hedge : edge ∈ definition.edges) :
    ∃ before, s.run.step edge.sourceStepId = some before :=
  h.present _ (definition.endpoints edge hedge).1

/-- Readiness looks at every control predecessor, unless the step only follows itself. -/
theorem Scheduled.ready_predecessors (h : Scheduled definition executor resumed s)
    (hacyclic : definition.Acyclic) (hready : stepReady definition s.run id = true) :
    PredecessorsSettled definition s.run id := by
  have hjoined : stepReady.joined definition s.run id = true →
      PredecessorsSettled definition s.run id := by
    intro hjoin source ⟨edge, hedge, hcontrol, hsource, htarget⟩
    obtain ⟨before, hbefore⟩ := h.source hedge
    have hmem : (edge, before) ∈ sources definition s.run id := by
      rw [sources, List.mem_filterMap]
      exact ⟨edge, Definition.mem_inbound.mpr ⟨hedge, hcontrol, htarget⟩, by rw [hbefore]; rfl⟩
    have hall := List.all_eq_true.mp (Bool.and_eq_true_iff.mp hjoin).2 _ hmem
    simp only [Bool.and_eq_true, decide_eq_true_eq] at hall
    exact ⟨before, hsource ▸ hbefore, settled_of_terminal hall.1 hall.2⟩
  unfold stepReady at hready
  split at hready
  next hnone =>
    rintro source ⟨edge, hedge, hcontrol, hsource, htarget⟩
    have hmem := Definition.mem_inbound.mpr ⟨hedge, hcontrol, htarget⟩
    rw [hnone] at hmem
    cases hmem
  next edge hone =>
    have hmem : edge ∈ definition.inboundControlEdges id := by simp [hone]
    obtain ⟨hedge, hcontrol, htarget⟩ := Definition.mem_inbound.mp hmem
    have hne := hacyclic.ne ⟨edge, hedge, hcontrol, rfl, htarget⟩
    exact hjoined (by simpa [hne] using hready)
  next => exact hjoined hready

theorem unselectedReachable_source {run : Run} {edge : Edge}
    (h : unselectedReachable run edge = true) :
    ∃ before, run.step edge.sourceStepId = some before ∧ terminalSuccess before.status = true ∧
      (before.status ≠ .skipped →
        selectedTarget before edge.targetStepId edge.sourceStepId = false) := by
  unfold unselectedReachable at h
  split at h
  next => cases h
  next before hbefore =>
    refine ⟨before, hbefore, ?_⟩
    rcases Bool.or_eq_true_iff.mp h with hskip | hrest
    · have hstatus := of_decide_eq_true (Bool.and_eq_true_iff.mp hskip).1
      exact ⟨by simp [terminalSuccess, hstatus], fun hne => absurd hstatus hne⟩
    · obtain ⟨hsuccess, hnot⟩ := Bool.and_eq_true_iff.mp hrest
      exact ⟨hsuccess, fun _ => by simpa using hnot⟩

theorem canSkip_edge {run : Run} (h : canSkipAsUnselected definition run id = true) {edge : Edge}
    (hedge : edge ∈ definition.inboundControlEdges id) : unselectedReachable run edge = true :=
  List.all_eq_true.mp (Bool.and_eq_true_iff.mp h).2 edge hedge

theorem canSkip_predecessors {run : Run} (h : canSkipAsUnselected definition run id = true) :
    PredecessorsSettled definition run id := by
  rintro source ⟨edge, hedge, hcontrol, rfl, htarget⟩
  obtain ⟨before, hbefore, hsuccess, -⟩ := unselectedReachable_source
    (canSkip_edge h (Definition.mem_inbound.mpr ⟨hedge, hcontrol, htarget⟩))
  exact ⟨before, hbefore, by simp [settled, hsuccess]⟩

end Readiness

section Writes
variable {I : State → Prop} {id : String} {updates : StepUpdate}

theorem stepUpdate_spec {Q : Unit → State → Prop} (hI : I s) (hnext : I (s.upsertStep id updates))
    (hQ : Q () (s.upsertStep id updates)) :
    Spec (· = s) (stepUpdate definition id updates) I Q :=
  spec_query_bind hI fun _ _ => spec_write fun _ heq => heq ▸ ⟨hI, hnext, hQ⟩

theorem stepUpdate_bind {α : Type} {k : Unit → Runner α} {Q : α → State → Prop} (hI : I s)
    (h : Spec (· = s.upsertStep id updates) (k ()) I Q) :
    Spec (· = s) (stepUpdate definition id updates >>= k) I Q := by
  have hnext : I (s.upsertStep id updates) := h.crash _ rfl _ (Program.crashes_refl _ _)
  exact spec_bind (stepUpdate_spec (Q := fun _ t => t = s.upsertStep id updates) hI hnext rfl)
    fun _ => h

theorem appendEvent_spec {event : Event} {Q : Unit → State → Prop} (hI : I s)
    (hnext : I (s.appendEvent event)) (hQ : Q () (s.appendEvent event)) :
    Spec (· = s) (appendEvent event) I Q :=
  spec_write fun _ heq => heq ▸ ⟨hI, hnext, hQ⟩

theorem appendEvent_bind {α : Type} {event : Event} {k : Unit → Runner α} {Q : α → State → Prop}
    (hI : I s) (h : Spec (· = s.appendEvent event) (k ()) I Q) :
    Spec (· = s) (appendEvent event >>= k) I Q :=
  spec_write_bind hI h

/-- An update followed by an event, as most outcomes are recorded. -/
theorem record_spec {event : Event} {Q : Unit → State → Prop} (hI : I s)
    (hupdate : I (s.upsertStep id updates))
    (hevent : I ((s.upsertStep id updates).appendEvent event))
    (hQ : Q () ((s.upsertStep id updates).appendEvent event)) :
    Spec (· = s) (do stepUpdate definition id updates; appendEvent event) I Q :=
  stepUpdate_bind hI (appendEvent_spec hupdate hevent hQ)

end Writes

end Space2.Workflows
