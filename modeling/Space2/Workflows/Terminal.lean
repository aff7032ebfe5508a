import Space2.Workflows.Runner

/-!
# Terminal runs

`tick-run` and `cancel-run` look at the status of the run first and leave a terminal run alone.
`resume-step` looks at the status of the step only, so a run that failed with a step still waiting
can be resumed. Apart from that a terminal run stays as it is.
-/

namespace Space2.Workflows
open Base Base.Durable

variable {definition : Definition} {executor : Executor}

def terminalRun : RunStatus → Bool
  | .succeeded | .failed | .cancelled => true
  | _ => false

/-- The command does not resume a waiting step of a terminal run. -/
def SparesWaiting (s : State) : Command → Prop
  | .resume id _ => terminalRun s.run.status = true → s.run.status? id ≠ some .waiting
  | _ => True

theorem tickRun_terminal {s : State} (h : terminalRun s.run.status = true) (maxSteps : Nat) :
    (tickRun definition executor maxSteps s).writes = [] := by
  have hqueued : s.run.status ≠ .queued := by
    intro hc
    rw [hc] at h
    exact Bool.noConfusion h
  have hrunning : s.run.status ≠ .running := by
    intro hc
    rw [hc] at h
    exact Bool.noConfusion h
  simp [tickRun, startIfQueued, query, bind, next, Program.final, hqueued, hrunning, pure]

theorem cancelRun_terminal {s : State} (h : terminalRun s.run.status = true)
    (reason : Option Lua) : (cancelRun definition executor reason s).writes = [] := by
  apply query_bind_idle
  intro u hok
  have hcan := ensure_eq_ok.mp hok
  cases hs : s.run.status <;> simp_all [terminalRun, cancellableRunStatus]

theorem resumeStep_idle {s : State} {id : String} (h : s.run.status? id ≠ some .waiting)
    (waitResult : Option Lua) : (resumeStep definition executor id waitResult s).writes = [] := by
  apply query_bind_idle
  intro step _
  apply query_bind_idle
  intro held hheld
  cases hstep : s.run.step id with
  | none => simp [hstep] at hheld
  | some found =>
    have hstatus : found.status ≠ .waiting := by
      intro hc
      exact h (by rw [Run.status?, hstep, Option.map_some, hc])
    simp [hstep, hstatus] at hheld

theorem command_terminal {s u : State} {command : Command}
    (hterminal : terminalRun s.run.status = true) (hspares : SparesWaiting s command)
    (hcrash : (command.program definition executor).Crashes s u) : u = s := by
  have hwrites : (command.program definition executor s).writes = [] := by
    cases command with
    | tick maxSteps => exact tickRun_terminal hterminal maxSteps
    | resume id waitResult => exact resumeStep_idle (hspares hterminal) waitResult
    | cancel reason => exact cancelRun_terminal hterminal reason
  obtain ⟨writes, hinit, rfl⟩ := hcrash
  rw [hwrites] at hinit
  rw [List.prefix_nil.mp hinit, commitAll_nil]

/-- A terminal run keeps its status, and nothing is executed for it, as long as no waiting step
of it is resumed. -/
theorem terminal_absorbing {s u : State} {commands : List Command}
    (hterminal : terminalRun s.run.status = true)
    (hruns : Runs definition executor SparesWaiting commands s u) :
    u.run.status = s.run.status ∧ u.calls = s.calls := by
  have hsame : u = s := hruns.invariant (I := fun _ t => t = s) rfl fun _ _ _ _ ht hallowed hcrash =>
    (command_terminal (ht ▸ hterminal) hallowed hcrash).trans ht
  exact ⟨congrArg (·.run.status) hsame, congrArg State.calls hsame⟩

/-! Two steps start together. The first waits, the second fails, and so does the run. -/
section Resumed

def forked : Definition where
  id := "fork"
  steps := [⟨"ask", "code", .empty, none⟩, ⟨"send", "code", .empty, none⟩]
  edges := []
  endpoints := by simp

/-- The first call waits, every later call fails. -/
def waitThenFail : Executor where
  respond calls := .ok (.table { status := if calls.length = 1 then .waiting else .failed })
  cancels := false

def failedRun : State := (tickRun forked waitThenFail 2).final (startRun forked "run" .empty)

theorem failedRun_status : failedRun.run.status = .failed := rfl

theorem failedRun_runs (allowed : State → Command → Prop)
    (h : allowed (startRun forked "run" .empty) (.tick 2)) :
    Runs forked waitThenFail allowed [.tick 2] (startRun forked "run" .empty) failedRun :=
  .snoc (.nil _) h (Program.crashes_final _ _)

theorem terminal_absorbing_failedRun :
    ((cancelRun forked waitThenFail none).final failedRun).run.status = .failed := by
  have hcancel : Runs forked waitThenFail SparesWaiting ([] ++ [.cancel none]) failedRun
      ((cancelRun forked waitThenFail none).final failedRun) :=
    .snoc (.nil _) trivial (Program.crashes_final _ _)
  have hfailed : terminalRun failedRun.run.status = true := by rw [failedRun_status]; rfl
  exact (terminal_absorbing hfailed hcancel).1

/-- Resuming the waiting step of the failed run calls the executor. -/
theorem failed_run_resumed : ¬ ∀ (definition : Definition) (executor : Executor)
    (commands commands' : List Command) (runId : String) (input : Lua) (s u : State),
    Runs definition executor (fun _ _ => True) commands (startRun definition runId input) s →
    terminalRun s.run.status = true →
    Runs definition executor (fun _ _ => True) commands' s u →
    u.run.status = s.run.status ∧ u.calls = s.calls := by
  intro h
  have hcalls := (h forked waitThenFail _ [.resume "ask" none] "run" .empty failedRun
    ((resumeStep forked waitThenFail "ask" none).final failedRun) (failedRun_runs _ trivial) rfl
    (.snoc (.nil _) trivial (Program.crashes_final _ _))).2
  have hlength : ((resumeStep forked waitThenFail "ask" none).final failedRun).calls.length =
    failedRun.calls.length + 1 := rfl
  rw [hcalls] at hlength
  omega

end Resumed

end Space2.Workflows
