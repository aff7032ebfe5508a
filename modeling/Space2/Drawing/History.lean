import Space2.Base.Raising

/-!
# Undo and redo

A command changes the document and may raise half-way. The history keeps the
commands that were done and those that were undone, the latest ones last, as
`table.insert` and `table.remove` use them.
-/
namespace Space2.Drawing

open Space2.Base Op

structure Command (D : Type) where
  apply : Option (Op D Unit)
  revert : Option (Op D Unit)
  /-- The field `noop?`, which `apply` may set. -/
  noop : D → Bool

structure History (D : Type) where
  undoStack : List (Command D)
  redoStack : List (Command D)

structure Session (D : Type) where
  history : History D
  document : D

variable {D : Type} {s s' : Session D}

namespace History

def empty : History D := ⟨[], []⟩

def done (h : History D) (command : Command D) : History D :=
  { h with undoStack := h.undoStack ++ [command] }

def undone (h : History D) (command : Command D) : History D :=
  { h with redoStack := h.redoStack ++ [command] }

def clearRedo (h : History D) : History D := { h with redoStack := [] }

def popUndo (h : History D) : History D := { h with undoStack := h.undoStack.dropLast }
def popRedo (h : History D) : History D := { h with redoStack := h.redoStack.dropLast }

end History

def onHistory (f : History D → History D) : Op (Session D) Unit :=
  modify fun s => { s with history := f s.history }

/-- Calls a method of the command, which knows the document only. -/
def call : Option (Op D Unit) → Op (Session D) Unit
  | none => raise "attempt to call a nil value"
  | some method => fun s =>
    ((method s.document).1, { s with document := (method s.document).2 })

def perform (command : Command D) : Op (Session D) (Option (Command D)) := do
  require (command.apply.isSome = true ∧ command.revert.isSome = true)
    "DrawingHistory.perform requires command with :apply and :revert"
  call command.apply
  let s ← get
  if command.noop s.document = true then
    pure none
  else do
    onHistory fun h => (h.done command).clearRedo
    pure (some command)

def undo : Op (Session D) (Option (Command D)) := do
  let s ← get
  match s.history.undoStack.getLast? with
  | none => pure none
  | some command => do
    onHistory History.popUndo
    call command.revert
    onHistory fun h => h.undone command
    pure (some command)

def redo : Op (Session D) (Option (Command D)) := do
  let s ← get
  match s.history.redoStack.getLast? with
  | none => pure none
  | some command => do
    onHistory History.popRedo
    call command.apply
    onHistory fun h => h.done command
    pure (some command)

inductive Call (D : Type) where
  | perform (command : Command D)
  | undo
  | redo

def Call.run : Call D → Op (Session D) (Option (Command D))
  | .perform command => Drawing.perform command
  | .undo => Drawing.undo
  | .redo => Drawing.redo

/-! ## What a method may change -/

theorem ensures_call (method : Option (Op D Unit)) (h : History D) :
    Ensures (fun s : Session D => s.history = h) (call method) (fun _ s => s.history = h)
      (fun s => s.history = h) := by
  cases method with
  | none => exact ensures_raise fun s hs => hs
  | some method =>
    intro s hs
    constructor
    · intro a s' hrun
      obtain ⟨-, rfl⟩ := Prod.mk.inj hrun
      exact hs
    · intro message s' hrun
      obtain ⟨-, rfl⟩ := Prod.mk.inj hrun
      exact hs

theorem ensures_onHistory {E : Session D → Prop} (f : History D → History D) (h : History D) :
    Ensures (fun s : Session D => s.history = h) (onHistory f) (fun _ s => s.history = f h) E := by
  apply ensures_modify
  intro s hs
  exact congrArg f hs

/-- `perform` records the command when it has been applied, and forgets what was undone. -/
theorem ensures_perform (command : Command D) (h : History D) :
    Ensures (fun s : Session D => s.history = h) (perform command)
      (fun answer s => s.history = match answer with
        | none => h
        | some command => (h.done command).clearRedo)
      (fun s => s.history = h) := by
  apply ensures_require_bind
  · intro _
    apply ensures_bind (ensures_call command.apply h)
    intro _
    apply ensures_get_kept
    intro s hs
    split_ifs with hnoop
    · exact ensures_pure fun s hs => hs
    · apply ensures_bind (ensures_onHistory (fun h => (h.done command).clearRedo) h)
      intro _
      exact ensures_pure fun s hs => hs
  · intro _ s hs
    exact hs

/-- `undo` that raises has taken the command off its stack. -/
theorem ensures_undo {h : History D} {command : Command D}
    (htop : h.undoStack.getLast? = some command) :
    Ensures (fun s : Session D => s.history = h) undo
      (fun _ s => s.history = h.popUndo.undone command) (fun s => s.history = h.popUndo) := by
  apply ensures_get_kept
  intro s hs
  rw [hs, htop]
  apply ensures_bind (ensures_onHistory History.popUndo h)
  intro _
  apply ensures_bind (ensures_call command.revert _)
  intro _
  apply ensures_bind (ensures_onHistory (fun h => h.undone command) _)
  intro _
  exact ensures_pure fun s hs => hs

theorem ensures_redo {h : History D} {command : Command D}
    (htop : h.redoStack.getLast? = some command) :
    Ensures (fun s : Session D => s.history = h) redo
      (fun _ s => s.history = h.popRedo.done command) (fun s => s.history = h.popRedo) := by
  apply ensures_get_kept
  intro s hs
  rw [hs, htop]
  apply ensures_bind (ensures_onHistory History.popRedo h)
  intro _
  apply ensures_bind (ensures_call command.apply _)
  intro _
  apply ensures_bind (ensures_onHistory (fun h => h.done command) _)
  intro _
  exact ensures_pure fun s hs => hs

theorem undo_empty (hempty : s.history.undoStack = []) : undo s = (.ok none, s) := by
  rw [undo, get_bind_run, hempty]
  rfl

theorem redo_empty (hempty : s.history.redoStack = []) : redo s = (.ok none, s) := by
  rw [redo, get_bind_run, hempty]
  rfl

/-! ## Calls that raise -/

theorem popUndo_ne {h : History D} {command : Command D}
    (htop : h.undoStack.getLast? = some command) : h.popUndo ≠ h := by
  intro hsame
  have hlength := congrArg (fun h => h.undoStack.length) hsame
  have hpos : 0 < h.undoStack.length := by
    apply List.length_pos_of_ne_nil
    rintro hempty
    rw [hempty] at htop
    cases htop
  simp only [History.popUndo, List.length_dropLast] at hlength
  omega

theorem popRedo_ne {h : History D} {command : Command D}
    (htop : h.redoStack.getLast? = some command) : h.popRedo ≠ h := by
  intro hsame
  have hlength := congrArg (fun h => h.redoStack.length) hsame
  have hpos : 0 < h.redoStack.length := by
    apply List.length_pos_of_ne_nil
    rintro hempty
    rw [hempty] at htop
    cases htop
  simp only [History.popRedo, List.length_dropLast] at hlength
  omega

theorem perform_raised {command : Command D} {message : String}
    (h : perform command s = (.error message, s')) : s'.history = s.history :=
  (ensures_perform command s.history).error rfl h

theorem undo_raised {message : String} (h : undo s = (.error message, s')) :
    s'.history = s.history.popUndo ∧ s'.history ≠ s.history := by
  cases htop : s.history.undoStack.getLast? with
  | none =>
    rw [undo_empty (List.getLast?_eq_none_iff.mp htop)] at h
    cases h
  | some command =>
    have hpopped := (ensures_undo htop).error rfl h
    refine ⟨hpopped, ?_⟩
    rw [hpopped]
    exact popUndo_ne htop

theorem redo_raised {message : String} (h : redo s = (.error message, s')) :
    s'.history = s.history.popRedo ∧ s'.history ≠ s.history := by
  cases htop : s.history.redoStack.getLast? with
  | none =>
    rw [redo_empty (List.getLast?_eq_none_iff.mp htop)] at h
    cases h
  | some command =>
    have hpopped := (ensures_redo htop).error rfl h
    refine ⟨hpopped, ?_⟩
    rw [hpopped]
    exact popRedo_ne htop

/-- After a call that raises the stacks are as before exactly when the call is a `perform`. -/
theorem kept_iff_performing (s s' : Session D) (call : Call D) (message : String)
    (h : call.run s = (.error message, s')) :
    s'.history = s.history ↔ ∃ command, call = .perform command := by
  cases call with
  | perform command =>
    constructor
    · intro _
      exact ⟨command, rfl⟩
    · intro _
      exact perform_raised h
  | undo =>
    constructor
    · intro hsame
      exact absurd hsame (undo_raised h).2
    · rintro ⟨command, hcall⟩
      cases hcall
  | redo =>
    constructor
    · intro hsame
      exact absurd hsame (redo_raised h).2
    · rintro ⟨command, hcall⟩
      cases hcall

/-- A command that can be done and not taken back. -/
def brittle (message : String) : Command Nat where
  apply := some (modify (· + 1))
  revert := some (raise message)
  noop := fun _ => false

theorem kept_brittle_apply :
    (perform { brittle "gone" with apply := some (raise "no space left") }
        ⟨History.empty.done (brittle "gone"), 7⟩).2.history =
      History.empty.done (brittle "gone") :=
  (kept_iff_performing _ _ (.perform { brittle "gone" with apply := some (raise "no space left") })
    "no space left" rfl).mpr ⟨_, rfl⟩

/-- An undo whose command cannot be reverted loses the command. -/
theorem undo_loses_command :
    ¬ ∀ (s s' : Session Nat) (call : Call Nat) (message : String),
        call.run s = (.error message, s') → s'.history = s.history := by
  intro hclaim
  have hsame := hclaim ⟨History.empty.done (brittle "gone"), 7⟩ _ .undo "gone" rfl
  exact absurd (congrArg (fun h => h.undoStack.length) hsame) (by decide)

end Space2.Drawing
