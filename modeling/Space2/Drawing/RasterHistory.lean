import Space2.Drawing.History
import Space2.Drawing.RasterStore

/-!
# Undo and redo on a raster layer

A command runs its edit once and keeps the patch; afterwards it applies what the patch has captured.
The drawing history calls it. Whatever is done, undone, saved and looked at in between, undo shows
the pixels from before a command and redo those from after it.
-/
namespace Space2.Drawing
open Base Base.Op

variable {size : Nat}

/-- A layer with what its commands keep, which are numbered as they are made. -/
structure Canvas (size : Nat) where
  layer : Layer size
  patches : Nat → Option (Patch size)
  noops : Nat → Bool
  next : Nat

def onLayer {α : Type} (p : Op (Layer size) α) : Op (Canvas size) α := fun s =>
  ((p s.layer).1, { s with layer := (p s.layer).2 })

/-- `raster-patch-command`, without the selection that it restores -/
def rasterPatchCommand (index : Nat) (compute : Op (Layer size) (Patch size)) :
    Command (Canvas size) where
  apply := some do
    let s ← get
    match s.patches index with
    | some patch => do
      onLayer (applyCapturedBytes patch.after)
      modify fun s => { s with noops := Function.update s.noops index false }
    | none => do
      let patch ← onLayer compute
      modify fun s => { s with
        patches := Function.update s.patches index (some patch)
        noops := Function.update s.noops index !patch.changed }
  revert := some do
    let s ← get
    match s.patches index with
    | some patch => onLayer (applyCapturedBytes patch.before)
    | none => pure ()
  noop s := s.noops index

inductive RasterCall where
  | edit (e : Edit)
  | undo
  | redo
  | save
  | look (point : Int × Int)

section Calls
variable [NeZero size] (blend : Rgba → Rgba → Rgba)

def onDocument {D : Type} (p : Op D Unit) : Op (Session D) Unit := call (some p)

/-- Whether the call has done, undone or redone a command. -/
def RasterCall.run : RasterCall → Op (Session (Canvas size)) Bool
  | .edit e => do
    let s ← get
    onDocument (modify fun canvas => { canvas with next := canvas.next + 1 })
    let done ← perform (rasterPatchCommand s.document.next (e.run blend))
    pure done.isSome
  | .undo => do
    let undone ← Drawing.undo
    pure undone.isSome
  | .redo => do
    let redone ← Drawing.redo
    pure redone.isSome
  | .save => do
    onDocument (onLayer Drawing.save)
    pure false
  | .look point => do
    onDocument (onLayer do
      let _ ← getPixelRgba point
      pure ())
    pure false

end Calls

/-! ## What the patches of the stacks do -/

section Timeline
variable [NeZero size]

/-- The commands of a stack, the last one on top, with the maps they lead to: on top of the stack
`now` is seen, and its commands lead to the maps one after the other. `back` is what they apply on
the way and `forth` what brings them here again. -/
inductive Leads (kept : Nat → Option (Patch size)) (next : Nat)
    (back forth : Patch size → List (Captured size)) :
    List (Command (Canvas size)) → List PixelMap → PixelMap → Prop
  | nil (now : PixelMap) : Leads kept next back forth [] [] now
  | snoc {stack : List (Command (Canvas size))} {maps : List PixelMap} {before now : PixelMap}
      (index : Nat) (compute : Op (Layer size) (Patch size)) (patch : Patch size)
      (rest : Leads kept next back forth stack maps before) (hindex : index < next)
      (hkept : kept index = some patch) (hback : Turns (back patch) now before)
      (hforth : Turns (forth patch) before now) :
      Leads kept next back forth (stack ++ [rasterPatchCommand index compute]) (maps ++ [before])
        now

/-- What undo and redo should show. -/
structure Timeline where
  past : List PixelMap
  present : PixelMap
  future : List PixelMap

/-- An edit that changes something shows its own map; the others go along the timeline. -/
def Timeline.step (t : Timeline) (changed : Bool) (shown : PixelMap) : RasterCall → Timeline
  | .edit _ => if changed = true then ⟨t.past ++ [t.present], shown, []⟩ else t
  | .undo =>
    match t.past.getLast? with
    | some map => ⟨t.past.dropLast, map, t.future ++ [t.present]⟩
    | none => t
  | .redo =>
    match t.future.getLast? with
    | some map => ⟨t.past ++ [t.present], map, t.future.dropLast⟩
    | none => t
  | .save => t
  | .look _ => t

theorem Timeline.step_undo (past future : List PixelMap) (present before shown : PixelMap)
    (changed : Bool) :
    (⟨past ++ [before], present, future⟩ : Timeline).step changed shown .undo =
      ⟨past, before, future ++ [present]⟩ := by
  simp [Timeline.step]

theorem Timeline.step_redo (past future : List PixelMap) (present before shown : PixelMap)
    (changed : Bool) :
    (⟨past, present, future ++ [before]⟩ : Timeline).step changed shown .redo =
      ⟨past ++ [present], before, future⟩ := by
  simp [Timeline.step]

/-- The session and the timeline after a call. -/
def timelineStep (blend : Rgba → Rgba → Rgba) (now : Session (Canvas size) × Timeline)
    (c : RasterCall) : Session (Canvas size) × Timeline :=
  let answer := c.run blend now.1
  (answer.2, now.2.step (answer.1.toOption = some true) answer.2.document.layer.pixels c)

variable {kept : Nat → Option (Patch size)} {next : Nat}
  {back forth : Patch size → List (Captured size)} {stack : List (Command (Canvas size))}
  {maps : List PixelMap} {seen now : PixelMap} {layer : Layer size}

theorem Leads.mono (h : Leads kept next back forth stack maps now)
    {kept' : Nat → Option (Patch size)} (hkept : ∀ index < next, kept' index = kept index)
    {next' : Nat} (hnext : next ≤ next') : Leads kept' next' back forth stack maps now := by
  induction h with
  | nil now => exact .nil now
  | snoc index compute patch _ hindex hsome hback hforth ih =>
    exact .snoc index compute patch ih (hindex.trans_le hnext) ((hkept index hindex).trans hsome)
      hback hforth

theorem Leads.length_eq (h : Leads kept next back forth stack maps now) :
    stack.length = maps.length := by
  induction h with
  | nil _ => rfl
  | snoc _ _ _ _ _ _ _ _ ih => rw [List.length_append, List.length_append, ih]; rfl

/-- Captured tiles are applied to a layer that shows the map they start from. -/
theorem Turns.run {entries : List (Captured size)} (h : Turns entries seen now)
    (hload : layer.Loadable) (hseen : layer.pixels = seen) :
    ∃ layer', applyCapturedBytes entries layer = (.ok (), layer') ∧ layer'.Loadable ∧
      layer'.pixels = now := by
  obtain ⟨value, layer', hrun, later, hshows, hpixels⟩ :=
    (h layer.tileAt layer.files hseen).run_eq (fun _ h => h) hload.shows
  exact ⟨layer', hrun, hshows.of_loadable, hshows.pixels.trans hpixels⟩

theorem edit_turns (blend : Rgba → Rgba → Rgba) {e : Edit} (hcovered : e.Covered size)
    (hload : layer.Loadable) :
    ∃ patch layer', e.run blend layer = (.ok patch, layer') ∧ layer'.Loadable ∧
      (patch.changed = false ∧ layer'.pixels = layer.pixels ∨
        patch.changed = true ∧ Turns patch.before layer'.pixels layer.pixels ∧
          Turns patch.after layer.pixels layer'.pixels) := by
  have hturns : ∀ {patch : Patch size} {layer' : Layer size} {keys : List TileKey}
      {later : Tiles size}, Shows later layer.files layer' →
      Records keys layer.tileAt later patch → layer'.Loadable ∧
        (patch.changed = false ∧ layer'.pixels = layer.pixels ∨
          patch.changed = true ∧ Turns patch.before layer'.pixels layer.pixels ∧
            Turns patch.after layer.pixels layer'.pixels) := by
    intro patch layer' keys later hshows hrecords
    rw [hshows.pixels]
    exact ⟨hshows.of_loadable, .inr ⟨hrecords.changed, hrecords.back, hrecords.forth⟩⟩
  cases e with
  | stroke st =>
    obtain ⟨patch, layer', hrun, later, hshows, hrecords, -⟩ :=
      (stroke_spec blend hcovered).run_eq (fun _ h => h) hload.shows
    exact ⟨patch, layer', hrun, hturns hshows hrecords⟩
  | fill seed rgba tolerance =>
    obtain ⟨patch, layer', hrun, hresult⟩ :=
      (fill_spec seed rgba tolerance).run_eq (fun _ h => h) hload.shows
    refine ⟨patch, layer', hrun, ?_⟩
    rcases hresult with ⟨hchanged, hshows, -⟩ | ⟨_, _, later, _, _, _, hshows, hrecords, _⟩
    · exact ⟨hshows.of_loadable, .inl ⟨hchanged, hshows.pixels⟩⟩
    · exact hturns hshows hrecords
  | moveSelection selection dx dy =>
    obtain ⟨patch, layer', hrun, later, hshows, hrecords, -⟩ :=
      (moveSelection_spec blend selection dx dy).run_eq (fun _ h => h) hload.shows
    exact ⟨patch, layer', hrun, hturns hshows hrecords⟩
  | clearSelection bounds =>
    obtain ⟨patch, layer', hrun, later, hshows, hrecords, -⟩ :=
      (clearSelection_spec bounds).run_eq (fun _ h => h) hload.shows
    exact ⟨patch, layer', hrun, hturns hshows hrecords⟩

/-- The session shows what the timeline says, and its stacks lead along the timeline. -/
structure Follows (s : Session (Canvas size)) (t : Timeline) : Prop where
  loadable : s.document.layer.Loadable
  seen : s.document.layer.pixels = t.present
  undoable : Leads s.document.patches s.document.next Patch.before Patch.after
    s.history.undoStack t.past t.present
  redoable : Leads s.document.patches s.document.next Patch.after Patch.before
    s.history.redoStack t.future t.present
  unused : ∀ index, s.document.next ≤ index → s.document.patches index = none

/-- What only changes the layer, and not what is seen, keeps the timeline. -/
theorem Follows.with_layer {s : Session (Canvas size)} {t : Timeline} (h : Follows s t)
    (hload : layer.Loadable) (hpixels : layer.pixels = t.present) :
    Follows { s with document := { s.document with layer := layer } } t :=
  ⟨hload, hpixels, h.undoable, h.redoable, h.unused⟩

/-- What a command does to a canvas that has kept its patch. -/
theorem revert_run {canvas : Canvas size} {index : Nat} {patch : Patch size}
    (hkept : canvas.patches index = some patch) (h : Turns patch.before seen now)
    (hload : canvas.layer.Loadable) (hseen : canvas.layer.pixels = seen)
    (compute : Op (Layer size) (Patch size)) (history : History (Canvas size)) :
    ∃ layer', call (rasterPatchCommand index compute).revert ⟨history, canvas⟩ =
        (.ok (), ⟨history, { canvas with layer := layer' }⟩) ∧
      layer'.Loadable ∧ layer'.pixels = now := by
  obtain ⟨layer', hrun, hafter⟩ := h.run hload hseen
  refine ⟨layer', ?_, hafter⟩
  simp only [call, rasterPatchCommand, get_bind_run, hkept, onLayer, hrun]

theorem reapply_run {canvas : Canvas size} {index : Nat} {patch : Patch size}
    (hkept : canvas.patches index = some patch) (h : Turns patch.after seen now)
    (hload : canvas.layer.Loadable) (hseen : canvas.layer.pixels = seen)
    (compute : Op (Layer size) (Patch size)) (history : History (Canvas size)) :
    ∃ layer', call (rasterPatchCommand index compute).apply ⟨history, canvas⟩ =
        (.ok (), ⟨history, { canvas with
          layer := layer', noops := Function.update canvas.noops index false }⟩) ∧
      layer'.Loadable ∧ layer'.pixels = now := by
  obtain ⟨layer', hrun, hafter⟩ := h.run hload hseen
  have honLayer : onLayer (applyCapturedBytes patch.after) canvas =
      (.ok (), { canvas with layer := layer' }) := by rw [onLayer, hrun]
  refine ⟨layer', ?_, hafter⟩
  simp only [call, rasterPatchCommand, get_bind_run, hkept, bind_ok honLayer, modify_run]

theorem Follows.undo {s : Session (Canvas size)} {t : Timeline} (h : Follows s t)
    {blend : Rgba → Rgba → Rgba} :
    ∃ answer s', RasterCall.run blend .undo s = (.ok answer, s') ∧
      Follows s' (t.step answer s'.document.layer.pixels .undo) := by
  obtain ⟨past, present, future⟩ := t
  obtain ⟨⟨undoStack, redoStack⟩, canvas⟩ := s
  obtain ⟨hload, hseen, hundoable, hredoable, hunused⟩ := h
  cases hundoable with
  | nil _ =>
    refine ⟨false, ⟨⟨[], redoStack⟩, canvas⟩, ?_, hload, hseen, .nil present, hredoable, hunused⟩
    rw [RasterCall.run, bind_ok (undo_empty rfl)]
    rfl
  | snoc index compute patch rest hindex hkept hback hforth =>
    rename_i stack maps before
    obtain ⟨layer', hrevert, hload', hpixels⟩ := revert_run hkept hback hload hseen compute
      ⟨stack, redoStack⟩
    have hundo : Drawing.undo ⟨⟨stack ++ [rasterPatchCommand index compute], redoStack⟩, canvas⟩ =
        (.ok (some (rasterPatchCommand index compute)),
          ⟨⟨stack, redoStack ++ [rasterPatchCommand index compute]⟩,
            { canvas with layer := layer' }⟩) := by
      rw [Drawing.undo, get_bind_run]
      simp only [List.getLast?_append, List.getLast?_singleton, Option.some_or, onHistory,
        modify_bind_run, History.popUndo, List.dropLast_concat]
      rw [bind_ok hrevert]
      rfl
    refine ⟨true, _, (bind_ok hundo).trans rfl, ?_⟩
    change Follows _ (Timeline.step ⟨maps ++ [before], present, future⟩ true _ .undo)
    rw [Timeline.step_undo]
    exact ⟨hload', hpixels, rest, .snoc index compute patch hredoable hindex hkept hforth hback,
      hunused⟩

theorem Follows.redo {s : Session (Canvas size)} {t : Timeline} (h : Follows s t)
    {blend : Rgba → Rgba → Rgba} :
    ∃ answer s', RasterCall.run blend .redo s = (.ok answer, s') ∧
      Follows s' (t.step answer s'.document.layer.pixels .redo) := by
  obtain ⟨past, present, future⟩ := t
  obtain ⟨⟨undoStack, redoStack⟩, canvas⟩ := s
  obtain ⟨hload, hseen, hundoable, hredoable, hunused⟩ := h
  cases hredoable with
  | nil _ =>
    refine ⟨false, ⟨⟨undoStack, []⟩, canvas⟩, ?_, hload, hseen, hundoable, .nil present, hunused⟩
    rw [RasterCall.run, bind_ok (redo_empty rfl)]
    rfl
  | snoc index compute patch rest hindex hkept hback hforth =>
    rename_i stack maps before
    obtain ⟨layer', happly, hload', hpixels⟩ := reapply_run hkept hback hload hseen compute
      ⟨undoStack, stack⟩
    have hredo : Drawing.redo ⟨⟨undoStack, stack ++ [rasterPatchCommand index compute]⟩, canvas⟩ =
        (.ok (some (rasterPatchCommand index compute)),
          ⟨⟨undoStack ++ [rasterPatchCommand index compute], stack⟩,
            { canvas with
              layer := layer', noops := Function.update canvas.noops index false }⟩) := by
      rw [Drawing.redo, get_bind_run]
      simp only [List.getLast?_append, List.getLast?_singleton, Option.some_or, onHistory,
        modify_bind_run, History.popRedo, List.dropLast_concat]
      rw [bind_ok happly]
      rfl
    refine ⟨true, _, (bind_ok hredo).trans rfl, ?_⟩
    change Follows _ (Timeline.step ⟨past, present, maps ++ [before]⟩ true _ .redo)
    rw [Timeline.step_redo]
    exact ⟨hload', hpixels, .snoc index compute patch hundoable hindex hkept hforth hback, rest,
      hunused⟩

omit [NeZero size] in
/-- The first run of a command keeps the patch of its edit. -/
theorem firstApply_run (canvas : Canvas size) {index : Nat} {patch : Patch size}
    {compute : Op (Layer size) (Patch size)} (hnone : canvas.patches index = none)
    (hrun : compute canvas.layer = (.ok patch, layer)) (history : History (Canvas size)) :
    call (rasterPatchCommand index compute).apply ⟨history, canvas⟩ =
      (.ok (), ⟨history, { canvas with
        layer := layer
        patches := Function.update canvas.patches index (some patch)
        noops := Function.update canvas.noops index !patch.changed }⟩) := by
  have honLayer : onLayer compute canvas = (.ok patch, { canvas with layer := layer }) := by
    rw [onLayer, hrun]
  simp only [call, rasterPatchCommand, get_bind_run, hnone, bind_ok honLayer, modify_run]

theorem perform_eq {D : Type} {command : Command D} {s s' : Session D}
    (hmethods : command.apply.isSome = true ∧ command.revert.isSome = true)
    (happly : call command.apply s = (.ok (), s')) :
    perform command s = if command.noop s'.document = true then (.ok none, s')
      else (.ok (some command), { s' with history := (s'.history.done command).clearRedo }) := by
  rw [perform, bind_ok (require_run hmethods _ s), bind_ok happly, get_bind_run]
  split_ifs
  · rfl
  · rfl

theorem Follows.edit {s : Session (Canvas size)} {t : Timeline} (h : Follows s t)
    {blend : Rgba → Rgba → Rgba} {e : Edit} (hcovered : e.Covered size) :
    ∃ answer s', RasterCall.run blend (.edit e) s = (.ok answer, s') ∧
      Follows s' (t.step answer s'.document.layer.pixels (.edit e)) := by
  obtain ⟨past, present, future⟩ := t
  obtain ⟨⟨undoStack, redoStack⟩, canvas⟩ := s
  obtain ⟨hload, hseen, hundoable, hredoable, hunused⟩ := h
  simp only at hload hseen hundoable hredoable hunused
  obtain ⟨patch, layer', hrun, hload', hresult⟩ :=
    edit_turns blend hcovered hload
  let index := canvas.next
  let kept := Function.update canvas.patches index (some patch)
  have hkept : ∀ other < index, kept other = canvas.patches other := fun other hother =>
    Function.update_of_ne hother.ne _ _
  have hunused' : ∀ other, index + 1 ≤ other → kept other = none := fun other hother =>
    (Function.update_of_ne (by omega) _ _).trans (hunused other (by omega))
  have happly := firstApply_run { canvas with next := index + 1 }
    (hunused index (Nat.le_refl index)) hrun ⟨undoStack, redoStack⟩
  have hperform := perform_eq ⟨rfl, rfl⟩ happly
  rcases hresult with ⟨hchanged, hpixels⟩ | ⟨hchanged, hback, hforth⟩
  · rw [if_pos (by simp [rasterPatchCommand, hchanged])] at hperform
    refine ⟨false, _, (bind_ok hperform).trans rfl, hload', hpixels.trans hseen,
      hundoable.mono hkept (Nat.le_succ index), hredoable.mono hkept (Nat.le_succ index), hunused'⟩
  · rw [if_neg (by simp [rasterPatchCommand, hchanged])] at hperform
    refine ⟨true, _, (bind_ok hperform).trans rfl, hload', rfl, ?_, .nil _, hunused'⟩
    rw [hseen] at hback hforth
    exact .snoc index (e.run blend) patch (hundoable.mono hkept (Nat.le_succ index))
      (Nat.lt_succ_self index) (Function.update_self _ _ _) hback hforth

theorem Follows.save {s : Session (Canvas size)} {t : Timeline} (h : Follows s t)
    {blend : Rgba → Rgba → Rgba} :
    ∃ answer s', RasterCall.run blend .save s = (.ok answer, s') ∧
      Follows s' (t.step answer s'.document.layer.pixels .save) := by
  obtain ⟨value, layer', hrun, later, filed, hshows, hsame, -⟩ :=
    save_spec.run_eq (fun _ h => h) h.loadable.shows
  have hsave : onDocument (onLayer Drawing.save) s =
      (.ok value, { s with document := { s.document with layer := layer' } }) := by
    simp only [onDocument, call, onLayer, hrun]
  exact ⟨false, _, (bind_ok hsave).trans rfl,
    h.with_layer hshows.of_loadable (hshows.pixels.trans (hsame.trans h.seen))⟩

theorem Follows.look {s : Session (Canvas size)} {t : Timeline} (h : Follows s t)
    {blend : Rgba → Rgba → Rgba} (point : Int × Int) :
    ∃ answer s', RasterCall.run blend (.look point) s = (.ok answer, s') ∧
      Follows s' (t.step answer s'.document.layer.pixels (.look point)) := by
  obtain ⟨rgba, layer', hrun, hshows, -⟩ :=
    (getPixelRgba_spec point).run_eq (fun _ h => h) h.loadable.shows
  have hlook : onDocument (onLayer do
      let _ ← getPixelRgba point
      pure ()) s = (.ok (), { s with document := { s.document with layer := layer' } }) := by
    simp only [onDocument, call, onLayer, bind_ok hrun, pure_run]
  exact ⟨false, _, (bind_ok hlook).trans rfl,
    h.with_layer hshows.of_loadable (hshows.pixels.trans h.seen)⟩

theorem Follows.step {s : Session (Canvas size)} {t : Timeline} (h : Follows s t)
    (blend : Rgba → Rgba → Rgba) {c : RasterCall} (hcovered : ∀ e, c = .edit e → e.Covered size) :
    ∃ answer s', c.run blend s = (.ok answer, s') ∧
      Follows s' (t.step answer s'.document.layer.pixels c) := by
  cases c with
  | edit e => exact h.edit (hcovered e rfl)
  | undo => exact h.undo
  | redo => exact h.redo
  | save => exact h.save
  | look point => exact h.look point

theorem Follows.timelineStep {now : Session (Canvas size) × Timeline} (h : Follows now.1 now.2)
    (blend : Rgba → Rgba → Rgba) {c : RasterCall} (hcovered : ∀ e, c = .edit e → e.Covered size) :
    (∃ answer, (c.run blend now.1).1 = .ok answer) ∧
      Follows (timelineStep blend now c).1 (timelineStep blend now c).2 := by
  obtain ⟨answer, s', hrun, hnext⟩ := h.step blend hcovered
  refine ⟨⟨answer, congrArg Prod.fst hrun⟩, ?_⟩
  simp only [Drawing.timelineStep, hrun, Except.toOption]
  cases answer with
  | false => exact hnext
  | true => exact hnext

end Timeline

end Space2.Drawing
