import Space2.VectorBuffer.Runs

/-!
# What the dirty range covers

A float that stays in use through a call and is not marked at its end has not been
changed by the call.
-/
namespace Space2.VectorBuffer
open Base Base.Op

variable {F : Type} {s t u : State F}

def State.marked (s : State F) (position : Nat) : Bool :=
  s.hasDirty && decide (s.dirtyFrom ≤ position) && decide (position < s.dirtyTo)

/-- Below the bound, what is unmarked in `t` is unmarked in `s` and the same. -/
def Shown (bound : Nat) (s t : State F) : Prop :=
  ∀ position < bound, t.marked position = false →
    s.marked position = false ∧ t.buffer position = s.buffer position

theorem Shown.refl (bound : Nat) (s : State F) : Shown bound s s :=
  fun _ _ hunmarked => ⟨hunmarked, rfl⟩

theorem Shown.trans {bound : Nat} (h : Shown bound s t) (hnext : Shown bound t u) :
    Shown bound s u := by
  intro position hposition hunmarked
  obtain ⟨hmiddle, hsame⟩ := hnext position hposition hunmarked
  obtain ⟨hfirst, hbefore⟩ := h position hposition hmiddle
  exact ⟨hfirst, hsame.trans hbefore⟩

theorem Shown.mono {bound smaller : Nat} (h : Shown bound s t) (hle : smaller ≤ bound) :
    Shown smaller s t :=
  fun position hposition => h position (Nat.lt_of_lt_of_le hposition hle)

/-- The tables may change freely. -/
theorem Shown.of_fields {bound : Nat} (hbuffer : ∀ position < bound,
      t.buffer position = s.buffer position)
    (hfrom : t.dirtyFrom = s.dirtyFrom) (hto : t.dirtyTo = s.dirtyTo) : Shown bound s t := by
  intro position hposition hunmarked
  refine ⟨?_, hbuffer position hposition⟩
  unfold State.marked State.hasDirty at hunmarked ⊢
  rwa [hfrom, hto] at hunmarked

theorem marked_iff {position : Nat} : s.marked position = true ↔
    s.dirtyFrom ≠ noIndex ∧ s.dirtyFrom ≤ position ∧ position < s.dirtyTo := by
  unfold State.marked State.hasDirty
  simp only [Bool.and_eq_true, decide_eq_true_eq]
  constructor
  · rintro ⟨⟨⟨hset, -⟩, hle⟩, hlt⟩
    exact ⟨hset, hle, hlt⟩
  · rintro ⟨hset, hle, hlt⟩
    exact ⟨⟨⟨hset, Nat.lt_of_le_of_lt hle hlt⟩, hle⟩, hlt⟩

/-! ## Marks -/

theorem markDirty_eq {start size : Nat} (hsize : size ≠ 0) (hstart : start < s.freeFrom)
    (hstop : start + size < 2 ^ 64) :
    s.markDirty start size =
      if s.hasDirty = false then
        { s with dirtyFrom := start, dirtyTo := min (start + size) s.freeFrom }
      else
        { s with
          dirtyFrom := min start s.dirtyFrom
          dirtyTo := max (min (start + size) s.freeFrom) s.dirtyTo } := by
  have hclipped : (if start + size > s.freeFrom then s.freeFrom else start + size) =
      min (start + size) s.freeFrom := by
    split_ifs <;> omega
  have hfrom : (if start < s.dirtyFrom then start else s.dirtyFrom) = min start s.dirtyFrom := by
    split_ifs <;> omega
  have hto : ∀ stop, (if stop > s.dirtyTo then stop else s.dirtyTo) = max stop s.dirtyTo := by
    intro stop
    split_ifs <;> omega
  unfold State.markDirty
  rw [if_neg hsize, if_neg (Nat.not_le_of_lt hstart), wrap_of_lt hstop]
  dsimp only
  rw [hclipped, hfrom, hto]

theorem marked_markDirty {start size position : Nat} (hlength : s.freeFrom < 2 ^ 64)
    (hposition : position < s.freeFrom) (hstop : start + size < 2 ^ 64)
    (h : s.marked position = true ∨ start ≤ position ∧ position < start + size) :
    (s.markDirty start size).marked position = true := by
  by_cases hidle : size = 0 ∨ s.freeFrom ≤ start
  · have hsame : s.markDirty start size = s := by
      unfold State.markDirty
      rcases hidle with hzero | hout
      · rw [if_pos hzero]
      · rw [if_pos hout, ite_self]
    rw [hsame]
    exact h.resolve_right (by omega)
  · obtain ⟨hsize, hstart⟩ := not_or.1 hidle
    have hset : start ≠ noIndex := by
      unfold noIndex
      omega
    rw [markDirty_eq hsize (Nat.lt_of_not_le hstart) hstop]
    split_ifs with hclean
    · have hunmarked : s.marked position = false := by
        unfold State.marked
        rw [hclean]
        rfl
      rw [hunmarked] at h
      have hinside := h.resolve_left (by decide)
      rw [marked_iff]
      exact ⟨hset, hinside.1, Nat.lt_min.2 ⟨hinside.2, hposition⟩⟩
    · rw [marked_iff]
      rw [marked_iff] at h
      dsimp only
      unfold noIndex at hset ⊢
      rcases h with ⟨-, hfrom, hto⟩ | ⟨hfrom, hto⟩ <;> refine ⟨?_, ?_, ?_⟩ <;> omega

theorem markDirty_shown {bound start size : Nat} (hlength : s.freeFrom < 2 ^ 64)
    (hbound : bound ≤ s.freeFrom) (hstop : start + size < 2 ^ 64) :
    ∀ position < bound, (s.markDirty start size).marked position = false →
      s.marked position = false ∧ ¬ (start ≤ position ∧ position < start + size) := by
  intro position hposition hunmarked
  have hmarked := marked_markDirty hlength (Nat.lt_of_lt_of_le hposition hbound) hstop
  constructor
  · by_contra hbefore
    rw [hmarked (.inl (by simpa using hbefore))] at hunmarked
    cases hunmarked
  · intro hinside
    rw [hmarked (.inr hinside)] at hunmarked
    cases hunmarked

theorem buffer_markDirty (s : State F) (start size : Nat) :
    (s.markDirty start size).buffer = s.buffer := by
  unfold State.markDirty
  dsimp only
  split_ifs <;> rfl

theorem marked_clamp {position : Nat} (hposition : position < s.freeFrom) :
    s.clampDirtyToLength.marked position = s.marked position := by
  unfold State.clampDirtyToLength
  split_ifs with hclean hstart hstop
  · rfl
  · have hbefore : s.marked position = false := by
      rw [Bool.eq_false_iff]
      intro hmarked
      have hrange := marked_iff.1 hmarked
      omega
    rw [hbefore, Bool.eq_false_iff]
    intro hmarked
    exact (marked_iff.1 hmarked).1 rfl
  · refine Bool.eq_iff_iff.2 (marked_iff.trans (Iff.trans ?_ marked_iff.symm))
    dsimp only
    constructor
    · rintro ⟨hset, hfrom, -⟩
      exact ⟨hset, hfrom, Nat.lt_trans hposition hstop⟩
    · rintro ⟨hset, hfrom, -⟩
      exact ⟨hset, hfrom, hposition⟩
  · rfl

/-! ## Calls -/

section Calls
variable [Zero F]

/-- What the setters keep of the state they start from. -/
def Following (first s : State F) : Prop :=
  WellFormed s ∧ s.freeFrom = first.freeFrom ∧ Shown first.freeFrom first s

theorem keptByWrites_following (first : State F) : KeptByWrites (Following first) := by
  intro s hs handle hactive position values hstart hstop
  obtain ⟨hsound, hlength, hshown⟩ := hs
  have hinside : position + values.length ≤ s.freeFrom :=
    hstop.trans (hsound.tiles.stop_le (hsound.mem_active hactive))
  have hlt := hsound.length_lt
  refine ⟨keptByWrites_sound hsound handle hactive position values hstart hstop, ?_, ?_⟩
  · rw [freeFrom_markDirty]
    exact hlength
  · refine hshown.trans fun spot hspot hunmarked => ?_
    rw [wrap_of_lt (by omega)] at hunmarked ⊢
    obtain ⟨hbefore, houtside⟩ := markDirty_shown (s := s.write position values) hlt
      (Nat.le_of_eq hlength.symm) (by omega) spot hspot hunmarked
    refine ⟨hbefore, ?_⟩
    rw [buffer_markDirty]
    exact write_outside s (by omega)

theorem Setter.following {first : State F} (h : WellFormed first) (floats : Floats F)
    {setter : Setter F} (hreach : setter.reach < 2 ^ 64) :
    Following first (setter.run floats first).2 := by
  have hensures := setter.ensures_run (keptByWrites_following first) (fun _ hs => hs.1) floats hreach
  exact hensures.left (fun _ _ hs => hs) (fun _ hs => hs) ⟨h, rfl, Shown.refl _ first⟩

theorem clamp_fields (s : State F) : s.clampDirtyToLength.freeFrom = s.freeFrom ∧
    s.clampDirtyToLength.buffer = s.buffer := by
  obtain ⟨start, stop, hclamped⟩ := clampDirtyToLength_eq s
  rw [hclamped]
  exact ⟨rfl, rfl⟩

theorem released_shown {loose : List VectorHandle} {handle : VectorHandle}
    (h : Sound (handle :: loose) s) :
    (s.released handle).freeFrom ≤ s.freeFrom ∧
      Shown (s.released handle).freeFrom s (s.released handle) := by
  obtain ⟨hpos, hinside, hstop⟩ := h.loose_stop
  have hlength := h.length_lt
  unfold State.released
  split_ifs with hend
  · have hreleased := h.tailReleased (hstop ▸ hend)
    obtain ⟨hfreeFrom, hbuffer⟩ :=
      clamp_fields ({ s with freeFrom := handle.index } : State F).releaseTailFreeBlocks
    rw [hfreeFrom]
    refine ⟨(hreleased.le.trans (Nat.le_add_right _ _)).trans hinside, ?_⟩
    intro position hposition hunmarked
    rw [marked_clamp hposition] at hunmarked
    exact ⟨hunmarked, congrFun hbuffer position⟩
  · refine ⟨Nat.le_of_eq (freeFrom_markDirty s _ _), ?_⟩
    intro position hposition hunmarked
    have hinside' : handle.index + handle.size ≤ s.freeFrom := hinside
    obtain ⟨hbefore, houtside⟩ := markDirty_shown hlength (Nat.le_of_eq (freeFrom_markDirty s _ _))
      (by omega) position hposition hunmarked
    refine ⟨hbefore, ?_⟩
    dsimp only [State.fillZero]
    rw [if_neg houtside, buffer_markDirty]

theorem deleted_shown {handle : VectorHandle} (h : WellFormed s) (hlive : Live handle s) :
    (s.deleted handle).freeFrom ≤ s.freeFrom ∧
      Shown (s.deleted handle).freeFrom s (s.deleted handle) := by
  unfold State.deleted
  split_ifs with hsize
  · exact ⟨Nat.le_refl _, Shown.refl _ s⟩
  · obtain ⟨hle, hshown⟩ := released_shown (h.eraseActive (hlive.resolve_left hsize))
    exact ⟨hle, Shown.trans (.of_fields (fun _ _ => rfl) rfl rfl) hshown⟩

theorem shrunk_shown {handle : VectorHandle} (h : WellFormed s) (hactive : handle ∈ s.active)
    {newSize : Nat} (hlt : newSize < handle.size) :
    (s.shrunk handle newSize).freeFrom ≤ s.freeFrom ∧
      Shown (s.shrunk handle newSize).freeFrom s (s.shrunk handle newSize) := by
  have hloose := h.loosened hactive hlt
  obtain ⟨hle, hshown⟩ := released_shown hloose
  unfold State.shrunk
  split_ifs at hle hshown ⊢
  · exact ⟨hle, Shown.trans (.of_fields (fun _ _ => rfl) rfl rfl) hshown⟩
  · exact ⟨hle, Shown.trans (.of_fields (fun _ _ => rfl) rfl rfl) hshown⟩

/-- An allocation changes nothing below the length it finds. -/
theorem allocate_shown (allocates : Nat → Bool) (hroom : s.freeFrom ≤ s.capacity) (size : Nat) :
    Shown s.freeFrom s (allocate allocates size s).2 := by
  have hgrown : ∀ newSize, Shown s.freeFrom s (s.grow newSize) := fun newSize =>
    .of_fields (fun position hposition => if_pos (Nat.lt_of_lt_of_le hposition hroom)) rfl rfl
  have hextended : ∀ t : State F, Shown s.freeFrom s t → Shown s.freeFrom s (t.extend size) :=
    fun t ht => ht.trans (.of_fields (fun _ _ => rfl) rfl rfl)
  have hresized : ∀ newSize, Shown s.freeFrom s (resizeBuffer allocates newSize s).2 := by
    intro newSize
    have hensures : Ensures (· = s) (resizeBuffer allocates newSize)
        (fun _ t => Shown s.freeFrom s t) (fun t => t = s) := by
      unfold resizeBuffer
      refine ensures_get fun t ht => ?_
      subst ht
      refine ensures_require_bind (fun _ => ?_) fun _ _ hs => hs
      refine ensures_require_bind (fun _ => ?_) fun _ _ hs => hs
      refine ensures_require_bind (fun _ => ?_) fun _ _ hs => hs
      refine ensures_modify fun u hu => ?_
      subst hu
      exact hgrown newSize
    refine hensures.left (fun _ _ hs => hs) (fun t ht => ?_) rfl
    rw [ht]
    exact Shown.refl _ s
  unfold allocate
  rw [get_bind_run]
  split_ifs with hzero hfits
  · exact Shown.refl _ s
  · cases takeFreed size s.freed with
    | some taken => exact .of_fields (fun _ _ => rfl) rfl rfl
    | none =>
      dsimp only
      have hshown := hresized (wrap (2 * s.capacity + size))
      cases hrun : resizeBuffer allocates (wrap (2 * s.capacity + size)) s with
      | mk result t =>
        rw [hrun] at hshown
        cases result with
        | ok _ =>
          rw [bind_ok hrun]
          exact hextended t hshown
        | error message =>
          rw [bind_error hrun]
          exact hshown
  · cases takeFreed size s.freed with
    | some taken => exact .of_fields (fun _ _ => rfl) rfl rfl
    | none => exact hextended s (Shown.refl _ s)

/-! ## Steps -/

/-- No size wraps around. -/
def Action.Sized (s : State F) : Action F → Prop
  | allocate size => NoWrap size s
  | reallocate handle newSize =>
    Live handle s → handle.size < newSize → NoWrap newSize (s.deleted handle)
  | deleteHandle _ => True
  | set setter => setter.reach < 2 ^ 64

instance (s : State F) : (action : Action F) → Decidable (action.Sized s)
  | .allocate size => inferInstanceAs (Decidable (NoWrap size s))
  | .reallocate handle newSize => inferInstanceAs (Decidable
      (Live handle s → handle.size < newSize → NoWrap newSize (s.deleted handle)))
  | .deleteHandle _ => inferInstanceAs (Decidable True)
  | .set setter => inferInstanceAs (Decidable (setter.reach < 2 ^ 64))

/-- The length that an allocation made by the call finds. -/
def Action.lowest (s : State F) : Action F → Nat
  | reallocate handle _ => (s.deleted handle).freeFrom
  | _ => s.freeFrom

/-- What stays in use through a call, and is not marked at its end, is as it was. -/
structure Followed (s t : State F) (lowest : Nat) : Prop where
  sound : WellFormed t
  kept : ∀ position < t.freeFrom, position < lowest → position < s.freeFrom
  shown : ∀ position < t.freeFrom, position < lowest → t.marked position = false →
    s.marked position = false ∧ t.buffer position = s.buffer position

theorem Followed.refl (h : WellFormed s) (lowest : Nat) : Followed s s lowest :=
  ⟨h, fun _ hposition _ => hposition, fun _ _ _ hunmarked => ⟨hunmarked, rfl⟩⟩

theorem Followed.of_shorter (h : WellFormed t) (hle : t.freeFrom ≤ s.freeFrom)
    (hshown : Shown t.freeFrom s t) (lowest : Nat) : Followed s t lowest :=
  ⟨h, fun _ hposition _ => Nat.lt_of_lt_of_le hposition hle,
    fun position hposition _ => hshown position hposition⟩

theorem followed_allocate (allocates : Nat → Bool) (h : WellFormed s) {size : Nat}
    (hwrap : NoWrap size s) : Followed s (allocate allocates size s).2 s.freeFrom := by
  refine ⟨?_, fun _ _ hposition => hposition, fun position _ hposition =>
    allocate_shown allocates h.room size position hposition⟩
  rcases h.allocate allocates hwrap with hallocated | hrefused
  · obtain ⟨handle, s', hrun, hsound⟩ := hallocated
    rw [hrun]
    exact hsound
  · obtain ⟨message, hrun, -⟩ := hrefused
    rw [hrun]
    exact h

theorem followed_reallocate (allocates : Nat → Bool) (h : WellFormed s) {handle : VectorHandle}
    {newSize : Nat}
    (hsized : Live handle s → handle.size < newSize → NoWrap newSize (s.deleted handle)) :
    Followed s (reallocate allocates handle newSize s).2 (s.deleted handle).freeFrom := by
  by_cases hsame : newSize = handle.size
  · unfold reallocate
    rw [if_pos hsame]
    exact .refl h _
  · by_cases hlive : Live handle s
    · rcases Nat.lt_or_gt_of_ne hsame with hlt | hgt
      · have hactive := hlive.resolve_left (Nat.ne_of_gt (Nat.lt_of_le_of_lt (Nat.zero_le _) hlt))
        obtain ⟨hrun, hsound⟩ := h.reallocateShrink allocates hactive hlt
        obtain ⟨hle, hshown⟩ := shrunk_shown h hactive hlt
        rw [hrun]
        exact .of_shorter hsound hle hshown _
      · obtain ⟨hle, hshown⟩ := deleted_shown h hlive
        have hallocated := followed_allocate allocates (h.deleteHandle hlive).2 (hsized hlive hgt)
        rw [h.reallocateGrow allocates hlive hgt]
        refine ⟨hallocated.sound, fun position _ hposition => Nat.lt_of_lt_of_le hposition hle,
          fun position hused hposition hunmarked => ?_⟩
        obtain ⟨hmiddle, hafter⟩ := hallocated.shown position hused hposition hunmarked
        obtain ⟨hbefore, hdeleted⟩ := hshown position hposition hmiddle
        exact ⟨hbefore, hafter.trans hdeleted⟩
    · obtain ⟨message, hraised⟩ := h.validateHandle_dead hlive "VectorBuffer.reallocate"
      unfold reallocate
      rw [if_neg hsame, bind_error hraised]
      exact .refl h _

theorem bind_unit_state {α : Type} (call : BufferOp F α) (s : State F) :
    ((do let _ ← call : BufferOp F Unit) s).2 = (call s).2 := by
  cases hrun : call s with
  | mk result t =>
    cases result with
    | ok a => rw [bind_ok hrun, pure_run]
    | error message => rw [bind_error hrun]

theorem Action.Sized.followed (allocates : Nat → Bool) (floats : Floats F) (h : WellFormed s)
    {action : Action F} (hsized : action.Sized s) :
    Followed s (step allocates floats s action) (action.lowest s) := by
  cases action with
  | allocate size =>
    unfold step Action.run
    rw [bind_unit_state]
    exact followed_allocate allocates h hsized
  | reallocate handle newSize =>
    unfold step Action.run
    rw [bind_unit_state]
    exact followed_reallocate allocates h hsized
  | deleteHandle handle =>
    show Followed s (VectorBuffer.deleteHandle handle s).2 s.freeFrom
    by_cases hlive : Live handle s
    · obtain ⟨hrun, hsound⟩ := h.deleteHandle hlive
      obtain ⟨hle, hshown⟩ := deleted_shown h hlive
      rw [hrun]
      exact .of_shorter hsound hle hshown _
    · obtain ⟨message, hraised⟩ := h.validateHandle_dead hlive "VectorBuffer.delete"
      have hsize : handle.size ≠ 0 := fun hzero => hlive (.inl hzero)
      unfold VectorBuffer.deleteHandle
      rw [if_neg hsize, bind_error hraised]
      exact .refl h _
  | set setter =>
    obtain ⟨hsound, hlength, hshown⟩ := setter.following h floats hsized
    exact .of_shorter hsound (Nat.le_of_eq hlength) (hshown.mono (Nat.le_of_eq hlength)) _

end Calls

end Space2.VectorBuffer
