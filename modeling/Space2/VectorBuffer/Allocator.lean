import Space2.Base.Runs
import Space2.Base.Tiling
import Space2.VectorBuffer.Buffer

/-!
# Blocks of the vertex buffer

The active and the free blocks tile the used part of the buffer. While a block is being
released it is in neither table, so the tables are followed together with such loose
blocks. Sizes that wrap around and a reallocation that cannot grow the array are the two
ways out of this.
-/
namespace Space2.VectorBuffer
open Base Base.Op

variable {F : Type}

theorem wrap_of_lt {n : Nat} (h : n < 2 ^ 64) : wrap n = n := Nat.mod_eq_of_lt h

def VectorHandle.block (handle : VectorHandle) : Block := ⟨handle.index, handle.size⟩

def Keyed (freed : Buckets) : Prop :=
  ∀ bucket ∈ freed, ∀ handle ∈ bucket.2, handle.size = bucket.1

/-! ## Free lists -/

theorem blocks_cons (bucket : Nat × List VectorHandle) (freed : Buckets) :
    blocks (bucket :: freed) = bucket.2 ++ blocks freed := List.flatMap_cons

theorem Keyed.cons {bucket : Nat × List VectorHandle} {freed : Buckets} :
    Keyed (bucket :: freed) ↔ (∀ handle ∈ bucket.2, handle.size = bucket.1) ∧ Keyed freed :=
  List.forall_mem_cons

theorem takeFreed_spec {size : Nat} {freed rest : Buckets} {handle : VectorHandle}
    (hkeyed : Keyed freed) (h : takeFreed size freed = some (handle, rest)) :
    handle.size = size ∧ Keyed rest ∧ (blocks freed).Perm (handle :: blocks rest) := by
  induction freed generalizing rest with
  | nil => cases h
  | cons bucket freed ih =>
    obtain ⟨key, handles⟩ := bucket
    obtain ⟨hbucket, hfreed⟩ := Keyed.cons.1 hkeyed
    unfold takeFreed at h
    split_ifs at h with hkey
    · cases handles with
      | nil => cases h
      | cons first others =>
        have hsize := (hbucket first List.mem_cons_self).trans hkey
        cases others with
        | nil =>
          cases h
          exact ⟨hsize, hfreed, .refl _⟩
        | cons second others =>
          cases h
          refine ⟨hsize, Keyed.cons.2 ⟨fun other hother => ?_, hfreed⟩, .refl _⟩
          exact hbucket other (List.mem_cons_of_mem _ hother)
    · obtain ⟨taken, htaken, heq⟩ := Option.map_eq_some_iff.1 h
      cases heq
      obtain ⟨hsize, hrest, hperm⟩ := ih hfreed htaken
      refine ⟨hsize, Keyed.cons.2 ⟨hbucket, hrest⟩, ?_⟩
      rw [blocks_cons, blocks_cons]
      exact (hperm.append_left handles).trans List.perm_middle

theorem keyed_pushFreed {handle : VectorHandle} {freed : Buckets} (h : Keyed freed) :
    Keyed (pushFreed handle freed) := by
  induction freed with
  | nil =>
    refine Keyed.cons.2 ⟨fun other hother => ?_, fun _ hnone => absurd hnone List.not_mem_nil⟩
    rw [List.mem_singleton.1 hother]
  | cons bucket freed ih =>
    obtain ⟨hbucket, hfreed⟩ := Keyed.cons.1 h
    rw [pushFreed]
    split_ifs with hkey
    · refine Keyed.cons.2 ⟨fun other hother => ?_, hfreed⟩
      rcases List.mem_append.1 hother with hother | hother
      · exact hbucket other hother
      · rw [List.mem_singleton.1 hother]
        exact hkey.symm
    · exact Keyed.cons.2 ⟨hbucket, ih hfreed⟩

theorem blocks_pushFreed (handle : VectorHandle) (freed : Buckets) :
    (blocks (pushFreed handle freed)).Perm (handle :: blocks freed) := by
  induction freed with
  | nil => exact .refl _
  | cons bucket freed ih =>
    rw [pushFreed]
    split_ifs
    · rw [blocks_cons, blocks_cons, List.append_assoc]
      exact List.perm_middle
    · rw [blocks_cons, blocks_cons]
      exact (ih.append_left _).trans List.perm_middle

/-! ## The tail -/

def EndsAt (freeFrom : Nat) (handle : VectorHandle) : Prop :=
  wrap (handle.index + handle.size) = freeFrom

theorem takeEnding_some {freeFrom : Nat} {handles rest : List VectorHandle} {handle : VectorHandle}
    (h : takeEnding freeFrom handles = some (handle, rest)) :
    EndsAt freeFrom handle ∧ handles.Perm (handle :: rest) := by
  induction handles generalizing rest with
  | nil => cases h
  | cons first handles ih =>
    rw [takeEnding] at h
    split_ifs at h with hend
    · cases h
      exact ⟨hend, .refl _⟩
    · obtain ⟨taken, htaken, heq⟩ := Option.map_eq_some_iff.1 h
      cases heq
      obtain ⟨hends, hperm⟩ := ih htaken
      exact ⟨hends, (hperm.cons first).trans (.swap _ _ _)⟩

theorem takeEnding_none {freeFrom : Nat} {handles : List VectorHandle}
    (h : takeEnding freeFrom handles = none) : ∀ handle ∈ handles, ¬ EndsAt freeFrom handle := by
  induction handles with
  | nil => exact fun _ hnone => absurd hnone List.not_mem_nil
  | cons first handles ih =>
    rw [takeEnding] at h
    split_ifs at h with hend
    exact List.forall_mem_cons.2 ⟨hend, ih (Option.map_eq_none_iff.1 h)⟩

theorem sweepTail_some {freeFrom : Nat} {freed rest : Buckets} {handle : VectorHandle}
    (hkeyed : Keyed freed) (h : sweepTail freeFrom freed = (some handle, rest)) :
    EndsAt freeFrom handle ∧ Keyed rest ∧ (blocks freed).Perm (handle :: blocks rest) := by
  induction freed generalizing rest with
  | nil => cases h
  | cons bucket freed ih =>
    obtain ⟨key, handles⟩ := bucket
    obtain ⟨hbucket, hfreed⟩ := Keyed.cons.1 hkeyed
    rw [sweepTail] at h
    split at h
    · next last hending =>
      cases h
      obtain ⟨hends, hperm⟩ := takeEnding_some hending
      refine ⟨hends, hfreed, ?_⟩
      rw [blocks_cons]
      exact hperm.append_right _
    · next last others _ hending =>
      cases h
      obtain ⟨hends, hperm⟩ := takeEnding_some hending
      refine ⟨hends, Keyed.cons.2 ⟨fun other hother => ?_, hfreed⟩, ?_⟩
      · exact hbucket other (hperm.mem_iff.2 (List.mem_cons_of_mem _ hother))
      · rw [blocks_cons, blocks_cons]
        exact hperm.append_right _
    · next hending =>
      split_ifs at h with hempty
      · obtain ⟨hends, hrest, hperm⟩ := ih hfreed h
        refine ⟨hends, hrest, ?_⟩
        rw [blocks_cons, hempty]
        exact hperm
      · cases hswept : sweepTail freeFrom freed with
        | mk found swept =>
          rw [hswept] at h
          cases h
          obtain ⟨hends, hrest, hperm⟩ := ih hfreed hswept
          refine ⟨hends, Keyed.cons.2 ⟨hbucket, hrest⟩, ?_⟩
          rw [blocks_cons, blocks_cons]
          exact (hperm.append_left handles).trans List.perm_middle

theorem sweepTail_none {freeFrom : Nat} {freed rest : Buckets} (hkeyed : Keyed freed)
    (h : sweepTail freeFrom freed = (none, rest)) :
    Keyed rest ∧ blocks rest = blocks freed ∧ ∀ handle ∈ blocks freed, ¬ EndsAt freeFrom handle := by
  induction freed generalizing rest with
  | nil =>
    cases h
    exact ⟨hkeyed, rfl, fun _ hnone => absurd hnone List.not_mem_nil⟩
  | cons bucket freed ih =>
    obtain ⟨key, handles⟩ := bucket
    obtain ⟨hbucket, hfreed⟩ := Keyed.cons.1 hkeyed
    rw [sweepTail] at h
    split at h
    · cases h
    · cases h
    · next hending =>
      split_ifs at h with hempty
      · obtain ⟨hrest, hsame, hnone⟩ := ih hfreed h
        rw [blocks_cons, hempty]
        exact ⟨hrest, hsame, hnone⟩
      · cases hswept : sweepTail freeFrom freed with
        | mk found swept =>
          rw [hswept] at h
          cases h
          obtain ⟨hrest, hsame, hnone⟩ := ih hfreed hswept
          rw [blocks_cons, blocks_cons, hsame]
          exact ⟨Keyed.cons.2 ⟨hbucket, hrest⟩, rfl,
            List.forall_mem_append.2 ⟨takeEnding_none hending, hnone⟩⟩

theorem stop_of_tiles {blocks : List Block} {length : Nat} (h : Tiles blocks length)
    (hlength : length < 2 ^ 64) {handle : VectorHandle} (hmem : handle.block ∈ blocks) :
    wrap (handle.index + handle.size) = handle.block.stop := by
  have hle := h.stop_le hmem
  exact Nat.mod_eq_of_lt (Nat.lt_of_le_of_lt hle hlength)

/-- The buckets and the length once no free block ends the used part. -/
structure TailReleased (others : List Block) (freeFrom : Nat) (freed : Buckets)
    (released : Nat × Buckets) : Prop where
  keyed : Keyed released.2
  tiles : Tiles (others ++ (blocks released.2).map VectorHandle.block) released.1
  le : released.1 ≤ freeFrom
  subset : ∀ handle ∈ blocks released.2, handle ∈ blocks freed
  tail : ∀ handle ∈ blocks released.2, handle.block.stop ≠ released.1

theorem releaseTail_spec {others : List Block} {passes freeFrom : Nat} {freed : Buckets}
    (hkeyed : Keyed freed) (hpasses : (blocks freed).length < passes)
    (htiles : Tiles (others ++ (blocks freed).map VectorHandle.block) freeFrom)
    (hlength : freeFrom < 2 ^ 64) :
    TailReleased others freeFrom freed (releaseTail passes freeFrom freed) := by
  have hstop : ∀ handle ∈ blocks freed, wrap (handle.index + handle.size) = handle.block.stop :=
    fun handle hmem => stop_of_tiles htiles hlength
      (List.mem_append_right _ (List.mem_map_of_mem hmem))
  induction passes generalizing freeFrom freed with
  | zero => exact absurd hpasses (Nat.not_lt_zero _)
  | succ passes ih =>
    rw [releaseTail]
    cases hswept : sweepTail freeFrom freed with
    | mk found rest =>
      cases found with
      | none =>
        obtain ⟨hrest, hsame, hnone⟩ := sweepTail_none hkeyed hswept
        refine ⟨hrest, ?_, Nat.le_refl _, fun handle hmem => ?_, fun handle hmem hend => ?_⟩
        · rw [hsame]
          exact htiles
        · rwa [hsame] at hmem
        · rw [hsame] at hmem
          exact hnone handle hmem ((hstop handle hmem).trans hend)
      | some last =>
        obtain ⟨hends, hrest, hperm⟩ := sweepTail_some hkeyed hswept
        have hmem : last ∈ blocks freed := hperm.mem_iff.2 List.mem_cons_self
        have hend : last.block.stop = freeFrom := (hstop last hmem).symm.trans hends
        have htiles' : Tiles (last.block :: (others ++ (blocks rest).map VectorHandle.block))
            freeFrom := by
          refine htiles.perm (((hperm.map VectorHandle.block).append_left others).trans ?_)
          exact List.perm_middle
        have hle : last.index ≤ freeFrom := hend ▸ Nat.le_add_right _ _
        have hreleased := ih hrest (by
            have hcount := hperm.length_eq
            rw [List.length_cons] at hcount
            omega) (htiles'.pop hend) (Nat.lt_of_le_of_lt hle hlength)
          fun handle hhandle => hstop handle (hperm.mem_iff.2 (List.mem_cons_of_mem _ hhandle))
        exact ⟨hreleased.keyed, hreleased.tiles, hreleased.le.trans hle, fun handle hhandle =>
          hperm.mem_iff.2 (List.mem_cons_of_mem _ (hreleased.subset handle hhandle)),
          hreleased.tail⟩

/-! ## The tables together -/

/-- The state while `loose` is in neither table. -/
structure Sound [Zero F] (loose : List VectorHandle) (s : State F) : Prop where
  tiles : Tiles ((loose ++ s.active ++ blocks s.freed).map VectorHandle.block) s.freeFrom
  keyed : Keyed s.freed
  tail : ∀ handle ∈ blocks s.freed, handle.block.stop ≠ s.freeFrom
  room : s.freeFrom ≤ s.capacity
  bounded : s.capacity ≤ maxSize
  zeroed : ∀ handle ∈ blocks s.freed, ∀ position, handle.block.Covers position →
    s.buffer position = 0
  dirty : s.hasDirty = true → s.dirtyTo ≤ s.freeFrom

abbrev WellFormed [Zero F] (s : State F) : Prop := Sound [] s

section Sound
variable [Zero F] {loose : List VectorHandle} {s : State F}

theorem Sound.length_lt (h : Sound loose s) : s.freeFrom < 2 ^ 64 := by
  have hroom := h.room
  have hbounded := h.bounded
  unfold maxSize at hbounded
  omega

theorem Sound.mem_active (h : Sound loose s) {handle : VectorHandle} (hactive : handle ∈ s.active) :
    handle.block ∈ (loose ++ s.active ++ blocks s.freed).map VectorHandle.block :=
  List.mem_map_of_mem (List.mem_append_left _ (List.mem_append_right _ hactive))

theorem Sound.mem_free (h : Sound loose s) {handle : VectorHandle} (hfree : handle ∈ blocks s.freed) :
    handle.block ∈ (loose ++ s.active ++ blocks s.freed).map VectorHandle.block :=
  List.mem_map_of_mem (List.mem_append_right _ hfree)

theorem block_injective {first second : VectorHandle} (h : first.block = second.block) :
    first = second := by
  cases first
  cases second
  cases h
  rfl

/-- Two blocks of the tiling that start at one index are one. -/
theorem Sound.eq_of_index (h : Sound loose s) {first second : VectorHandle}
    (hfirst : first.block ∈ (loose ++ s.active ++ blocks s.freed).map VectorHandle.block)
    (hsecond : second.block ∈ (loose ++ s.active ++ blocks s.freed).map VectorHandle.block)
    (hindex : first.index = second.index) : first = second := by
  have hstart : first.block.Covers first.index :=
    ⟨Nat.le_refl _, Nat.lt_add_of_pos_right (h.tiles.nonempty _ hfirst)⟩
  have hother : second.block.Covers second.index :=
    ⟨Nat.le_refl _, Nat.lt_add_of_pos_right (h.tiles.nonempty _ hsecond)⟩
  exact block_injective (h.tiles.eq_of_covers hfirst hsecond hstart (hindex ▸ hother))

theorem Sound.activeSize_iff (h : Sound loose s) {handle : VectorHandle} :
    s.activeSize handle.index = some handle.size ↔ handle ∈ s.active := by
  unfold State.activeSize
  constructor
  · intro hsize
    obtain ⟨entry, hfound, hentry⟩ := Option.map_eq_some_iff.1 hsize
    have hindex : entry.index = handle.index := by simpa using List.find?_some hfound
    have hsame : entry = handle := by
      cases entry
      cases handle
      cases hindex
      cases hentry
      rfl
    exact hsame ▸ List.mem_of_find?_eq_some hfound
  · intro hactive
    cases hfound : s.active.find? fun entry => entry.index = handle.index with
    | none => simpa using List.find?_eq_none.1 hfound handle hactive
    | some entry =>
      have hindex : entry.index = handle.index := by simpa using List.find?_some hfound
      rw [h.eq_of_index (h.mem_active (List.mem_of_find?_eq_some hfound)) (h.mem_active hactive)
        hindex]
      rfl

/-! ## Changes of the tables -/

theorem Sound.active_nodup (h : Sound loose s) : s.active.Nodup := by
  have hnodup := h.tiles.nodup.of_map
  exact ((List.nodup_append.1 hnodup).1 |> List.nodup_append.1).2.1

theorem Sound.filter_active (h : Sound loose s) {handle : VectorHandle}
    (hmem : handle.block ∈ (loose ++ s.active ++ blocks s.freed).map VectorHandle.block) :
    (s.active.filter fun entry => entry.index ≠ handle.index) =
      s.active.filter fun entry => entry ≠ handle := by
  refine List.filter_congr fun entry hentry => decide_eq_decide.2 ?_
  refine not_congr ⟨fun hindex => ?_, fun hsame => hsame ▸ rfl⟩
  exact h.eq_of_index (h.mem_active hentry) hmem hindex

theorem Sound.eraseActive (h : Sound loose s) {handle : VectorHandle} (hactive : handle ∈ s.active) :
    Sound (handle :: loose) (s.eraseActive handle.index) := by
  have hperm : s.active.Perm (handle :: (s.eraseActive handle.index).active) := by
    rw [State.eraseActive, h.filter_active (h.mem_active hactive)]
    refine (List.perm_cons_erase hactive).trans ?_
    rw [h.active_nodup.erase_eq_filter]
    refine List.Perm.of_eq (congrArg (handle :: ·) (List.filter_congr fun entry _ => ?_))
    exact Bool.eq_iff_iff.2 (by simp)
  refine ⟨h.tiles.perm (List.Perm.map _ ?_), h.keyed, h.tail, h.room, h.bounded, h.zeroed, h.dirty⟩
  refine (((hperm.append_left loose).trans List.perm_middle).append_right _).trans (.of_eq ?_)
  rfl

theorem Sound.putActive {index size : Nat} (h : Sound (⟨index, size⟩ :: loose) s) :
    Sound loose (s.putActive index size) := by
  have hmem : (⟨index, size⟩ : VectorHandle).block ∈
      ((⟨index, size⟩ :: loose) ++ s.active ++ blocks s.freed).map VectorHandle.block :=
    List.mem_cons_self
  have hnot : (⟨index, size⟩ : VectorHandle) ∉ s.active := by
    have hnodup := h.tiles.nodup.of_map
    rw [List.cons_append, List.cons_append, List.nodup_cons] at hnodup
    exact fun hactive => hnodup.1 (List.mem_append_left _ (List.mem_append_right _ hactive))
  have hactive : (s.putActive index size).active = ⟨index, size⟩ :: s.active := by
    refine congrArg (VectorHandle.mk index size :: ·) ?_
    rw [h.filter_active hmem]
    refine List.filter_eq_self.2 fun entry hentry => ?_
    simpa using fun hsame : entry = ⟨index, size⟩ => hnot (hsame ▸ hentry)
  refine ⟨?_, h.keyed, h.tail, h.room, h.bounded, h.zeroed, h.dirty⟩
  rw [hactive]
  refine h.tiles.perm (List.Perm.map _ ?_)
  exact (List.perm_middle.symm).append_right _

/-! ## The dirty range -/

theorem Sound.dirtied (h : Sound loose s) {start stop : Nat}
    (hdirty : ({ s with dirtyFrom := start, dirtyTo := stop } : State F).hasDirty = true →
      stop ≤ s.freeFrom) : Sound loose { s with dirtyFrom := start, dirtyTo := stop } :=
  ⟨h.tiles, h.keyed, h.tail, h.room, h.bounded, h.zeroed, hdirty⟩

theorem Sound.markDirty (h : Sound loose s) (start size : Nat) :
    Sound loose (s.markDirty start size) := by
  unfold State.markDirty
  split
  · exact h
  · split
    · exact h
    · have hstop : (if wrap (start + size) > s.freeFrom then s.freeFrom
          else wrap (start + size)) ≤ s.freeFrom := by
        split_ifs <;> omega
      dsimp only
      generalize (if wrap (start + size) > s.freeFrom then s.freeFrom
        else wrap (start + size)) = stop at hstop
      by_cases hclean : s.hasDirty = false
      · rw [if_pos hclean]
        exact h.dirtied fun _ => hstop
      · rw [if_neg hclean]
        have hdirty := h.dirty (by simpa using hclean)
        refine h.dirtied fun _ => ?_
        split_ifs
        · exact hstop
        · exact hdirty

theorem freeFrom_markDirty (s : State F) (start size : Nat) :
    (s.markDirty start size).freeFrom = s.freeFrom := by
  unfold State.markDirty
  dsimp only
  split_ifs <;> rfl

theorem clampDirtyToLength_eq (s : State F) : ∃ start stop,
    s.clampDirtyToLength = { s with dirtyFrom := start, dirtyTo := stop } := by
  unfold State.clampDirtyToLength
  split_ifs
  · exact ⟨s.dirtyFrom, s.dirtyTo, rfl⟩
  · exact ⟨noIndex, 0, rfl⟩
  · exact ⟨s.dirtyFrom, s.freeFrom, rfl⟩
  · exact ⟨s.dirtyFrom, s.dirtyTo, rfl⟩

theorem dirtyTo_clamp (s : State F) (h : s.clampDirtyToLength.hasDirty = true) :
    s.clampDirtyToLength.dirtyTo ≤ s.freeFrom := by
  unfold State.clampDirtyToLength at h ⊢
  split_ifs at h ⊢ with hclean hstart hstop
  · rw [hclean] at h
    cases h
  · exact Nat.zero_le _
  · exact Nat.le_refl _
  · exact Nat.le_of_not_lt hstop

/-! ## Released blocks -/

/-- What releasing a block that is inside of the buffer leaves. -/
def State.released (handle : VectorHandle) (s : State F) : State F :=
  if wrap (handle.index + handle.size) = s.freeFrom then
    ({ s with freeFrom := handle.index } : State F).releaseTailFreeBlocks.clampDirtyToLength
  else
    let zeroed := (s.markDirty handle.index handle.size).fillZero handle.index handle.size
    { zeroed with freed := pushFreed handle zeroed.freed }

theorem Sound.loose_stop {handle : VectorHandle} (h : Sound (handle :: loose) s) :
    0 < handle.size ∧ handle.block.stop ≤ s.freeFrom ∧
      wrap (handle.index + handle.size) = handle.block.stop := by
  have hmem : handle.block ∈
      ((handle :: loose) ++ s.active ++ blocks s.freed).map VectorHandle.block :=
    List.mem_cons_self
  exact ⟨h.tiles.nonempty _ hmem, h.tiles.stop_le hmem, stop_of_tiles h.tiles h.length_lt hmem⟩

theorem Sound.fillZero (h : Sound loose s) (start size : Nat) :
    Sound loose (s.fillZero start size) := by
  refine ⟨h.tiles, h.keyed, h.tail, h.room, h.bounded, fun handle hmem position hcovers => ?_,
    h.dirty⟩
  dsimp only [State.fillZero]
  split_ifs
  · rfl
  · exact h.zeroed handle hmem position hcovers

theorem Sound.tailReleased {handle : VectorHandle} (h : Sound (handle :: loose) s)
    (hend : handle.block.stop = s.freeFrom) :
    TailReleased ((loose ++ s.active).map VectorHandle.block) handle.index s.freed
      (releaseTail ((blocks s.freed).length + 1) handle.index s.freed) := by
  have htiles : Tiles ((loose ++ s.active).map VectorHandle.block ++
      (blocks s.freed).map VectorHandle.block) handle.index := by
    rw [← List.map_append]
    exact h.tiles.pop hend
  have hle : handle.index ≤ s.freeFrom := hend ▸ Nat.le_add_right _ _
  exact releaseTail_spec h.keyed (Nat.lt_succ_self _) htiles (Nat.lt_of_le_of_lt hle h.length_lt)

theorem Sound.releasedTail {handle : VectorHandle} (h : Sound (handle :: loose) s)
    (hend : handle.block.stop = s.freeFrom) :
    Sound loose
      ({ s with freeFrom := handle.index } : State F).releaseTailFreeBlocks.clampDirtyToLength := by
  have hle : handle.index ≤ s.freeFrom := hend ▸ Nat.le_add_right _ _
  have hreleased := h.tailReleased hend
  obtain ⟨start, stop, hclamped⟩ :=
    clampDirtyToLength_eq ({ s with freeFrom := handle.index } : State F).releaseTailFreeBlocks
  have hdirty :=
    dirtyTo_clamp ({ s with freeFrom := handle.index } : State F).releaseTailFreeBlocks
  rw [hclamped] at hdirty ⊢
  refine ⟨?_, hreleased.keyed, hreleased.tail, (hreleased.le.trans hle).trans h.room, h.bounded,
    fun other hother => h.zeroed other (hreleased.subset other hother), hdirty⟩
  rw [List.map_append]
  exact hreleased.tiles

theorem Sound.released {handle : VectorHandle} (h : Sound (handle :: loose) s) :
    Sound loose (s.released handle) := by
  obtain ⟨-, -, hstop⟩ := h.loose_stop
  unfold State.released
  split_ifs with hend
  · exact h.releasedTail (hstop ▸ hend)
  · have hzeroed := (h.markDirty handle.index handle.size).fillZero handle.index handle.size
    have hperm := blocks_pushFreed handle
      ((s.markDirty handle.index handle.size).fillZero handle.index handle.size).freed
    refine ⟨hzeroed.tiles.perm (List.Perm.map _ ?_), keyed_pushFreed hzeroed.keyed, ?_, hzeroed.room,
      hzeroed.bounded, ?_, hzeroed.dirty⟩
    · exact List.perm_middle.symm.trans (hperm.symm.append_left _)
    · intro other hother hlast
      rcases List.mem_cons.1 (hperm.mem_iff.1 hother) with rfl | hold
      · exact hend (hstop.trans (hlast.trans (freeFrom_markDirty s _ _)))
      · exact hzeroed.tail other hold hlast
    · intro other hother position hcovers
      rcases List.mem_cons.1 (hperm.mem_iff.1 hother) with rfl | hold
      · exact if_pos hcovers
      · exact hzeroed.zeroed other hold position hcovers

/-! ## Runs of the operations -/

/-- The handle was answered, and not deleted since. -/
def Live (handle : VectorHandle) (s : State F) : Prop := handle.size = 0 ∨ handle ∈ s.active

instance (handle : VectorHandle) (s : State F) : Decidable (Live handle s) :=
  inferInstanceAs (Decidable (_ ∨ _))

theorem Sound.inside (h : Sound loose s) {handle : VectorHandle} (hstop : handle.block.stop ≤ s.freeFrom) :
    ¬ (handle.index > s.capacity ∨ handle.size > s.capacity - handle.index) := by
  have hroom := h.room
  unfold VectorHandle.block Block.stop at hstop
  dsimp only at hstop
  omega

theorem Sound.validateHandle (h : Sound loose s) {handle : VectorHandle}
    (hlive : Live handle s) (label : String) :
    validateHandle handle label s = (.ok (), s) := by
  unfold VectorBuffer.validateHandle
  split_ifs with hsize
  · rfl
  · have hactive := hlive.resolve_left hsize
    rw [get_bind_run, bind_ok (require_run
      (h.inside (h.tiles.stop_le (h.mem_active hactive))) _ s)]
    exact require_run (h.activeSize_iff.2 hactive) _ s

theorem Sound.validateHandle_dead (h : Sound loose s) {handle : VectorHandle}
    (hdead : ¬ Live handle s) (label : String) :
    ∃ message, VectorBuffer.validateHandle handle label s = (.error message, s) := by
  unfold Live at hdead
  obtain ⟨hsize, hinactive⟩ := not_or.1 hdead
  unfold VectorBuffer.validateHandle
  rw [if_neg hsize, get_bind_run]
  by_cases hinside : ¬ (handle.index > s.capacity ∨ handle.size > s.capacity - handle.index)
  · rw [bind_ok (require_run hinside _ s)]
    exact ⟨_, require_error (fun hactive => hinactive (h.activeSize_iff.1 hactive)) _ s⟩
  · exact ⟨_, bind_error (require_error hinside _ s)⟩

theorem Sound.releaseRegion {handle : VectorHandle} (h : Sound (handle :: loose) s) :
    releaseRegion handle s = (.ok (), s.released handle) := by
  obtain ⟨hpos, hstop, -⟩ := h.loose_stop
  unfold VectorBuffer.releaseRegion State.released
  rw [get_bind_run, if_neg (Nat.ne_of_gt hpos)]
  split_ifs with hend
  · rfl
  · unfold zeroRegion
    rw [if_neg (Nat.ne_of_gt hpos)]
    have hzero : (do
        let s ← Op.get
        Op.require (¬ (handle.index > s.capacity ∨ handle.size > s.capacity - handle.index))
          "VectorBuffer.zeroRegion out of bounds"
        Op.modify (State.markDirty handle.index handle.size)
        Op.modify (State.fillZero handle.index handle.size) : BufferOp F Unit) s =
          (.ok (), (s.markDirty handle.index handle.size).fillZero handle.index handle.size) := by
      rw [get_bind_run, bind_ok (require_run (h.inside hstop) _ s)]
      rfl
    rw [bind_ok hzero]
    rfl

/-- What deleting a live handle leaves. -/
def State.deleted (handle : VectorHandle) (s : State F) : State F :=
  if handle.size = 0 then s else (s.eraseActive handle.index).released handle

theorem Sound.deleteHandle (h : Sound loose s) {handle : VectorHandle}
    (hlive : Live handle s) :
    deleteHandle handle s = (.ok (), s.deleted handle) ∧ Sound loose (s.deleted handle) := by
  unfold VectorBuffer.deleteHandle State.deleted
  split_ifs with hsize
  · exact ⟨rfl, h⟩
  · have hloose := h.eraseActive (hlive.resolve_left hsize)
    refine ⟨?_, hloose.released⟩
    rw [bind_ok (h.validateHandle hlive _), modify_bind_run]
    exact hloose.releaseRegion

/-! ## Allocation -/

theorem Sound.grow (h : Sound loose s) {newSize : Nat} (hlarger : s.capacity ≤ newSize)
    (hbounded : newSize ≤ maxSize) : Sound loose (s.grow newSize) := by
  refine ⟨h.tiles, h.keyed, h.tail, h.room.trans hlarger, hbounded, ?_, h.dirty⟩
  intro handle hmem position hcovers
  have hlt := h.tiles.stop_le (h.mem_free hmem)
  have hinside : position < s.capacity :=
    Nat.lt_of_lt_of_le hcovers.2 (hlt.trans h.room)
  exact (if_pos hinside).trans (h.zeroed handle hmem position hcovers)

theorem Sound.extend (h : Sound loose s) {size : Nat} (hsize : 0 < size)
    (hroom : s.freeFrom + size ≤ s.capacity) : Sound loose (s.extend size) := by
  have hbounded := h.bounded
  have hlength : wrap (s.freeFrom + size) = s.freeFrom + size := by
    refine Nat.mod_eq_of_lt ?_
    unfold maxSize at hbounded
    omega
  have hlonger : Sound (⟨s.freeFrom, size⟩ :: loose) { s with freeFrom := s.freeFrom + size } := by
    refine ⟨h.tiles.push hsize, h.keyed, fun handle hmem => ?_, hroom, h.bounded, h.zeroed,
      fun hdirty => (h.dirty hdirty).trans (Nat.le_add_right _ _)⟩
    have hstop := h.tiles.stop_le (h.mem_free hmem)
    dsimp only
    omega
  rw [State.extend, hlength]
  exact hlonger.putActive

theorem Sound.recycle (h : Sound loose s) {size : Nat} {handle : VectorHandle} {rest : Buckets}
    (htaken : takeFreed size s.freed = some (handle, rest)) :
    Sound (handle :: loose) { s with freed := rest } := by
  obtain ⟨-, hrest, hperm⟩ := takeFreed_spec h.keyed htaken
  refine ⟨h.tiles.perm (List.Perm.map _ ?_), hrest, ?_, h.room, h.bounded, ?_, h.dirty⟩
  · exact (hperm.append_left _).trans List.perm_middle
  · exact fun other hother => h.tail other (hperm.mem_iff.2 (List.mem_cons_of_mem _ hother))
  · exact fun other hother => h.zeroed other (hperm.mem_iff.2 (List.mem_cons_of_mem _ hother))

/-- A block of the size is free, or it fits, or the array may grow. -/
def HasRoom (allocates : Nat → Bool) (s : State F) (size : Nat) : Prop :=
  size = 0 ∨ (takeFreed size s.freed).isSome = true ∨ s.freeFrom + size ≤ s.capacity ∨
    2 * s.capacity + size ≤ maxSize ∧ allocates (2 * s.capacity + size) = true

/-- The size wraps around neither on top of the used part nor on top of the array. -/
def NoWrap (size : Nat) (s : State F) : Prop :=
  s.freeFrom + size < 2 ^ 64 ∧ s.capacity + size ≤ 2 ^ 64

theorem Sound.resizeBuffer (allocates : Nat → Bool) (h : Sound loose s) {size : Nat}
    (hwrap : NoWrap size s) :
    (resizeBuffer allocates (wrap (2 * s.capacity + size)) s =
        (.ok (), s.grow (2 * s.capacity + size)) ∧
      s.capacity < 2 * s.capacity + size ∧ 2 * s.capacity + size ≤ maxSize) ∨
      (∃ message, resizeBuffer allocates (wrap (2 * s.capacity + size)) s = (.error message, s)) ∧
        (s.capacity < 2 * s.capacity + size →
          ¬ (2 * s.capacity + size ≤ maxSize ∧ allocates (2 * s.capacity + size) = true)) := by
  have hbounded := h.bounded
  unfold maxSize at hbounded
  unfold NoWrap at hwrap
  unfold VectorBuffer.resizeBuffer
  rw [get_bind_run]
  by_cases hlarger : ¬ wrap (2 * s.capacity + size) ≤ s.capacity
  · -- the doubled size does not wrap around, or it would be at most the old one
    have hexact : wrap (2 * s.capacity + size) = 2 * s.capacity + size := by
      unfold wrap at hlarger ⊢
      omega
    rw [hexact] at hlarger ⊢
    rw [bind_ok (require_run hlarger _ s)]
    by_cases hallowed : 2 * s.capacity + size ≤ maxSize ∧ allocates (2 * s.capacity + size) = true
    · rw [bind_ok (require_run hallowed.1 _ s), bind_ok (require_run hallowed.2 _ s)]
      exact .inl ⟨rfl, Nat.lt_of_not_le hlarger, hallowed.1⟩
    · refine .inr ⟨?_, fun _ => hallowed⟩
      by_cases hmax : 2 * s.capacity + size ≤ maxSize
      · rw [bind_ok (require_run hmax _ s)]
        exact ⟨_, bind_error (require_error (fun hgiven => hallowed ⟨hmax, hgiven⟩) _ s)⟩
      · exact ⟨_, bind_error (require_error hmax _ s)⟩
  · refine .inr ⟨⟨_, bind_error (require_error hlarger _ s)⟩, fun hless hgiven => hlarger ?_⟩
    have hmax := hgiven.1
    unfold maxSize at hmax
    rw [wrap, Nat.mod_eq_of_lt (by omega)]
    exact Nat.not_le_of_lt hless

theorem Sound.allocateEnd {allocates : Nat → Bool} (h : Sound loose s) {size : Nat}
    (hsize : 0 < size) (hwrap : NoWrap size s) (hfree : takeFreed size s.freed = none) :
    (∃ s', allocate allocates size s = (.ok ⟨s.freeFrom, size⟩, s') ∧ Sound loose s') ∨
      ∃ message, allocate allocates size s = (.error message, s) ∧ ¬ HasRoom allocates s size := by
  have hlength : wrap (s.freeFrom + size) = s.freeFrom + size := Nat.mod_eq_of_lt hwrap.1
  have hroom := h.room
  unfold allocate
  rw [get_bind_run, if_neg (Nat.ne_of_gt hsize), hfree]
  dsimp only
  rw [hlength]
  by_cases hfits : s.freeFrom + size > s.capacity
  · rw [if_pos hfits]
    rcases h.resizeBuffer allocates hwrap with hgrown | hrefused
    · left
      obtain ⟨hresized, hlarger, hbounded⟩ := hgrown
      rw [bind_ok hresized]
      refine ⟨_, rfl, (h.grow (Nat.le_of_lt hlarger) hbounded).extend hsize ?_⟩
      dsimp only [State.grow]
      omega
    · right
      obtain ⟨hraised, hnone⟩ := hrefused
      obtain ⟨message, hraised⟩ := hraised
      refine ⟨message, bind_error hraised, ?_⟩
      rintro (hzero | hrecycled | hfit | hgiven)
      · exact absurd hzero (Nat.ne_of_gt hsize)
      · rw [hfree] at hrecycled
        cases hrecycled
      · omega
      · exact hnone (by omega) hgiven
  · rw [if_neg hfits]
    exact .inl ⟨_, rfl, h.extend hsize (Nat.le_of_not_lt hfits)⟩

theorem Sound.allocate (allocates : Nat → Bool) (h : Sound loose s) {size : Nat}
    (hwrap : NoWrap size s) :
    (∃ handle s', allocate allocates size s = (.ok handle, s') ∧ Sound loose s') ∨
      ∃ message, allocate allocates size s = (.error message, s) ∧ ¬ HasRoom allocates s size := by
  by_cases hzero : size = 0
  · refine .inl ⟨⟨s.freeFrom, 0⟩, s, ?_, h⟩
    unfold VectorBuffer.allocate
    rw [get_bind_run, if_pos hzero]
    rfl
  · cases htaken : takeFreed size s.freed with
    | none =>
      rcases h.allocateEnd (Nat.pos_of_ne_zero hzero) hwrap htaken with hended | hrefused
      · obtain ⟨s', hrun, hsound⟩ := hended
        exact .inl ⟨_, s', hrun, hsound⟩
      · exact .inr hrefused
    | some taken =>
      refine .inl ⟨taken.1, _, ?_, (h.recycle htaken).putActive⟩
      unfold VectorBuffer.allocate
      rw [get_bind_run, if_neg hzero, htaken]
      rfl

theorem Sound.noWrap {allocates : Nat → Bool} (h : Sound loose s) {size : Nat}
    (hroom : HasRoom allocates s size) : NoWrap size s := by
  have hbounded := h.bounded
  have hused := h.room
  unfold NoWrap
  unfold maxSize at hbounded
  rcases hroom with hzero | hrecycled | hfits | hgrown
  · omega
  · obtain ⟨taken, htaken⟩ := Option.isSome_iff_exists.1 hrecycled
    obtain ⟨hsize, -, hperm⟩ := takeFreed_spec h.keyed htaken
    have hstop := h.tiles.stop_le (h.mem_free (hperm.mem_iff.2 List.mem_cons_self))
    unfold VectorHandle.block Block.stop at hstop
    dsimp only at hstop
    omega
  · omega
  · have hmax := hgrown.1
    unfold maxSize at hmax
    omega

end Sound

end Space2.VectorBuffer
