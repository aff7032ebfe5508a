import Mathlib

/-!
# Interleaving blocks

Blocks of different lengths are written column by column, each column with the
blocks that reach so far. The lengths say at which place each member is written.
-/
namespace Space2.Base

variable {α : Type*}

/-- The members of the blocks at a place. -/
def column (blocks : List (List α)) (i : Nat) : List α := blocks.filterMap fun block => block[i]?

def maxLength (blocks : List (List α)) : Nat := blocks.foldl (fun longest block => max longest block.length) 0

def interleave (blocks : List (List α)) : List α := (List.range (maxLength blocks)).flatMap (column blocks)

/-- How many of the sizes reach to a column. -/
def reach (sizes : List Nat) (i : Nat) : Nat := sizes.countP fun size => decide (i < size)

/-- Where the member `i` of the block `b` is written. -/
def place (sizes : List Nat) (b i : Nat) : Nat :=
  ((List.range i).map (reach sizes)).sum + reach (sizes.take b) i

def deinterleave (sizes : List Nat) (written : List α) : List (List α) :=
  sizes.zipIdx.map fun (size, b) => (List.range size).filterMap fun i => written[place sizes b i]?

variable {blocks : List (List α)}

theorem column_cons_reaching {block : List α} {i : Nat} (h : i < block.length) (blocks : List (List α)) :
    column (block :: blocks) i = block[i] :: column blocks i := by
  unfold column
  rw [List.filterMap_cons, List.getElem?_eq_getElem h]

theorem column_cons_short {block : List α} {i : Nat} (h : ¬ i < block.length) (blocks : List (List α)) :
    column (block :: blocks) i = column blocks i := by
  unfold column
  rw [List.filterMap_cons, List.getElem?_eq_none (not_lt.mp h)]

theorem length_column (blocks : List (List α)) (i : Nat) :
    (column blocks i).length = reach (blocks.map List.length) i := by
  induction blocks with
  | nil => rfl
  | cons block blocks ih =>
    unfold reach at ih ⊢
    rw [List.map_cons, List.countP_cons]
    by_cases hi : i < block.length
    · rw [column_cons_reaching hi, List.length_cons, ih]
      simp [hi]
    · rw [column_cons_short hi, ih]
      simp [hi]

theorem le_maxLength {block : List α} (h : block ∈ blocks) : block.length ≤ maxLength blocks := by
  suffices hfrom : ∀ longest, longest ≤ blocks.foldl (fun longest block => max longest block.length) longest ∧
      ∀ block ∈ blocks, block.length ≤ blocks.foldl (fun longest block => max longest block.length) longest from
    (hfrom 0).2 block h
  clear h
  induction blocks with
  | nil => exact fun longest => ⟨le_rfl, fun block h => absurd h List.not_mem_nil⟩
  | cons first blocks ih =>
    intro longest
    rw [List.foldl_cons]
    obtain ⟨hlongest, hall⟩ := ih (max longest first.length)
    refine ⟨(le_max_left _ _).trans hlongest, List.forall_mem_cons.mpr ⟨?_, hall⟩⟩
    exact (le_max_right _ _).trans hlongest

theorem column_place {b i : Nat} {block : List α} (hb : blocks[b]? = some block) (hi : i < block.length) :
    (column blocks i)[reach ((blocks.map List.length).take b) i]? = some block[i] := by
  obtain ⟨hlt, rfl⟩ := List.getElem?_eq_some_iff.mp hb
  have hsplit : blocks = blocks.take b ++ blocks[b] :: blocks.drop (b + 1) := by
    rw [List.getElem_cons_drop, List.take_append_drop]
  have hcolumn : column blocks i =
      column (blocks.take b) i ++ blocks[b][i] :: column (blocks.drop (b + 1)) i := by
    rw [← column_cons_reaching hi]
    conv_lhs => rw [hsplit]
    exact List.filterMap_append
  rw [hcolumn, ← List.map_take, ← length_column, List.getElem?_append_right le_rfl, Nat.sub_self]
  rfl

theorem interleave_place {b i : Nat} {block : List α} (hb : blocks[b]? = some block)
    (hi : i < block.length) :
    (interleave blocks)[place (blocks.map List.length) b i]? = some block[i] := by
  have hmax : i < maxLength blocks :=
    lt_of_lt_of_le hi (le_maxLength (List.mem_of_getElem? hb))
  have hrange : List.range (maxLength blocks) =
      List.range i ++ i :: (List.range (maxLength blocks - i - 1)).map (· + (i + 1)) := by
    have hcount : maxLength blocks = (i + 1) + (maxLength blocks - i - 1) := by omega
    conv_lhs => rw [hcount]
    rw [List.range_add, List.range_succ, List.append_assoc, List.singleton_append]
    congr 3
    funext k
    exact Nat.add_comm (i + 1) k
  have hlength : ((List.range i).flatMap (column blocks)).length =
      ((List.range i).map (reach (blocks.map List.length))).sum := by
    rw [List.length_flatMap]
    simp only [length_column]
  have hinside := column_place hb hi
  have hshort := (List.getElem?_eq_some_iff.mp hinside).1
  unfold interleave place
  rw [hrange, List.flatMap_append, List.flatMap_cons, ← hlength,
    List.getElem?_append_right (Nat.le_add_right _ _), Nat.add_sub_cancel_left,
    List.getElem?_append_left hshort, hinside]

/-- The blocks come back from what was written and their sizes. -/
theorem deinterleave_interleave (blocks : List (List α)) :
    deinterleave (blocks.map List.length) (interleave blocks) = blocks := by
  unfold deinterleave
  apply List.ext_getElem?
  intro b
  rw [List.getElem?_map, List.getElem?_zipIdx, List.getElem?_map]
  cases hb : blocks[b]? with
  | none => rfl
  | some block =>
    refine congrArg some ?_
    dsimp only
    rw [Nat.zero_add]
    have hread : ∀ i ∈ List.range block.length,
        (interleave blocks)[place (blocks.map List.length) b i]? = block[i]? := by
      intro i hi
      have hi := List.mem_range.mp hi
      rw [interleave_place hb hi, List.getElem?_eq_getElem hi]
    rw [List.filterMap_congr hread]
    clear hread hb
    induction block using List.reverseRecOn with
    | nil => rfl
    | append_singleton block last ih =>
      rw [List.length_append, List.length_singleton, List.range_succ, List.filterMap_append]
      have hearlier : ∀ i ∈ List.range block.length, (block ++ [last])[i]? = block[i]? := fun i hi =>
        List.getElem?_append_left (List.mem_range.mp hi)
      rw [List.filterMap_congr hearlier, ih]
      simp

theorem sum_reach {sizes : List Nat} {bound : Nat} (h : ∀ size ∈ sizes, size ≤ bound) :
    ((List.range bound).map (reach sizes)).sum = sizes.sum := by
  induction sizes with
  | nil =>
    unfold reach
    simp
  | cons size sizes ih =>
    have hcolumn : ∀ i, reach (size :: sizes) i = reach sizes i + if i < size then 1 else 0 := by
      intro i
      unfold reach
      rw [List.countP_cons]
      simp
    have hsize : ∀ count, ((List.range count).map fun i => if i < size then 1 else 0).sum =
        min count size := by
      intro count
      induction count with
      | zero => simp
      | succ count ihcount =>
        rw [List.range_succ, List.map_append, List.sum_append, ihcount]
        simp only [List.map_cons, List.map_nil, List.sum_cons, List.sum_nil]
        split_ifs <;> omega
    have hle := h size List.mem_cons_self
    rw [List.map_congr_left fun i _ => hcolumn i, List.sum_map_add,
      ih fun other hother => h other (List.mem_cons_of_mem size hother), hsize bound, List.sum_cons]
    omega

theorem length_interleave (blocks : List (List α)) :
    (interleave blocks).length = (blocks.map List.length).sum := by
  have hbound : ∀ size ∈ blocks.map List.length, size ≤ maxLength blocks := by
    intro size hsize
    obtain ⟨block, hblock, rfl⟩ := List.mem_map.mp hsize
    exact le_maxLength hblock
  rw [interleave, List.length_flatMap, ← sum_reach hbound]
  simp only [length_column]

end Space2.Base
