import Space2.Base.PieceTable

/-!
# The pieces of a lazy text buffer

Normalisation drops empty pieces and joins neighbours that meet in their
store. Splitting and cutting out a range spell the matching parts of the text.
-/
namespace Space2.LazyTextBuffer
open Piece
variable {α σ : Type} [DecidableEq σ] {stores : σ → List α}

def totalBytes (pieces : List (Piece σ)) : Nat := (pieces.map Piece.bytes).sum

/-- A piece that holds something and stays inside its store. -/
structure Fits (stores : σ → List α) (piece : Piece σ) : Prop where
  nonempty : 0 < piece.bytes
  within : piece.Within stores

def normalizeStep (out : List (Piece σ)) (piece : Piece σ) : List (Piece σ) :=
  if piece.bytes > 0 then
    match out.getLast? with
    | some prev =>
      if prev.source = piece.source ∧ prev.offset + prev.bytes = piece.offset then
        out.dropLast ++ [{ prev with bytes := prev.bytes + piece.bytes }]
      else out ++ [piece]
    | none => out ++ [piece]
  else out

def normalizePieces (pieces : List (Piece σ)) : List (Piece σ) :=
  pieces.foldl normalizeStep []

/-- The first half takes the bytes before `byte`, counted from `pos`. -/
def splitFrom (byte : Nat) : Nat → List (Piece σ) → List (Piece σ) × List (Piece σ)
  | _, [] => ([], [])
  | pos, piece :: rest =>
    let nextPos := pos + piece.bytes
    let (before, after) := splitFrom byte nextPos rest
    if nextPos ≤ byte then (piece :: before, after)
    else if pos ≥ byte then (before, piece :: after)
    else
      let leftBytes := byte - pos
      let rightBytes := piece.bytes - leftBytes
      (⟨piece.source, piece.offset, leftBytes⟩ :: before,
        ⟨piece.source, piece.offset + leftBytes, rightBytes⟩ :: after)

def splitPiecesAt (pieces : List (Piece σ)) (byte : Nat) : List (Piece σ) × List (Piece σ) :=
  let (before, after) := splitFrom byte 0 pieces
  (normalizePieces before, normalizePieces after)

def betweenFrom (startByte endByte : Nat) : Nat → List (Piece σ) → List (Piece σ)
  | _, [] => []
  | pos, piece :: rest =>
    let nextPos := pos + piece.bytes
    let start := max startByte pos
    let finish := min endByte nextPos
    if finish > start then
      ⟨piece.source, piece.offset + (start - pos), finish - start⟩ ::
        betweenFrom startByte endByte nextPos rest
    else betweenFrom startByte endByte nextPos rest

def piecesBetween (pieces : List (Piece σ)) (startByte endByte : Nat) : List (Piece σ) :=
  normalizePieces (betweenFrom startByte endByte 0 pieces)

section Normalize

theorem spelled_normalizeStep (out : List (Piece σ)) (piece : Piece σ) :
    spelled stores (normalizeStep out piece) = spelled stores out ++ piece.spell stores := by
  unfold normalizeStep
  split_ifs with hbytes
  · split
    · next prev hlast =>
      split_ifs with hjoin
      · obtain ⟨hsource, hoffset⟩ := hjoin
        have hout : out.dropLast ++ [prev] = out := by
          obtain ⟨front, rfl⟩ := List.getLast?_eq_some_iff.mp hlast
          simp
        have hpiece : piece = ⟨prev.source, prev.offset + prev.bytes, piece.bytes⟩ := by
          rw [hsource, hoffset]
        have hspell : spell stores { prev with bytes := prev.bytes + piece.bytes } =
            prev.spell stores ++ piece.spell stores := by
          rw [hpiece]
          exact (spell_join prev.source prev.offset prev.bytes piece.bytes).symm
        conv_rhs => rw [← hout]
        simp only [spelled_append, spelled_cons, spelled_nil, List.append_nil, hspell,
          List.append_assoc]
      · rw [spelled_append, spelled_cons, spelled_nil, List.append_nil]
    · rw [spelled_append, spelled_cons, spelled_nil, List.append_nil]
  · have hempty : piece.bytes = 0 := by omega
    rw [spell, hempty, List.take_zero, List.append_nil]

theorem fits_normalizeStep {out : List (Piece σ)} {piece : Piece σ}
    (hout : ∀ other ∈ out, Fits stores other) (hpiece : piece.Within stores) :
    ∀ other ∈ normalizeStep out piece, Fits stores other := by
  intro other hmem
  unfold normalizeStep at hmem
  split_ifs at hmem with hbytes
  · have hfits : Fits stores piece := ⟨hbytes, hpiece⟩
    split at hmem
    · next prev hlast =>
      split_ifs at hmem with hjoin
      · rcases List.mem_append.mp hmem with hmem | hmem
        · exact hout other ((List.dropLast_subset out) hmem)
        · obtain rfl := List.mem_singleton.mp hmem
          obtain ⟨hsource, hoffset⟩ := hjoin
          refine ⟨by dsimp only; omega, ?_⟩
          unfold Within at hpiece ⊢
          dsimp only
          rw [hsource]
          omega
      · rcases List.mem_append.mp hmem with hmem | hmem
        · exact hout other hmem
        · exact List.mem_singleton.mp hmem ▸ hfits
    · rcases List.mem_append.mp hmem with hmem | hmem
      · exact hout other hmem
      · exact List.mem_singleton.mp hmem ▸ hfits
  · exact hout other hmem

theorem spelled_foldl_normalizeStep (pieces out : List (Piece σ)) :
    spelled stores (pieces.foldl normalizeStep out) =
      spelled stores out ++ spelled stores pieces := by
  induction pieces generalizing out with
  | nil => simp
  | cons piece rest ih =>
    rw [List.foldl_cons, ih, spelled_normalizeStep, spelled_cons, List.append_assoc]

theorem spelled_normalizePieces (pieces : List (Piece σ)) :
    spelled stores (normalizePieces pieces) = spelled stores pieces :=
  spelled_foldl_normalizeStep pieces []

theorem fits_normalizePieces {pieces : List (Piece σ)}
    (h : ∀ piece ∈ pieces, piece.Within stores) :
    ∀ piece ∈ normalizePieces pieces, Fits stores piece := by
  suffices hfold : ∀ out : List (Piece σ), (∀ piece ∈ out, Fits stores piece) →
      ∀ piece ∈ pieces.foldl normalizeStep out, Fits stores piece from
    hfold [] (by simp)
  induction pieces with
  | nil => exact fun out hout => hout
  | cons piece rest ih =>
    intro out hout
    exact ih (fun other hmem => h other (List.mem_cons_of_mem piece hmem)) _
      (fits_normalizeStep hout (h piece List.mem_cons_self))

end Normalize

section Split
variable {byte pos : Nat} {pieces : List (Piece σ)}

omit [DecidableEq σ] in
theorem spelled_splitFrom (h : ∀ piece ∈ pieces, piece.Within stores) :
    spelled stores (splitFrom byte pos pieces).1 = (spelled stores pieces).take (byte - pos) ∧
      spelled stores (splitFrom byte pos pieces).2 =
        (spelled stores pieces).drop (byte - pos) := by
  induction pieces generalizing pos with
  | nil => simp [splitFrom]
  | cons piece rest ih =>
    have hrest := fun other hmem => h other (List.mem_cons_of_mem piece hmem)
    obtain ⟨hbefore, hafter⟩ := @ih (pos + piece.bytes) hrest
    have hlength := length_spell (h piece List.mem_cons_self)
    have hpast : byte - pos - piece.bytes = byte - (pos + piece.bytes) := by omega
    simp only [splitFrom, spelled_cons, List.take_append, List.drop_append, hlength, hpast]
    split_ifs with hnext hpos
    · rw [List.take_of_length_le (by omega), List.drop_of_length_le (by omega)]
      exact ⟨by rw [spelled_cons, hbefore], by rw [List.nil_append, hafter]⟩
    · rw [show byte - pos = 0 by omega, show byte - (pos + piece.bytes) = 0 by omega] at *
      exact ⟨by simp [hbefore], by simp [hafter]⟩
    · have hsplit := @spell_join _ _ stores piece.source piece.offset (byte - pos)
        (piece.bytes - (byte - pos))
      rw [show byte - (pos + piece.bytes) = 0 by omega] at *
      rw [spelled_cons, spelled_cons, hbefore, hafter]
      constructor
      · simp [spell, List.take_take, Nat.min_eq_left (by omega : byte - pos ≤ piece.bytes)]
      · simp [spell, List.drop_take, List.drop_drop]

omit [DecidableEq σ] in
theorem within_splitFrom (h : ∀ piece ∈ pieces, piece.Within stores) :
    (∀ piece ∈ (splitFrom byte pos pieces).1, piece.Within stores) ∧
      ∀ piece ∈ (splitFrom byte pos pieces).2, piece.Within stores := by
  induction pieces generalizing pos with
  | nil => simp [splitFrom]
  | cons piece rest ih =>
    have hpiece := h piece List.mem_cons_self
    obtain ⟨hbefore, hafter⟩ := @ih (pos + piece.bytes) fun other hmem =>
      h other (List.mem_cons_of_mem piece hmem)
    simp only [splitFrom]
    unfold Within at *
    split_ifs with hnext hpos
    · exact ⟨List.forall_mem_cons.mpr ⟨hpiece, hbefore⟩, hafter⟩
    · exact ⟨hbefore, List.forall_mem_cons.mpr ⟨hpiece, hafter⟩⟩
    · constructor
      · exact List.forall_mem_cons.mpr ⟨by dsimp only; omega, hbefore⟩
      · exact List.forall_mem_cons.mpr ⟨by dsimp only; omega, hafter⟩

theorem spelled_splitPiecesAt (byte : Nat) (h : ∀ piece ∈ pieces, piece.Within stores) :
    spelled stores (splitPiecesAt pieces byte).1 = (spelled stores pieces).take byte ∧
      spelled stores (splitPiecesAt pieces byte).2 = (spelled stores pieces).drop byte := by
  simp only [splitPiecesAt, spelled_normalizePieces]
  exact spelled_splitFrom h

theorem fits_splitPiecesAt (byte : Nat) (h : ∀ piece ∈ pieces, piece.Within stores) :
    (∀ piece ∈ (splitPiecesAt pieces byte).1, Fits stores piece) ∧
      ∀ piece ∈ (splitPiecesAt pieces byte).2, Fits stores piece := by
  obtain ⟨hbefore, hafter⟩ := @within_splitFrom _ _ _ byte 0 _ h
  exact ⟨fits_normalizePieces hbefore, fits_normalizePieces hafter⟩

end Split

section Between
variable {startByte endByte pos : Nat} {pieces : List (Piece σ)}

omit [DecidableEq σ] in
theorem spelled_betweenFrom (h : ∀ piece ∈ pieces, piece.Within stores) :
    spelled stores (betweenFrom startByte endByte pos pieces) =
      ((spelled stores pieces).take (endByte - pos)).drop (startByte - pos) := by
  induction pieces generalizing pos with
  | nil => simp [betweenFrom]
  | cons piece rest ih =>
    have hrest := fun other hmem => h other (List.mem_cons_of_mem piece hmem)
    have hlength := length_spell (h piece List.mem_cons_self)
    have hend : endByte - pos - piece.bytes = endByte - (pos + piece.bytes) := by omega
    have hpiece : ((piece.spell stores).take (endByte - pos)).drop (startByte - pos) =
        spell stores ⟨piece.source, piece.offset + (max startByte pos - pos),
          min endByte (pos + piece.bytes) - max startByte pos⟩ := by
      rw [drop_take_spell]
      congr 2 <;> omega
    have htail : ((spelled stores rest).take (endByte - (pos + piece.bytes))).drop
        (startByte - pos - min (endByte - pos) piece.bytes) =
          spelled stores (betweenFrom startByte endByte (pos + piece.bytes) rest) := by
      rw [ih hrest]
      by_cases hcut : endByte - (pos + piece.bytes) = 0
      · rw [hcut, List.take_zero, List.drop_nil, List.drop_nil]
      · congr 1
        omega
    simp only [spelled_cons, List.take_append, hlength, hend, List.drop_append,
      List.length_take, hpiece, htail, betweenFrom]
    split_ifs with hpart
    · rw [spelled_cons]
    · rw [show min endByte (pos + piece.bytes) - max startByte pos = 0 by omega, spell_empty,
        List.nil_append]

omit [DecidableEq σ] in
theorem within_betweenFrom (h : ∀ piece ∈ pieces, piece.Within stores) :
    ∀ piece ∈ betweenFrom startByte endByte pos pieces, piece.Within stores := by
  induction pieces generalizing pos with
  | nil => simp [betweenFrom]
  | cons piece rest ih =>
    have hpiece := h piece List.mem_cons_self
    have hbetween := @ih (pos + piece.bytes) fun other hmem =>
      h other (List.mem_cons_of_mem piece hmem)
    simp only [betweenFrom]
    split_ifs with hpart
    · refine List.forall_mem_cons.mpr ⟨?_, hbetween⟩
      unfold Within at hpiece ⊢
      dsimp only
      omega
    · exact hbetween

theorem spelled_piecesBetween (h : ∀ piece ∈ pieces, piece.Within stores) :
    spelled stores (piecesBetween pieces startByte endByte) =
      ((spelled stores pieces).take endByte).drop startByte := by
  rw [piecesBetween, spelled_normalizePieces]
  exact spelled_betweenFrom h

theorem fits_piecesBetween (h : ∀ piece ∈ pieces, piece.Within stores) :
    ∀ piece ∈ piecesBetween pieces startByte endByte, Fits stores piece :=
  fits_normalizePieces (within_betweenFrom h)

end Between

section Edits
variable {pieces : List (Piece σ)} (h : ∀ piece ∈ pieces, piece.Within stores)
include h

/-- A piece put between the two halves; its store may have grown. -/
theorem spelled_inserted {stores' : σ → List α}
    (hextend : ∀ source, stores source <+: stores' source) {piece : Piece σ}
    (hpiece : piece.Within stores') (byte : Nat) :
    (∀ other ∈ (splitPiecesAt pieces byte).1 ++ piece :: (splitPiecesAt pieces byte).2,
        other.Within stores') ∧
      spelled stores' ((splitPiecesAt pieces byte).1 ++ piece :: (splitPiecesAt pieces byte).2) =
        (spelled stores pieces).take byte ++ piece.spell stores' ++
          (spelled stores pieces).drop byte := by
  obtain ⟨hbefore, hafter⟩ := fits_splitPiecesAt byte h
  obtain ⟨htake, hdrop⟩ := spelled_splitPiecesAt byte h
  constructor
  · intro other hmem
    rcases List.mem_append.mp hmem with hmem | hmem
    · exact (hbefore other hmem).within.extend hextend
    · rcases List.mem_cons.mp hmem with rfl | hmem
      · exact hpiece
      · exact (hafter other hmem).within.extend hextend
  · rw [spelled_append, spelled_cons,
      spelled_extend hextend fun other hmem => (hbefore other hmem).within,
      spelled_extend hextend fun other hmem => (hafter other hmem).within, htake, hdrop,
      List.append_assoc]

theorem spelled_deleted (start finish : Nat) :
    (∀ piece ∈ (splitPiecesAt pieces start).1 ++ (splitPiecesAt pieces finish).2,
        piece.Within stores) ∧
      spelled stores ((splitPiecesAt pieces start).1 ++ (splitPiecesAt pieces finish).2) =
        (spelled stores pieces).take start ++ (spelled stores pieces).drop finish := by
  obtain ⟨hbefore, -⟩ := fits_splitPiecesAt start h
  obtain ⟨-, hafter⟩ := fits_splitPiecesAt finish h
  constructor
  · intro piece hmem
    rcases List.mem_append.mp hmem with hmem | hmem
    · exact (hbefore piece hmem).within
    · exact (hafter piece hmem).within
  · rw [spelled_append, (spelled_splitPiecesAt start h).1, (spelled_splitPiecesAt finish h).2]

end Edits

end Space2.LazyTextBuffer
