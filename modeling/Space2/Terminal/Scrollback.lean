import Mathlib
import Space2.Base.Runs

/-!
# The scrollback of a terminal

Lines that leave the screen are pushed, and come back when the screen grows. Lines are stored oldest
first and dropped from the front when there are too many of them or too many bytes. The emulator's
cells are a type of their own, of which the code knows the size.
-/
namespace Space2.Terminal
open Base

variable {C : Type}

/-- The arguments `cols` and `cells` of a callback: nothing, or room for so many cells. -/
structure Row (C : Type) where
  cols : Int
  cells : Option (List C)
  room : ∀ l ∈ cells, l.length = cols.toNat

structure Scrollback (C : Type) where
  scrollback : List (List C)
  scrollbackLineLimit : Nat
  scrollbackByteLimit : Int
  /-- Unsigned in the code; it never falls below zero. -/
  scrollbackBytes : Int
  inAltScreen : Bool

def lineByteCost (sizeofCell : Nat) (line : List C) : Int := line.length * sizeofCell

def totalCost (sizeofCell : Nat) (lines : List (List C)) : Int :=
  (lines.map (lineByteCost sizeofCell)).sum

namespace Scrollback

/-- The loop of `trimScrollback` over the lines that are left and their bytes. -/
def trimLines (sizeofCell : Nat) (lineLimit : Nat) (byteLimit : Int) :
    List (List C) → Int → List (List C) × Int
  | [], bytes => ([], bytes)
  | line :: rest, bytes =>
    if lineLimit < rest.length + 1 ∨ byteLimit < bytes then
      trimLines sizeofCell lineLimit byteLimit rest (bytes - lineByteCost sizeofCell line)
    else (line :: rest, bytes)

def trimScrollback (sizeofCell : Nat) (t : Scrollback C) : Scrollback C :=
  let (lines, bytes) :=
    trimLines sizeofCell t.scrollbackLineLimit t.scrollbackByteLimit t.scrollback t.scrollbackBytes
  { t with scrollback := lines, scrollbackBytes := bytes }

def pushScrollbackLine (sizeofCell : Nat) (t : Scrollback C) (row : Row C) : Scrollback C :=
  match row.cells with
  | none => t
  | some cells =>
    if t.inAltScreen = true ∨ row.cols ≤ 0 then t
    else
      trimScrollback sizeofCell
        { t with
          scrollback := t.scrollback ++ [cells]
          scrollbackBytes := t.scrollbackBytes + lineByteCost sizeofCell cells }

/-- The cells after a pop that returns 1, and nothing for one that returns 0. -/
def popScrollbackLine (sizeofCell : Nat) (t : Scrollback C) (row : Row C) :
    Option (List C) × Scrollback C :=
  match row.cells, t.scrollback.getLast? with
  | some cells, some line =>
    if t.inAltScreen = true ∨ row.cols ≤ 0 then (none, t)
    else
      (some (line.take cells.length ++ cells.drop line.length),
        { t with
          scrollback := t.scrollback.dropLast
          scrollbackBytes := t.scrollbackBytes - lineByteCost sizeofCell line })
  | _, _ => (none, t)

def clearScrollback (t : Scrollback C) : Scrollback C :=
  { t with scrollback := [], scrollbackBytes := 0 }

/-- `VTERM_PROP_ALTSCREEN` -/
def setAltScreen (t : Scrollback C) (value : Bool) : Scrollback C := { t with inAltScreen := value }

def setScrollbackLimit (sizeofCell : Nat) (t : Scrollback C) (lines : Int) : Scrollback C :=
  trimScrollback sizeofCell { t with scrollbackLineLimit := (max 0 lines).toNat }

def start : Scrollback C where
  scrollback := []
  scrollbackLineLimit := 8000
  scrollbackByteLimit := 16 * 1024 * 1024
  scrollbackBytes := 0
  inAltScreen := false

end Scrollback

inductive Action (C : Type) where
  | push (row : Row C)
  | pop (row : Row C)
  | clear
  | altScreen (value : Bool)
  | setLimit (lines : Int)

/-- The scrollback beside the lines pushed and not popped since it was last cleared. -/
structure Tracked (C : Type) where
  terminal : Scrollback C
  unpopped : List (List C)

/-- The line a push stores. -/
def pushed (t : Scrollback C) (row : Row C) : Option (List C) :=
  if t.inAltScreen = true ∨ row.cols ≤ 0 then none else row.cells

def step (sizeofCell : Nat) (s : Tracked C) : Action C → Tracked C
  | .push row =>
    ⟨s.terminal.pushScrollbackLine sizeofCell row, s.unpopped ++ (pushed s.terminal row).toList⟩
  | .pop row =>
    ⟨(s.terminal.popScrollbackLine sizeofCell row).2,
      if (s.terminal.popScrollbackLine sizeofCell row).1.isSome = true then s.unpopped.dropLast
      else s.unpopped⟩
  | .clear => ⟨s.terminal.clearScrollback, []⟩
  | .altScreen value => ⟨s.terminal.setAltScreen value, s.unpopped⟩
  | .setLimit lines => ⟨s.terminal.setScrollbackLimit sizeofCell lines, s.unpopped⟩

def start : Tracked C := ⟨.start, []⟩

/-- The bytes are those of the lines, both limits hold, and the lines are the newest in order. -/
structure Tracked.Sound (sizeofCell : Nat) (s : Tracked C) : Prop where
  bytes : s.terminal.scrollbackBytes = totalCost sizeofCell s.terminal.scrollback
  lines : s.terminal.scrollback.length ≤ s.terminal.scrollbackLineLimit
  budget : s.terminal.scrollbackBytes ≤ s.terminal.scrollbackByteLimit
  budget_nonneg : 0 ≤ s.terminal.scrollbackByteLimit
  newest : s.terminal.scrollback <:+ s.unpopped

/-- A line at the width of a pop. -/
def fitted (blank : C) (line : List C) (width : Nat) : List C :=
  line.take width ++ List.replicate (width - line.length) blank

/-- A pop that succeeds fills the cells with the newest line and blanks. -/
def Filled (sizeofCell : Nat) (blank : C) (s : Tracked C) : Action C → Prop
  | .pop row =>
    ∀ cells ∈ (s.terminal.popScrollbackLine sizeofCell row).1,
      ∃ line ∈ s.terminal.scrollback.getLast?, cells = fitted blank line row.cols.toNat
  | _ => True

/-- What the newest line does not cover of the cells of a pop is blank before it. -/
def Covered (blank : C) (s : Tracked C) : Action C → Prop
  | .pop row =>
    s.terminal.inAltScreen = true ∨ row.cols ≤ 0 ∨
      ∀ cells ∈ row.cells, ∀ line ∈ s.terminal.scrollback.getLast?,
        ∀ c ∈ cells.drop line.length, c = blank
  | _ => True

section Trimming
variable {sizeofCell lineLimit : Nat} {byteLimit bytes : Int} {lines : List (List C)}
  {line : List C}

theorem lineByteCost_nonneg : 0 ≤ lineByteCost sizeofCell line :=
  Int.mul_nonneg (Int.natCast_nonneg _) (Int.natCast_nonneg _)

theorem totalCost_cons :
    totalCost sizeofCell (line :: lines) =
      lineByteCost sizeofCell line + totalCost sizeofCell lines := by
  simp [totalCost]

theorem totalCost_singleton : totalCost sizeofCell [line] = lineByteCost sizeofCell line := by
  simp [totalCost]

theorem totalCost_append (others : List (List C)) :
    totalCost sizeofCell (lines ++ others) =
      totalCost sizeofCell lines + totalCost sizeofCell others := by
  simp [totalCost]

/-- Trimming drops lines from the front until both limits hold, and their bytes with them. -/
theorem trimLines_spec (hbudget : 0 ≤ byteLimit) (h : bytes = totalCost sizeofCell lines) :
    (Scrollback.trimLines sizeofCell lineLimit byteLimit lines bytes).1 <:+ lines ∧
      (Scrollback.trimLines sizeofCell lineLimit byteLimit lines bytes).2 =
        totalCost sizeofCell (Scrollback.trimLines sizeofCell lineLimit byteLimit lines bytes).1 ∧
      (Scrollback.trimLines sizeofCell lineLimit byteLimit lines bytes).1.length ≤ lineLimit ∧
      (Scrollback.trimLines sizeofCell lineLimit byteLimit lines bytes).2 ≤ byteLimit := by
  induction lines generalizing bytes with
  | nil =>
    subst h
    exact ⟨List.suffix_refl _, rfl, Nat.zero_le _, hbudget⟩
  | cons line rest ih =>
    unfold Scrollback.trimLines
    split_ifs with hover
    · have hrest : bytes - lineByteCost sizeofCell line = totalCost sizeofCell rest := by
        rw [h, totalCost_cons]
        omega
      obtain ⟨hsuffix, hbytes, hlines, hbytes'⟩ := ih hrest
      exact ⟨hsuffix.trans (List.suffix_cons line rest), hbytes, hlines, hbytes'⟩
    · obtain ⟨hlines, hbytes⟩ := not_or.mp hover
      exact ⟨List.suffix_refl _, h, Nat.le_of_not_lt hlines, Int.not_lt.mp hbytes⟩

end Trimming

section Callbacks
variable (sizeofCell : Nat) (t : Scrollback C) (row : Row C)

theorem push_cases :
    (pushed t row = none ∧ t.pushScrollbackLine sizeofCell row = t) ∨
      ∃ line, pushed t row = some line ∧ t.pushScrollbackLine sizeofCell row =
        Scrollback.trimScrollback sizeofCell
          { t with
            scrollback := t.scrollback ++ [line]
            scrollbackBytes := t.scrollbackBytes + lineByteCost sizeofCell line } := by
  unfold pushed Scrollback.pushScrollbackLine
  cases row.cells with
  | none => simp
  | some line =>
    by_cases hignored : t.inAltScreen = true ∨ row.cols ≤ 0
    · left
      simp only [if_pos hignored, and_self]
    · right
      refine ⟨line, ?_⟩
      simp only [if_neg hignored, and_self]

/-- A pop returns 0 and does nothing, or it takes the newest line and copies what fits. -/
theorem pop_cases :
    ((t.inAltScreen = true ∨ row.cols ≤ 0 ∨ row.cells = none ∨ t.scrollback.getLast? = none) ∧
      t.popScrollbackLine sizeofCell row = (none, t)) ∨
    ∃ cells line, ¬ (t.inAltScreen = true ∨ row.cols ≤ 0) ∧ row.cells = some cells ∧
      t.scrollback.getLast? = some line ∧ t.popScrollbackLine sizeofCell row =
        (some (line.take cells.length ++ cells.drop line.length),
          { t with
            scrollback := t.scrollback.dropLast
            scrollbackBytes := t.scrollbackBytes - lineByteCost sizeofCell line }) := by
  unfold Scrollback.popScrollbackLine
  cases row.cells with
  | none => simp
  | some cells =>
    cases t.scrollback.getLast? with
    | none => simp
    | some line =>
      by_cases hignored : t.inAltScreen = true ∨ row.cols ≤ 0
      · left
        simp only [if_pos hignored, and_true]
        tauto
      · right
        refine ⟨cells, line, hignored, rfl, rfl, ?_⟩
        simp only [if_neg hignored]

end Callbacks

section Steps
variable {sizeofCell : Nat} {s : Tracked C} {action : Action C} {blank : C}

/-- Trimming the newest lines leaves the newest lines. -/
theorem sound_trimmed (t : Scrollback C) {unpopped : List (List C)}
    (hbudget : 0 ≤ t.scrollbackByteLimit)
    (hbytes : t.scrollbackBytes = totalCost sizeofCell t.scrollback)
    (hnewest : t.scrollback <:+ unpopped) :
    Tracked.Sound sizeofCell ⟨t.trimScrollback sizeofCell, unpopped⟩ := by
  have htrim := @trimLines_spec _ sizeofCell t.scrollbackLineLimit _ _ _ hbudget hbytes
  obtain ⟨hsuffix, hcost, hlines, hbytes'⟩ := htrim
  exact ⟨hcost, hlines, hbytes', hbudget, hsuffix.trans hnewest⟩

theorem Tracked.Sound.push (h : s.Sound sizeofCell) (row : Row C) :
    (step sizeofCell s (.push row)).Sound sizeofCell := by
  unfold step
  rcases push_cases sizeofCell s.terminal row with ⟨hnone, hsame⟩ | ⟨line, hsome, htrimmed⟩
  · simpa only [hnone, hsame, Option.toList_none, List.append_nil] using h
  · simp only [hsome, htrimmed, Option.toList_some]
    refine sound_trimmed
      { s.terminal with
        scrollback := s.terminal.scrollback ++ [line]
        scrollbackBytes := s.terminal.scrollbackBytes + lineByteCost sizeofCell line }
      h.budget_nonneg ?_ (List.suffix_append_self_iff.mpr h.newest)
    rw [totalCost_append, totalCost_singleton, h.bytes]

/-- The newest line goes from the scrollback and from the lines not popped. -/
theorem Tracked.Sound.pop (h : s.Sound sizeofCell) (row : Row C) :
    (step sizeofCell s (.pop row)).Sound sizeofCell := by
  unfold step
  rcases pop_cases sizeofCell s.terminal row with ⟨-, hnone⟩ | ⟨cells, line, -, -, hlast, hsome⟩
  · simpa [hnone] using h
  · simp only [hsome, Option.isSome_some, if_true]
    obtain ⟨older, holder⟩ := List.getLast?_eq_some_iff.mp hlast
    obtain ⟨dropped, hdropped⟩ := h.newest
    have hbytes : s.terminal.scrollbackBytes - lineByteCost sizeofCell line =
        totalCost sizeofCell older := by
      rw [h.bytes, holder, totalCost_append, totalCost_singleton]
      omega
    have hcost : 0 ≤ lineByteCost sizeofCell line := lineByteCost_nonneg
    have hbudget := h.budget
    have hlines := h.lines
    rw [holder, List.length_append] at hlines
    constructor
    · rw [holder, List.dropLast_concat, hbytes]
    · rw [holder, List.dropLast_concat]
      exact Nat.le_trans (Nat.le_add_right _ _) hlines
    · change s.terminal.scrollbackBytes - lineByteCost sizeofCell line ≤
        s.terminal.scrollbackByteLimit
      omega
    · exact h.budget_nonneg
    · refine ⟨dropped, ?_⟩
      rw [← hdropped, holder, List.dropLast_concat, ← List.append_assoc, List.dropLast_concat]

theorem Tracked.Sound.step (h : s.Sound sizeofCell) (action : Action C) :
    (step sizeofCell s action).Sound sizeofCell := by
  cases action with
  | push row => exact h.push row
  | pop row => exact h.pop row
  | clear =>
    exact ⟨rfl, Nat.zero_le _, h.budget_nonneg, h.budget_nonneg, List.suffix_refl _⟩
  | altScreen value => exact ⟨h.bytes, h.lines, h.budget, h.budget_nonneg, h.newest⟩
  | setLimit lines => exact sound_trimmed _ h.budget_nonneg h.bytes h.newest

theorem start_sound : (start : Tracked C).Sound sizeofCell := by
  have hbudget : (0 : Int) ≤ 16 * 1024 * 1024 := by decide
  exact ⟨rfl, Nat.zero_le _, hbudget, hbudget, List.suffix_refl _⟩

/-- The cells past the line are blank after the pop when they were blank before. -/
theorem copied_eq_fitted {cells line : List C} :
    line.take cells.length ++ cells.drop line.length = fitted blank line cells.length ↔
      ∀ c ∈ cells.drop line.length, c = blank := by
  rw [fitted, List.append_cancel_left_eq, List.eq_replicate_iff, List.length_drop]
  exact and_iff_right rfl

/-- A pop fills its cells exactly when the newest line covers them or they were blank. -/
theorem filled_iff_covered : Filled sizeofCell blank s action ↔ Covered blank s action := by
  cases action with
  | pop row =>
    simp only [Filled, Covered]
    rcases pop_cases sizeofCell s.terminal row with
      ⟨hreason, hnone⟩ | ⟨cells, line, hnot, hcells, hlast, hsome⟩
    · rw [hnone]
      refine iff_of_true (fun cells hcells => by cases hcells) ?_
      rcases hreason with halt | hcols | hcells | hlast
      · exact .inl halt
      · exact .inr (.inl hcols)
      · exact .inr (.inr (by simp [hcells]))
      · exact .inr (.inr (by simp [hlast]))
    · have hlength : row.cols.toNat = cells.length := (row.room cells hcells).symm
      simp only [hsome, hcells, hlast, hlength, Option.mem_some_iff, forall_eq', exists_eq_left',
        copied_eq_fitted]
      tauto
  | _ => exact Iff.rfl

end Steps

/-- After every step of every run the bytes are those of the lines, both limits hold and the lines
are the newest in order; and every pop fills its cells exactly when what the newest line does not
cover of them was blank before. -/
theorem scrollback_stack_iff (sizeofCell : Nat) (blank : C) (actions : List (Action C)) :
    Along (step sizeofCell)
        (fun s action => (step sizeofCell s action).Sound sizeofCell ∧
          Filled sizeofCell blank s action) start actions ↔
      Along (step sizeofCell) (Covered blank) start actions := by
  constructor
  · intro h
    exact h.imp (I := fun _ => True) (fun _ _ _ _ => trivial)
      (fun s action _ hs => filled_iff_covered.mp hs.2) trivial
  · intro h
    exact h.imp (I := fun s => s.Sound sizeofCell) (fun s action hs _ => hs.step action)
      (fun s action hs hcovered => ⟨hs.step action, filled_iff_covered.mpr hcovered⟩) start_sound

/-- A line of one cell comes back into two cells, of which the second is not blank. -/
theorem second_cell_stays : ¬ ∀ actions : List (Action Char),
    Along (step 40) (fun s action => (step 40 s action).Sound 40 ∧ Filled 40 ' ' s action)
      start actions := by
  intro hclaim
  have hrun := hclaim [.push ⟨1, some ['a'], by simp⟩, .pop ⟨2, some ['x', 'y'], by simp⟩]
  obtain ⟨line, hline, hcells⟩ := hrun.2.1.2 ['a', 'y'] rfl
  obtain rfl : ['a'] = line := Option.some.inj hline
  exact absurd hcells (by decide)

end Space2.Terminal
