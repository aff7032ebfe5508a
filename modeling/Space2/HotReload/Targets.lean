import Mathlib.Data.List.Induction
import Space2.Base.KeepFirst
import Space2.Base.ParentChain

/-!
# Reload targets

A changed file belongs to the live unit with the longest owned path over it. Changes of
one unit select that unit, changes of several their nearest common ancestor, and a unit
that is not eligible for a narrow reload gives way to the root.
-/
namespace Space2.HotReload

open Space2.Base

abbrev Path := List Char

abbrev ModuleName := String

/-- `handle` is the unit's own table. -/
structure LiveUnit where
  handle : Nat
  id : String
  parentId : Option String
  ownedPaths : List Path
  deriving DecidableEq

structure Change where
  path : Option Path
  action : String
  oldPath : Option Path
  deriving DecidableEq

/-- What the controller was made with; every path is absolute. -/
structure Options where
  unit : LiveUnit
  units : List LiveUnit
  rootUnitId : Option String
  unitId : Option String
  watchPaths : List Path
  narrowReloadUnitIds : List String
  preserveModules : List ModuleName
  windows : Bool

/-! ## Owned paths -/

variable (options : Options)

def pathSeparator (c : Char) : Bool := c = '/' || options.windows && c = '\\'

def pathUnderRoot (path root : Path) : Bool :=
  path.take root.length = root &&
    (path.length = root.length || path[root.length]?.any (pathSeparator options))

def pathUnderAnyRoot (path : Path) (roots : List Path) : Bool := roots.any (pathUnderRoot options path)

def unitOwnedPaths (unit : LiveUnit) : List Path :=
  if unit.ownedPaths = [] then options.watchPaths else unit.ownedPaths

def unitMatchLength (unit : LiveUnit) (path : Path) : Option Nat :=
  (unitOwnedPaths options unit).foldl (fun bestLength root =>
    if pathUnderRoot options path root = true ∧ (∀ best ∈ bestLength, best < root.length) then some root.length
    else bestLength) none

/-! ## Live units -/

def collectLiveUnits : List LiveUnit := keepFirst (fun _ => true) (options.unit :: options.units)

/-- A later unit takes the identifier of an earlier one. -/
def unitById (units : List LiveUnit) (id : String) : Option LiveUnit :=
  units.reverse.find? fun unit => unit.id = id

def findRootUnit (units : List LiveUnit) : LiveUnit :=
  ((options.rootUnitId.bind (unitById units)).or ((options.unitId.bind (unitById units)).or
    ((unitById units "app-root").or units.head?))).getD options.unit

def parentUnit (units : List LiveUnit) (unit : LiveUnit) : Option LiveUnit := unit.parentId.bind (unitById units)

def lineageToRoot (units : List LiveUnit) (fuel : Nat) (unit : LiveUnit) : Option (List LiveUnit) :=
  lineage (parentUnit units) fuel unit

def resolveCommonAncestor (units : List LiveUnit) (root : LiveUnit) (fuel : Nat) (matched : List LiveUnit) :
    Option LiveUnit :=
  (nearestShared (parentUnit units) fuel matched).map fun resolved => resolved.getD root

/-! ## The target -/

def bestMatch (units : List LiveUnit) (path : Path) : Option (LiveUnit × Nat) :=
  units.foldl (fun best unit =>
    match unitMatchLength options unit path with
    | none => best
    | some length => if ∀ pair ∈ best, pair.2 < length then some (unit, length) else best) none

def bestUnit (units : List LiveUnit) (change : Change) : Option LiveUnit :=
  change.path.bind fun path => (bestMatch options units path).map Prod.fst

def matchedUnits (units : List LiveUnit) : List String → List Change → List LiveUnit
  | _, [] => []
  | matchedIds, change :: rest =>
    match bestUnit options units change with
    | none => matchedUnits units matchedIds rest
    | some unit =>
      if unit.id ∈ matchedIds then matchedUnits units matchedIds rest
      else unit :: matchedUnits units (unit.id :: matchedIds) rest

/-- Without a result the search for the common ancestor ran out of fuel. -/
def resolveTargetUnit (units : List LiveUnit) (changes : List Change) (fuel : Nat) : Option LiveUnit :=
  match matchedUnits options units [] changes with
  | [] => some (findRootUnit options units)
  | [unit] => some unit
  | matched => resolveCommonAncestor units (findRootUnit options units) fuel matched

def selectEligibleTargetUnit (candidate root : LiveUnit) : LiveUnit :=
  if candidate = root ∨ candidate.id ∈ options.narrowReloadUnitIds then candidate else root

def targetUnit (changes : List Change) (toRoot : Bool) (fuel : Nat) : Option LiveUnit :=
  let units := collectLiveUnits options
  let root := findRootUnit options units
  if toRoot = true then some root
  else (resolveTargetUnit options units changes fuel).map fun candidate =>
    selectEligibleTargetUnit options candidate root

/-! ## Owners -/

/-- The first of the units with the longest owned path over the file. -/
def Owns (units : List LiveUnit) (change : Change) (unit : LiveUnit) : Prop :=
  ∃ path, change.path = some path ∧ ∃ before after length, units = before ++ unit :: after ∧
    unitMatchLength options unit path = some length ∧
    (∀ other ∈ before, ∀ shorter, unitMatchLength options other path = some shorter → shorter < length) ∧
    ∀ other ∈ after, ∀ shorter, unitMatchLength options other path = some shorter → shorter ≤ length

/-- The unit owns a changed file, and no file changed before belongs to a unit of its identifier. -/
def Matched (units : List LiveUnit) (changes : List Change) (unit : LiveUnit) : Prop :=
  ∃ before change after, changes = before ++ change :: after ∧ Owns options units change unit ∧
    ∀ earlier ∈ before, ∀ other, Owns options units earlier other → other.id ≠ unit.id

/-- The unit that the changes select before eligibility counts. -/
inductive Candidate (units : List LiveUnit) (changes : List Change) (root : LiveUnit) : LiveUnit → Prop
  | unowned : (∀ unit, ¬ Matched options units changes unit) → Candidate units changes root root
  | one {unit : LiveUnit} : Matched options units changes unit →
      (∀ other, Matched options units changes other → other = unit) → Candidate units changes root unit
  | shared {first second unit : LiveUnit} : Matched options units changes first → Matched options units changes second →
      first ≠ second → Nearest (parentUnit units) (Matched options units changes) unit → Candidate units changes root unit
  | unshared {first second : LiveUnit} : Matched options units changes first → Matched options units changes second →
      first ≠ second → (∀ unit, ¬ Shared (parentUnit units) (Matched options units changes) unit) →
      Candidate units changes root root

/-- The chains of parents that the search follows end. -/
def ChainsEnd (units : List LiveUnit) (changes : List Change) : Prop :=
  (∃ first second, Matched options units changes first ∧ Matched options units changes second ∧ first ≠ second) →
  ∀ before change after unit, changes = before ++ change :: after → Owns options units change unit →
    (∀ earlier ∈ before, ∀ other, Owns options units earlier other → other.id ≠ unit.id) →
    (∃ ancestor, Shared (parentUnit units) (Matched options units before) ancestor) → Ends (parentUnit units) unit

variable {options} {units : List LiveUnit} {changes : List Change}

/-! ## Choosing the owner -/

theorem bestMatch_append (before : List LiveUnit) (unit : LiveUnit) (path : Path) :
    bestMatch options (before ++ [unit]) path =
      match unitMatchLength options unit path with
      | none => bestMatch options before path
      | some length => if ∀ pair ∈ bestMatch options before path, pair.2 < length then some (unit, length)
          else bestMatch options before path := by
  rw [bestMatch, List.foldl_append]
  rfl

/-- The scan keeps the first unit with the longest owned path. -/
theorem bestMatch_spec (units : List LiveUnit) (path : Path) :
    (bestMatch options units path = none → ∀ unit ∈ units, unitMatchLength options unit path = none) ∧
    ∀ pair, bestMatch options units path = some pair → ∃ before after,
      units = before ++ pair.1 :: after ∧ unitMatchLength options pair.1 path = some pair.2 ∧
      (∀ other ∈ before, ∀ shorter, unitMatchLength options other path = some shorter → shorter < pair.2) ∧
      ∀ other ∈ after, ∀ shorter, unitMatchLength options other path = some shorter → shorter ≤ pair.2 := by
  induction units using List.reverseRecOn with
  | nil => exact ⟨by simp, by simp [bestMatch]⟩
  | append_singleton front last ih =>
    obtain ⟨hnone, hsome⟩ := ih
    have hkept (pair : LiveUnit × Nat) (hpair : bestMatch options front path = some pair)
        (hlast : ∀ shorter, unitMatchLength options last path = some shorter → shorter ≤ pair.2) : ∃ before after,
          front ++ [last] = before ++ pair.1 :: after ∧ unitMatchLength options pair.1 path = some pair.2 ∧
          (∀ other ∈ before, ∀ shorter, unitMatchLength options other path = some shorter → shorter < pair.2) ∧
          ∀ other ∈ after, ∀ shorter, unitMatchLength options other path = some shorter → shorter ≤ pair.2 := by
      obtain ⟨before, after, rfl, hlength, hbefore, hafter⟩ := hsome pair hpair
      refine ⟨before, after ++ [last], by simp, hlength, hbefore, fun other hother => ?_⟩
      rcases List.mem_append.mp hother with hother | hother
      · exact hafter other hother
      · rw [List.mem_singleton.mp hother]
        exact hlast
    rw [bestMatch_append]
    cases hlast : unitMatchLength options last path with
    | none =>
      refine ⟨fun hbest unit hunit => ?_, fun pair hpair => hkept pair hpair (by simp [hlast])⟩
      rcases List.mem_append.mp hunit with hunit | hunit
      · exact hnone hbest unit hunit
      · rw [List.mem_singleton.mp hunit, hlast]
    | some longer =>
      simp only
      split_ifs with hlonger
      · refine ⟨by simp, fun pair hpair => ?_⟩
        obtain rfl := Option.some.inj hpair
        refine ⟨front, [], by simp, hlast, fun other hother shorter hshorter => ?_, by simp⟩
        cases hbest : bestMatch options front path with
        | none => simp [hnone hbest other hother] at hshorter
        | some pair =>
          obtain ⟨before, after, hfront, hlength, hbefore, hafter⟩ := hsome pair hbest
          have hpair : pair.2 < longer := hlonger pair hbest
          rw [hfront] at hother
          rcases List.mem_append.mp hother with hother | hother
          · have hlt := hbefore other hother shorter hshorter
            omega
          · rcases List.mem_cons.mp hother with rfl | hother
            · obtain rfl := Option.some.inj (hlength.symm.trans hshorter)
              exact hpair
            · have hle := hafter other hother shorter hshorter
              omega
      · refine ⟨fun hbest => absurd (fun pair hpair => ?_) hlonger, fun pair hpair => hkept pair hpair ?_⟩
        · simp [hbest] at hpair
        · intro shorter hshorter
          obtain rfl := Option.some.inj (hlast.symm.trans hshorter)
          by_contra hlt
          refine hlonger fun other hother => ?_
          obtain rfl := Option.some.inj (hpair.symm.trans hother)
          omega

theorem owns_unique {change : Change} {unit other : LiveUnit} (hunit : Owns options units change unit)
    (hother : Owns options units change other) : unit = other := by
  obtain ⟨path, hpath, before, after, length, hsplit, hlength, hbefore, hafter⟩ := hunit
  obtain ⟨path', hpath', before', after', length', hsplit', hlength', hbefore', hafter'⟩ := hother
  obtain rfl := Option.some.inj (hpath.symm.trans hpath')
  rcases List.append_eq_append_iff.mp (hsplit.symm.trans hsplit') with ⟨front, rfl, hrest⟩ | ⟨front, rfl, hrest⟩
  · cases front with
    | nil => exact (List.cons.inj hrest).1
    | cons first front =>
      obtain ⟨rfl, hback⟩ := List.cons.inj hrest
      have hlt := hbefore' unit (by simp) length hlength
      have hle := hafter other (by rw [hback]; simp) length' hlength'
      omega
  · cases front with
    | nil => exact (List.cons.inj hrest).1.symm
    | cons first front =>
      obtain ⟨rfl, hback⟩ := List.cons.inj hrest
      have hlt := hbefore other (by simp) length' hlength'
      have hle := hafter' unit (by rw [hback]; simp) length hlength
      omega

theorem bestUnit_eq_some {change : Change} {unit : LiveUnit} :
    bestUnit options units change = some unit ↔ Owns options units change unit := by
  have howns (unit : LiveUnit) (hbest : bestUnit options units change = some unit) : Owns options units change unit := by
    obtain ⟨path, hpath, hbest⟩ := Option.bind_eq_some_iff.mp hbest
    obtain ⟨pair, hpair, rfl⟩ := Option.map_eq_some_iff.mp hbest
    obtain ⟨before, after, hsplit, hspec⟩ := (bestMatch_spec units path).2 pair hpair
    exact ⟨path, hpath, before, after, pair.2, hsplit, hspec⟩
  constructor
  · exact howns unit
  · intro hunit
    cases hbest : bestUnit options units change with
    | some other => rw [owns_unique hunit (howns other hbest)]
    | none =>
      obtain ⟨path, hpath, before, after, length, hsplit, hlength, -⟩ := hunit
      rw [bestUnit, hpath, Option.bind_some, Option.map_eq_none_iff] at hbest
      have hnone := (bestMatch_spec units path).1 hbest unit (by rw [hsplit]; simp)
      simp [hnone] at hlength

/-! ## The matched units -/

theorem matchedUnits_cons (ids : List String) (change : Change) (rest : List Change) :
    matchedUnits options units ids (change :: rest) =
      match bestUnit options units change with
      | none => matchedUnits options units ids rest
      | some unit =>
        if unit.id ∈ ids then matchedUnits options units ids rest
        else unit :: matchedUnits options units (unit.id :: ids) rest := by
  rw [matchedUnits]

theorem matched_cons {change : Change} {rest : List Change} {unit : LiveUnit} :
    Matched options units (change :: rest) unit ↔ Owns options units change unit ∨
      (∀ other, Owns options units change other → other.id ≠ unit.id) ∧ Matched options units rest unit := by
  constructor
  · rintro ⟨before, owned, after, hsplit, howns, hfresh⟩
    cases before with
    | nil =>
      obtain ⟨rfl, -⟩ := List.cons.inj hsplit
      exact .inl howns
    | cons first before =>
      obtain ⟨rfl, rfl⟩ := List.cons.inj hsplit
      exact .inr ⟨hfresh change List.mem_cons_self, before, owned, after, rfl, howns,
        fun earlier hearlier => hfresh earlier (List.mem_cons_of_mem change hearlier)⟩
  · rintro (howns | ⟨hfirst, before, owned, after, rfl, howns, hfresh⟩)
    · exact ⟨[], change, rest, rfl, howns, by simp⟩
    · refine ⟨change :: before, owned, after, rfl, howns, fun earlier hearlier => ?_⟩
      rcases List.mem_cons.mp hearlier with rfl | hearlier
      · exact hfirst
      · exact hfresh earlier hearlier

theorem not_matched_nil (unit : LiveUnit) : ¬ Matched options units [] unit := by
  rintro ⟨before, change, after, hsplit, -⟩
  simp at hsplit

theorem mem_matchedUnits_from {ids : List String} {unit : LiveUnit} :
    unit ∈ matchedUnits options units ids changes ↔ unit.id ∉ ids ∧ Matched options units changes unit := by
  induction changes generalizing ids with
  | nil => simp [matchedUnits, not_matched_nil]
  | cons change rest ih =>
    rw [matchedUnits_cons, matched_cons]
    cases hbest : bestUnit options units change with
    | none =>
      have hnone (other : LiveUnit) : ¬ Owns options units change other := fun h => by
        simp [bestUnit_eq_some.mpr h] at hbest
      simp [ih, hnone]
    | some owner =>
      have howner (other : LiveUnit) : Owns options units change other ↔ other = owner := by
        rw [← bestUnit_eq_some, hbest, Option.some.injEq, eq_comm]
      simp only [howner, forall_eq]
      split_ifs with hseen
      · rw [ih]
        constructor
        · rintro ⟨hid, hmatched⟩
          exact ⟨hid, .inr ⟨fun heq => hid (heq ▸ hseen), hmatched⟩⟩
        · rintro ⟨hid, rfl | ⟨-, hmatched⟩⟩
          · exact absurd hseen hid
          · exact ⟨hid, hmatched⟩
      · rw [List.mem_cons, ih, List.mem_cons, not_or]
        constructor
        · rintro (rfl | ⟨⟨hne, hid⟩, hmatched⟩)
          · exact ⟨hseen, .inl rfl⟩
          · exact ⟨hid, .inr ⟨fun heq => hne heq.symm, hmatched⟩⟩
        · rintro ⟨hid, rfl | ⟨hne, hmatched⟩⟩
          · exact .inl rfl
          · exact .inr ⟨⟨fun heq => hne heq.symm, hid⟩, hmatched⟩

theorem mem_matchedUnits {unit : LiveUnit} :
    unit ∈ matchedUnits options units [] changes ↔ Matched options units changes unit := by
  simp [mem_matchedUnits_from]

theorem matched_family (options : Options) (units : List LiveUnit) (changes : List Change) :
    (fun unit => unit ∈ matchedUnits options units [] changes) = Matched options units changes :=
  funext fun _ => propext mem_matchedUnits

/-- Every matched unit comes from one change whose owner is new there. -/
theorem matchedUnits_split {ids : List String} {before after : List LiveUnit} {unit : LiveUnit}
    (hsplit : matchedUnits options units ids changes = before ++ unit :: after) :
    ∃ front change back, changes = front ++ change :: back ∧ matchedUnits options units ids front = before ∧
      Owns options units change unit ∧
      ∀ earlier ∈ front, ∀ other, Owns options units earlier other → other.id ≠ unit.id := by
  induction changes generalizing ids before with
  | nil => simp [matchedUnits] at hsplit
  | cons change rest ih =>
    have hmem : unit ∈ matchedUnits options units ids (change :: rest) := by
      rw [hsplit]
      simp
    have hnew := (mem_matchedUnits_from.mp hmem).1
    have hcons (front : List Change) (hfront : ∀ earlier ∈ front, ∀ other, Owns options units earlier other →
        other.id ≠ unit.id) (hchange : ∀ other, Owns options units change other → other.id ≠ unit.id) :
        ∀ earlier ∈ change :: front, ∀ other, Owns options units earlier other → other.id ≠ unit.id := by
      intro earlier hearlier
      rcases List.mem_cons.mp hearlier with rfl | hearlier
      · exact hchange
      · exact hfront earlier hearlier
    rw [matchedUnits_cons] at hsplit
    cases hbest : bestUnit options units change with
    | none =>
      simp only [hbest] at hsplit
      obtain ⟨front, owned, back, rfl, hfront, howns, hfresh⟩ := ih hsplit
      refine ⟨change :: front, owned, back, rfl, by simp [matchedUnits_cons, hbest, hfront], howns, ?_⟩
      exact hcons front hfresh fun other hother => by simp [bestUnit_eq_some.mpr hother] at hbest
    | some owner =>
      have howner (other : LiveUnit) (hother : Owns options units change other) : other = owner :=
        owns_unique hother (bestUnit_eq_some.mp hbest)
      simp only [hbest] at hsplit
      split_ifs at hsplit with hseen
      · obtain ⟨front, owned, back, rfl, hfront, howns, hfresh⟩ := ih hsplit
        refine ⟨change :: front, owned, back, rfl, by simp [matchedUnits_cons, hbest, hseen, hfront], howns, ?_⟩
        refine hcons front hfresh fun other hother heq => ?_
        rw [howner other hother] at heq
        exact hnew (heq ▸ hseen)
      · cases before with
        | nil =>
          obtain ⟨rfl, -⟩ := List.cons.inj hsplit
          exact ⟨[], change, rest, rfl, rfl, bestUnit_eq_some.mp hbest, by simp⟩
        | cons first before =>
          obtain ⟨rfl, hrest⟩ := List.cons.inj hsplit
          obtain ⟨front, owned, back, rfl, hfront, howns, hfresh⟩ := ih hrest
          refine ⟨change :: front, owned, back, rfl, by simp [matchedUnits_cons, hbest, hseen, hfront], howns, ?_⟩
          have hlater : unit ∈ matchedUnits options units (owner.id :: ids) (front ++ owned :: back) := by
            rw [hrest]
            simp
          have hne := (mem_matchedUnits_from.mp hlater).1
          refine hcons front hfresh fun other hother heq => hne ?_
          rw [howner other hother] at heq
          rw [← heq]
          exact List.mem_cons_self

theorem matchedUnits_append (options : Options) (units : List LiveUnit) (ids : List String) (front back : List Change) :
    ∃ seen, matchedUnits options units ids (front ++ back) =
      matchedUnits options units ids front ++ matchedUnits options units seen back := by
  induction front generalizing ids with
  | nil => exact ⟨ids, rfl⟩
  | cons change rest ih =>
    rw [List.cons_append, matchedUnits_cons, matchedUnits_cons]
    cases hbest : bestUnit options units change with
    | none => exact ih ids
    | some owner =>
      simp only
      split_ifs
      · exact ih ids
      · obtain ⟨seen, hseen⟩ := ih (owner.id :: ids)
        exact ⟨seen, by rw [hseen, List.cons_append]⟩

/-- A change with a new owner adds the owner after those of the changes before it. -/
theorem matchedUnits_of_split {front : List Change} (back : List Change) {change : Change} {unit : LiveUnit}
    (howns : Owns options units change unit)
    (hfresh : ∀ earlier ∈ front, ∀ other, Owns options units earlier other → other.id ≠ unit.id) :
    ∃ after, matchedUnits options units [] (front ++ change :: back) =
      matchedUnits options units [] front ++ unit :: after := by
  have hone : ∃ seen, matchedUnits options units [] (front ++ [change]) =
      matchedUnits options units [] front ++ matchedUnits options units seen [change] :=
    matchedUnits_append options units [] front [change]
  obtain ⟨seen, hseen⟩ := hone
  have hmatched : Matched options units (front ++ [change]) unit := ⟨front, change, [], rfl, howns, hfresh⟩
  have hnot : unit ∉ matchedUnits options units [] front := by
    rw [mem_matchedUnits]
    rintro ⟨before, owned, after, rfl, hold, -⟩
    exact hfresh owned (by simp) unit hold rfl
  have hmem := mem_matchedUnits.mpr hmatched
  rw [hseen] at hmem
  have hadded : matchedUnits options units seen [change] = [unit] := by
    have hlast := (List.mem_append.mp hmem).resolve_left hnot
    rw [matchedUnits_cons, bestUnit_eq_some.mpr howns] at hlast ⊢
    simp only [matchedUnits] at hlast ⊢
    split_ifs at hlast ⊢ with hold
    · simp at hlast
    · rfl
  obtain ⟨more, hmore⟩ := matchedUnits_append options units [] (front ++ [change]) back
  refine ⟨matchedUnits options units more back, ?_⟩
  have hsplit : front ++ change :: back = front ++ [change] ++ back := by simp
  rw [hsplit, hmore, hseen, hadded, List.append_assoc, List.singleton_append]

theorem matchedUnits_ids (options : Options) (units : List LiveUnit) (changes : List Change) (ids : List String) :
    (matchedUnits options units ids changes).Pairwise fun first second => first.id ≠ second.id := by
  induction changes generalizing ids with
  | nil => exact List.Pairwise.nil
  | cons change rest ih =>
    rw [matchedUnits_cons]
    cases bestUnit options units change with
    | none => exact ih ids
    | some owner =>
      simp only
      split_ifs
      · exact ih ids
      · refine List.pairwise_cons.mpr ⟨fun other hother heq => ?_, ih _⟩
        exact (mem_matchedUnits_from.mp hother).1 (by rw [heq]; exact List.mem_cons_self)

/-! ## The selected unit -/

theorem settles_iff (options : Options) (units : List LiveUnit) (changes : List Change) :
    (∀ front change back unit, changes = front ++ change :: back → Owns options units change unit →
      (∀ earlier ∈ front, ∀ other, Owns options units earlier other → other.id ≠ unit.id) →
      (∃ ancestor, Shared (parentUnit units) (Matched options units front) ancestor) → Ends (parentUnit units) unit) ↔
    Settles (parentUnit units) (matchedUnits options units [] changes) := by
  constructor
  · rintro hends before unit after hsplit hshared
    obtain ⟨front, change, back, hchanges, rfl, howns, hfresh⟩ := matchedUnits_split hsplit
    rw [matched_family] at hshared
    exact hends front change back unit hchanges howns hfresh hshared
  · rintro hsettles front change back unit rfl howns hfresh hshared
    obtain ⟨after, hsplit⟩ := matchedUnits_of_split back howns hfresh
    rw [← matched_family] at hshared
    exact hsettles _ unit after hsplit hshared

/-- Selecting a unit ends exactly when the chains of parents it follows end. -/
theorem resolveTargetUnit_isSome_iff :
    (∃ fuel, (resolveTargetUnit options units changes fuel).isSome = true) ↔ ChainsEnd options units changes := by
  have hids := matchedUnits_ids options units changes []
  have hsettles := settles_iff options units changes
  rw [ChainsEnd, ← matched_family]
  rcases hmatched : matchedUnits options units [] changes with - | ⟨first, - | ⟨second, rest⟩⟩
  · simp [resolveTargetUnit, hmatched]
  · simp only [resolveTargetUnit, hmatched, Option.isSome_some, exists_const, true_iff]
    rintro ⟨one, other, hone, hother, hne⟩
    rw [List.mem_singleton.mp hone, List.mem_singleton.mp hother] at hne
    exact absurd rfl hne
  · rw [hmatched] at hids hsettles
    have hne : first ≠ second := fun heq => (List.pairwise_cons.mp hids).1 second (by simp) (by rw [heq])
    have htwo : ∃ one other, one ∈ first :: second :: rest ∧ other ∈ first :: second :: rest ∧ one ≠ other :=
      ⟨first, second, by simp, by simp, hne⟩
    simp only [resolveTargetUnit, hmatched, resolveCommonAncestor, Option.isSome_map, nearestShared_isSome_iff]
    rw [← hsettles]
    simp only [htwo, forall_const]

theorem candidate_of_resolveTargetUnit {fuel : Nat} {unit : LiveUnit}
    (hunit : resolveTargetUnit options units changes fuel = some unit) :
    Candidate options units changes (findRootUnit options units) unit := by
  have hids := matchedUnits_ids options units changes []
  have hmem (unit : LiveUnit) : unit ∈ matchedUnits options units [] changes ↔ Matched options units changes unit :=
    mem_matchedUnits
  have hfamily := matched_family options units changes
  rcases hmatched : matchedUnits options units [] changes with - | ⟨first, - | ⟨second, rest⟩⟩ <;>
    simp only [hmatched] at hmem hids hfamily <;> simp only [resolveTargetUnit, hmatched] at hunit
  · rw [← Option.some.inj hunit]
    exact .unowned fun unit hunit => by simpa using (hmem unit).mpr hunit
  · rw [← Option.some.inj hunit]
    exact .one ((hmem first).mp (by simp)) fun other hother => by simpa using (hmem other).mpr hother
  · have hne : first ≠ second := fun heq => (List.pairwise_cons.mp hids).1 second (by simp) (by rw [heq])
    have hfirst := (hmem first).mp (by simp)
    have hsecond := (hmem second).mp (by simp)
    obtain ⟨resolved, hresolved, rfl⟩ := Option.map_eq_some_iff.mp hunit
    cases resolved with
    | some ancestor =>
      have hnearest := nearest_of_nearestShared hresolved
      rw [hfamily] at hnearest
      exact .shared hfirst hsecond hne hnearest
    | none =>
      refine .unshared hfirst hsecond hne fun ancestor => ?_
      rw [← hfamily]
      exact not_shared_of_nearestShared (by simp) hresolved

/-- The changes select no other unit. -/
theorem Candidate.unique {fuel : Nat} {unit other : LiveUnit}
    (hunit : resolveTargetUnit options units changes fuel = some unit)
    (hother : Candidate options units changes (findRootUnit options units) other) : other = unit := by
  have hends : ChainsEnd options units changes := resolveTargetUnit_isSome_iff.mp ⟨fuel, by rw [hunit]; rfl⟩
  have hcandidate := candidate_of_resolveTargetUnit hunit
  have hnearest (first second : LiveUnit) (hfirst : Matched options units changes first)
      (hsecond : Matched options units changes second) (hne : first ≠ second) {ancestor : LiveUnit}
      (hancestor : Nearest (parentUnit units) (Matched options units changes) ancestor) :
      Ends (parentUnit units) ancestor := by
    have hsettles := (settles_iff options units changes).mp (hends ⟨first, second, hfirst, hsecond, hne⟩)
    obtain ⟨member, rest, hmembers⟩ := List.exists_cons_of_ne_nil
      (List.ne_nil_of_mem (mem_matchedUnits.mpr hfirst))
    have hmember : Ends (parentUnit units) member := hsettles [] member rest hmembers ⟨member, by simp [Shared]⟩
    have hmatched : Matched options units changes member := mem_matchedUnits.mp (by rw [hmembers]; simp)
    exact hmember.of_above (hancestor.1 member hmatched)
  cases hcandidate with
  | unowned hnone =>
    cases hother with
    | unowned => rfl
    | one hmatched => exact absurd hmatched (hnone _)
    | shared hfirst => exact absurd hfirst (hnone _)
    | unshared hfirst => exact absurd hfirst (hnone _)
  | one hmatched honly =>
    cases hother with
    | unowned hnone => exact absurd hmatched (hnone _)
    | one hsame => exact honly _ hsame
    | shared hfirst hsecond hne => exact absurd ((honly _ hfirst).trans (honly _ hsecond).symm) hne
    | unshared hfirst hsecond hne => exact absurd ((honly _ hfirst).trans (honly _ hsecond).symm) hne
  | shared hfirst hsecond hne hancestor =>
    cases hother with
    | unowned hnone => exact absurd hfirst (hnone _)
    | one hmatched honly => exact absurd ((honly _ hfirst).trans (honly _ hsecond).symm) hne
    | shared hthird hfourth hne' hancestor' => exact hancestor'.unique hancestor (hnearest _ _ hthird hfourth hne' hancestor')
    | unshared hthird hfourth hne' hnone => exact absurd hancestor.1 (hnone _)
  | unshared hfirst hsecond hne hnone =>
    cases hother with
    | unowned hnone => rfl
    | one hmatched honly => exact absurd ((honly _ hfirst).trans (honly _ hsecond).symm) hne
    | shared hthird hfourth hne' hancestor => exact absurd hancestor.1 (hnone _)
    | unshared => rfl

end Space2.HotReload
