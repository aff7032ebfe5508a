import Mathlib.Data.List.Nodup
import Space2.Base.Runs
import Space2.Touch.Router

/-!
# What the touch router sends is in order

The log is read by an acceptor that knows what is held: the button, a drag, a gesture. One
invariant relates it to the fields of the router, and every event keeps the invariant.
-/
namespace Space2.Touch
open Base

variable {P K C T : Type}

/-- What those who listen hold: the mouse button, a drag of a target, a gesture. -/
structure Held (T : Type) where
  mouse : Bool
  drag : Option T
  gesture : Bool
deriving DecidableEq, Repr

def Held.nothing : Held T := ⟨false, none, false⟩

def Held.button : Held T := ⟨true, none, false⟩

def Held.dragging (target : T) : Held T := ⟨false, some target, false⟩

def Held.gesturing : Held T := ⟨false, none, true⟩

/-- How an output changes what is held. An output is refused where it does not belong: a press or a
gesture while something is held, a release of a button that is up, a drag or its end for a target
that is not the one dragged, a second drag. -/
def track [DecidableEq T] (held : Held T) : Output P T → Option (Held T)
  | .mouseDown _ => if held = .nothing then some .button else none
  | .mouseMotion _ => if held = .button then some held else none
  | .mouseUp _ _ _ => if held.mouse = true then some { held with mouse := false } else none
  | .dragStart target _ accepted =>
    if held.drag = none ∧ held.gesture = false then
      some (if accepted = true then { held with drag := some target } else held)
    else none
  | .drag target _ => if held = .dragging target then some held else none
  | .dragEnd target _ _ => if held = .dragging target then some .nothing else none
  | .multitouchStart accepted =>
    if held = .nothing then some { held with gesture := accepted } else none
  | .multitouchMotion => if held = .gesturing then some held else none
  | .multitouchEnd _ => if held = .gesturing then some .nothing else none
  | .candidateStart .. | .candidateEnd .. | .candidateCancel .. => some held

/-- Every output of the log belongs where it stands, and together they leave this held. -/
def Leaves [DecidableEq T] (log : List (Output P T)) (held : Held T) : Prop :=
  log.foldlM track Held.nothing = some held

theorem Leaves.append [DecidableEq T] {log : List (Output P T)} {held held' : Held T}
    {output : Output P T} (h : Leaves log held) (houtput : track held output = some held') :
    Leaves (log ++ [output]) held' := by
  unfold Leaves at h ⊢
  rw [List.foldlM_append, h]
  simpa using houtput

namespace Router

/-- What the router takes for held. -/
def held (r : Router P K C T) : Held T := ⟨r.mouseActive, r.captured, r.multitouchActive⟩

/-- The fields that sending leaves. -/
structure Kept (r r' : Router P K C T) : Prop where
  contacts : r'.contacts = r.contacts
  primary : r'.primary = r.primary
  blocked : r'.blockedMultitouch = r.blockedMultitouch

theorem Kept.refl (r : Router P K C T) : Kept r r := ⟨rfl, rfl, rfl⟩

theorem Kept.trans {r r' r'' : Router P K C T} (h : Kept r r') (h' : Kept r' r'') : Kept r r'' :=
  ⟨h'.contacts.trans h.contacts, h'.primary.trans h.primary, h'.blocked.trans h.blocked⟩

/-- Nothing is held and no press is put off. -/
def Resting (r : Router P K C T) : Prop := r.held = .nothing ∧ r.mouseDeferred = false

/-- The single touch holds something or has put a press off. -/
def Engaged (r : Router P K C T) : Prop :=
  r.mouseActive = true ∨ r.mouseDeferred = true ∨ r.captured.isSome = true

/-- The three exclude each other. -/
structure Single (r : Router P K C T) : Prop where
  mouse : r.mouseActive = true → r.mouseDeferred = false ∧ r.captured = none
  deferred : r.mouseDeferred = true → r.captured = none

theorem Resting.not_engaged {r : Router P K C T} (h : Resting r) : ¬ Engaged r := by
  obtain ⟨hheld, hdeferred⟩ := h
  have hmouse : r.mouseActive = false := congrArg Held.mouse hheld
  have hcaptured : r.captured = none := congrArg Held.drag hheld
  simp [Engaged, hmouse, hdeferred, hcaptured]

theorem Single.of_not_engaged {r : Router P K C T} (h : ¬ Engaged r) : Single r :=
  ⟨fun hmouse => absurd (.inl hmouse) h, fun hdeferred => absurd (.inr (.inl hdeferred)) h⟩

theorem resting_of_not_engaged {r : Router P K C T} (h : ¬ Engaged r)
    (hgesture : r.multitouchActive = false) : Resting r := by
  simp only [Engaged, not_or, Bool.not_eq_true, Option.isSome_eq_false_iff,
    Option.isNone_iff_eq_none] at h
  obtain ⟨hmouse, hdeferred, hcaptured⟩ := h
  exact ⟨by simp [held, Held.nothing, hmouse, hcaptured, hgesture], hdeferred⟩

/-- Without a gesture the one who is dragged is all that is held. -/
theorem held_of_captured {r : Router P K C T} {target : T} (hsingle : Single r)
    (hgesture : r.multitouchActive = false) (hcaptured : r.captured = some target) :
    r.held = .dragging target := by
  have hmouse : r.mouseActive = false := by
    cases hactive : r.mouseActive with
    | false => rfl
    | true =>
      have hnone := (hsingle.mouse hactive).2
      rw [hcaptured] at hnone
      cases hnone
  simp [held, Held.dragging, hmouse, hcaptured, hgesture]

theorem stopMultitouch_spec [DecidableEq T] {r : Router P K C T} (h : Leaves r.log r.held)
    (hrest : r.multitouchActive = true → ¬ Engaged r)
    (canceled : Bool) :
    Leaves (r.stopMultitouch canceled).log (r.stopMultitouch canceled).held ∧
      Kept r (r.stopMultitouch canceled) ∧
      (r.stopMultitouch canceled).multitouchActive = false ∧
      (Engaged (r.stopMultitouch canceled) ↔ Engaged r) ∧
      (Single r → Single (r.stopMultitouch canceled)) := by
  unfold stopMultitouch
  split_ifs with hactive
  · have hrest := hrest hactive
    simp only [Engaged, not_or, Bool.not_eq_true, Option.isSome_eq_false_iff,
      Option.isNone_iff_eq_none] at hrest
    obtain ⟨hmouse, hdeferred, hcaptured⟩ := hrest
    have hheld : r.held = .gesturing := by
      simp [Router.held, Held.gesturing, hmouse, hcaptured, hactive]
    have hstopped : (⟨r.mouseActive, r.captured, false⟩ : Held T) = .nothing := by
      simp [Held.nothing, hmouse, hcaptured]
    have hended : track r.held (.multitouchEnd canceled : Output P T) =
        some ⟨r.mouseActive, r.captured, false⟩ := by
      rw [hheld, hstopped, track, if_pos rfl]
    exact ⟨h.append hended, ⟨rfl, rfl, rfl⟩, rfl, Iff.rfl,
      fun hsingle => ⟨hsingle.mouse, hsingle.deferred⟩⟩
  · exact ⟨h, .refl r, by simpa using hactive, Iff.rfl, id⟩

section Sending
variable [DecidableEq K] [DecidableEq T] (env : Env P K C T) {r : Router P K C T}

theorem notifyCandidate_spec {held : Held T} (h : Leaves r.log held)
    (output : T → P → Output P T)
    (hsilent : ∀ target payload, track held (output target payload) = some held)
    (payload : Option P) (contact : Option C) :
    Leaves (r.notifyCandidate env output payload contact).log held ∧
      Kept r (r.notifyCandidate env output payload contact) ∧
      (r.notifyCandidate env output payload contact).held = r.held ∧
      (r.notifyCandidate env output payload contact).mouseDeferred = r.mouseDeferred := by
  unfold notifyCandidate
  cases r.dragCandidate with
  | none => exact ⟨h, .refl r, rfl, rfl⟩
  | some target => exact ⟨h.append (hsilent _ _), ⟨rfl, rfl, rfl⟩, rfl, rfl⟩

theorem releaseMouse_spec {held : Held T} (h : Leaves r.log held)
    (hmouse : held.mouse = r.mouseActive) (payload : Option P) (suppressClick canceled : Bool)
    (contact : Option C) :
    Leaves (r.releaseMouse env payload suppressClick canceled contact).log
        { held with mouse := false } ∧
      Kept r (r.releaseMouse env payload suppressClick canceled contact) ∧
      (r.releaseMouse env payload suppressClick canceled contact).held =
        { r.held with mouse := false } ∧
      (r.releaseMouse env payload suppressClick canceled contact).mouseDeferred =
        r.mouseDeferred := by
  unfold releaseMouse
  split_ifs with hactive
  · exact ⟨h.append (if_pos (hmouse.trans hactive)), ⟨rfl, rfl, rfl⟩, rfl, rfl⟩
  · simp only [Bool.not_eq_true] at hactive
    have hup : ({ held with mouse := false } : Held T) = held := by
      rw [← hactive, ← hmouse]
    refine ⟨by rwa [hup], .refl r, ?_, rfl⟩
    simp [Router.held, hactive]

theorem finishCaptured_spec (h : Leaves r.log r.held) (hsingle : Single r)
    (hgesture : r.multitouchActive = false) (payload : Option P) (canceled : Bool)
    (contact : Option C) :
    Leaves (r.finishCaptured env payload canceled contact).log { r.held with drag := none } ∧
      Kept r (r.finishCaptured env payload canceled contact) ∧
      (r.finishCaptured env payload canceled contact).held = { r.held with drag := none } ∧
      (r.finishCaptured env payload canceled contact).mouseDeferred = r.mouseDeferred := by
  unfold finishCaptured
  cases hcaptured : r.captured with
  | none =>
    have hdrag : ({ r.held with drag := none } : Held T) = r.held := by
      rw [← hcaptured]
      rfl
    exact ⟨by rwa [hdrag], .refl r, hdrag.symm, rfl⟩
  | some target =>
    have hheld := held_of_captured hsingle hgesture hcaptured
    refine ⟨h.append ?_, ⟨rfl, rfl, rfl⟩, rfl, rfl⟩
    rw [hheld]
    exact if_pos rfl

theorem cancelSingle_spec (h : Leaves r.log r.held) (hsingle : Single r)
    (hgesture : r.multitouchActive = false) (payload : Option P) :
    Leaves (r.cancelSingle env payload).log Held.nothing ∧ Kept r (r.cancelSingle env payload) ∧
      Resting (r.cancelSingle env payload) := by
  obtain ⟨hfinish, hkept, hheld, -⟩ :=
    finishCaptured_spec env h hsingle hgesture payload true none
  obtain ⟨hnotify, hkept', hheld', -⟩ :=
    notifyCandidate_spec env hfinish .candidateCancel
      (fun _ _ => rfl) payload none
  obtain ⟨hrelease, hkept'', hheld'', -⟩ :=
    releaseMouse_spec env hnotify (congrArg Held.mouse (hheld'.trans hheld)).symm payload
      true true none
  have hnothing : ({ mouse := false, drag := none, gesture := r.held.gesture } : Held T) =
      .nothing := by simp [Router.held, Held.nothing, hgesture]
  refine ⟨hnothing ▸ hrelease, (hkept.trans hkept').trans ⟨hkept''.contacts, hkept''.primary,
    hkept''.blocked⟩, ?_, rfl⟩
  exact hheld''.trans (by rw [hheld', hheld]; exact hnothing)

end Sending

section Contacts

def keys (r : Router P K C T) : List K := r.contacts.map Prod.fst

theorem count_eq (r : Router P K C T) : r.count = r.keys.length := by
  simp [count, keys]

variable [DecidableEq K] (env : Env P K C T) {r : Router P K C T}

theorem contact_eq_none {key : K} : r.contact key = none ↔ key ∉ r.keys := by
  simp only [contact, List.lookup_eq_none_iff, keys, List.mem_map, not_exists, not_and]
  constructor
  · intro h entry hentry hkey
    exact absurd hkey.symm (by simpa using h entry hentry)
  · intro h entry hentry
    simpa using fun hkey : key = entry.1 => h entry hentry hkey.symm

theorem keys_setContact (payload : P) :
    (r.setContact env payload).keys =
      if env.key payload ∈ r.keys then r.keys else r.keys ++ [env.key payload] := by
  cases hcontact : r.contact (env.key payload) with
  | none =>
    rw [if_neg (contact_eq_none.mp hcontact)]
    simp [setContact, hcontact, keys]
  | some existing =>
    have hmem : env.key payload ∈ r.keys := by
      by_contra habsent
      rw [contact_eq_none.mpr habsent] at hcontact
      cases hcontact
    rw [if_pos hmem]
    simp only [setContact, hcontact, keys, List.map_map]
    refine List.map_congr_left fun entry _ => ?_
    simp only [Function.comp_apply]
    split_ifs with hkey
    · exact hkey.symm
    · rfl

theorem keys_lift (payload : P) :
    (r.lift env payload).2.keys = r.keys.filter (· ≠ env.key payload) := by
  cases hcontact : r.contact (env.key payload) with
  | none =>
    have habsent := contact_eq_none.mp hcontact
    simp only [lift, hcontact]
    refine (List.filter_eq_self.mpr fun key hkey => ?_).symm
    simpa using fun heq : key = env.key payload => habsent (heq ▸ hkey)
  | some existing => simp [lift, hcontact, keys, List.filter_map, Function.comp_def]

theorem mem_keys_setContact (payload : P) :
    env.key payload ∈ (r.setContact env payload).keys := by
  rw [keys_setContact]
  split_ifs with hmem
  · exact hmem
  · simp

theorem keys_subset_setContact (payload : P) : r.keys ⊆ (r.setContact env payload).keys := by
  rw [keys_setContact]
  split_ifs
  · exact List.Subset.refl _
  · exact List.subset_append_left _ _

theorem length_keys_setContact (payload : P) :
    r.keys.length ≤ (r.setContact env payload).keys.length := by
  rw [keys_setContact]
  split_ifs
  · exact Nat.le_refl _
  · simp

/-- A contact that is set leaves everything else. -/
theorem setContact_frame (payload : P) :
    r.setContact env payload = { r with contacts := (r.setContact env payload).contacts } := by
  cases hcontact : r.contact (env.key payload) with
  | none => simp only [setContact, hcontact]
  | some existing => simp only [setContact, hcontact]

theorem lift_frame (payload : P) :
    (r.lift env payload).2 = { r with contacts := (r.lift env payload).2.contacts } := by
  cases hcontact : r.contact (env.key payload) with
  | none => simp only [lift, hcontact]
  | some existing => simp only [lift, hcontact]

end Contacts

section Invariant
variable [DecidableEq T]

/-- What the contacts have no part in. -/
structure Ordered (r : Router P K C T) : Prop where
  leaves : Leaves r.log r.held
  distinct : r.keys.Nodup
  single : Single r
  engaged : Engaged r → r.blockedMultitouch = false ∧ r.multitouchActive = false
  gesture : r.multitouchActive = true → r.blockedMultitouch = false

/-- What holds of the router between two events. -/
structure Sound (r : Router P K C T) : Prop extends Ordered r where
  /-- a touch that holds something is down -/
  down : Engaged r → ∃ key, r.primary = some key ∧ key ∈ r.keys
  /-- a block ends with the last contact -/
  blocked : r.blockedMultitouch = true → r.keys ≠ []
  /-- a gesture has two contacts -/
  two : r.multitouchActive = true → r.keys.length = 2

theorem sound_idle : Sound (idle : Router P K C T) where
  leaves := rfl
  distinct := List.nodup_nil
  single := ⟨by simp [idle], by simp [idle]⟩
  engaged := by simp [Engaged, idle]
  gesture := by simp [idle]
  down := by simp [Engaged, idle]
  blocked := by simp [idle]
  two := by simp [idle]

theorem Ordered.not_engaged_of_gesture {r : Router P K C T} (h : Ordered r)
    (hgesture : r.multitouchActive = true) : ¬ Engaged r := by
  intro hengaged
  have hfalse := (h.engaged hengaged).2
  rw [hgesture] at hfalse
  cases hfalse

theorem Ordered.not_engaged_of_blocked {r : Router P K C T} (h : Ordered r)
    (hblocked : r.blockedMultitouch = true) : ¬ Engaged r := by
  intro hengaged
  have hfalse := (h.engaged hengaged).1
  rw [hblocked] at hfalse
  cases hfalse

theorem Ordered.held_of_gesture {r : Router P K C T} (h : Ordered r)
    (hgesture : r.multitouchActive = true) : r.held = .gesturing := by
  have hrest := h.not_engaged_of_gesture hgesture
  simp only [Engaged, not_or, Bool.not_eq_true, Option.isSome_eq_false_iff,
    Option.isNone_iff_eq_none] at hrest
  simp [held, Held.gesturing, hgesture, hrest]

/-- A router at rest and without a gesture is sound when its block stands for contacts. -/
theorem Sound.of_resting {r : Router P K C T} (hleaves : Leaves r.log r.held)
    (hdistinct : r.keys.Nodup) (hrest : Resting r)
    (hblocked : r.blockedMultitouch = true → r.keys ≠ []) : Sound r := by
  have hengaged := hrest.not_engaged
  have hgesture : r.multitouchActive = false := congrArg Held.gesture hrest.1
  exact { leaves := hleaves, distinct := hdistinct, single := .of_not_engaged hengaged,
          engaged := fun h => absurd h hengaged, gesture := by simp [hgesture],
          down := fun h => absurd h hengaged, blocked := hblocked, two := by simp [hgesture] }

/-- A single touch that is down, alone and without a gesture, may hold something. -/
theorem Sound.of_alone {r : Router P K C T} (hleaves : Leaves r.log r.held)
    (hdistinct : r.keys.Nodup) (hsingle : Single r) (hblocked : r.blockedMultitouch = false)
    (hgesture : r.multitouchActive = false) {key : K} (hprimary : r.primary = some key)
    (hkey : key ∈ r.keys) : Sound r where
  leaves := hleaves
  distinct := hdistinct
  single := hsingle
  engaged := fun _ => ⟨hblocked, hgesture⟩
  gesture := by simp [hgesture]
  down := fun _ => ⟨key, hprimary, hkey⟩
  blocked := by simp [hblocked]
  two := by simp [hgesture]

/-- An output that changes nothing of what is held keeps everything. -/
theorem Sound.send {r : Router P K C T} (h : Sound r) {output : Output P T}
    (houtput : track r.held output = some r.held) : Sound (r.send output) where
  leaves := h.leaves.append houtput
  distinct := h.distinct
  single := ⟨h.single.mouse, h.single.deferred⟩
  engaged := h.engaged
  gesture := h.gesture
  down := h.down
  blocked := h.blocked
  two := h.two

theorem Ordered.with_contacts {r : Router P K C T} (h : Ordered r) {contacts : List (K × C)}
    (hdistinct : (contacts.map Prod.fst).Nodup) : Ordered { r with contacts := contacts } where
  leaves := h.leaves
  distinct := hdistinct
  single := ⟨h.single.mouse, h.single.deferred⟩
  engaged := h.engaged
  gesture := h.gesture

/-- The end of a gesture, with the block it leaves. -/
theorem Sound.stopped {r : Router P K C T} (h : Ordered r)
    (hgesture : r.multitouchActive = true) (canceled : Bool) {blocked : Bool}
    (hblocked : blocked = true → r.keys ≠ []) :
    Sound { r.stopMultitouch canceled with blockedMultitouch := blocked } := by
  have hrest := h.not_engaged_of_gesture hgesture
  obtain ⟨hleaves, hkept, hstopped, hengaged, -⟩ :=
    stopMultitouch_spec h.leaves (fun _ => hrest) canceled
  have hresting := resting_of_not_engaged (fun hheld => hrest (hengaged.mp hheld)) hstopped
  have hkeys : (r.stopMultitouch canceled).keys = r.keys := by rw [keys, hkept.contacts, keys]
  refine .of_resting hleaves ?_ hresting fun hactive => ?_
  · exact hkeys.symm ▸ h.distinct
  · exact hkeys.symm ▸ hblocked hactive

/-- A gesture whose contacts are two goes on. -/
theorem Sound.of_gesture {r : Router P K C T} (h : Ordered r)
    (hgesture : r.multitouchActive = true) (hcount : r.keys.length = 2) : Sound r where
  toOrdered := h
  down := fun hengaged => absurd hengaged (h.not_engaged_of_gesture hgesture)
  blocked := by simp [h.gesture hgesture]
  two := fun _ => hcount

theorem Sound.gesture_down {r : Router P K C T} (h : Ordered r)
    (hgesture : r.multitouchActive = true) (hcount : 2 ≤ r.keys.length) :
    Sound r.handleActiveMultitouchDown := by
  unfold handleActiveMultitouchDown
  rw [count_eq]
  split_ifs with hthree
  · exact .stopped h hgesture true fun _ => List.ne_nil_of_length_pos (by omega)
  · exact .of_gesture h hgesture (by omega)

theorem Sound.gesture_motion {r : Router P K C T} (h : Ordered r)
    (hgesture : r.multitouchActive = true) (hcount : 2 ≤ r.keys.length) :
    Sound r.handleActiveMultitouchMotion := by
  unfold handleActiveMultitouchMotion
  rw [count_eq]
  split_ifs with hthree
  · exact .stopped h hgesture true fun _ => List.ne_nil_of_length_pos (by omega)
  · exact (Sound.of_gesture h hgesture (by omega)).send (if_pos (h.held_of_gesture hgesture))

theorem Sound.gesture_finished {r : Router P K C T} (h : Ordered r)
    (hgesture : r.multitouchActive = true) (hcount : r.keys.length ≤ 2) (canceled : Bool) :
    Sound (r.handleActiveMultitouchFinished canceled) := by
  unfold handleActiveMultitouchFinished
  simp only [count_eq]
  split_ifs with htwo
  · have hkeys : (r.stopMultitouch canceled).keys = r.keys := by
      rw [keys, (stopMultitouch_spec h.leaves h.not_engaged_of_gesture canceled).2.1.contacts, keys]
    rw [hkeys]
    refine .stopped h hgesture canceled fun hleft => ?_
    exact List.ne_nil_of_length_pos (by simpa using hleft)
  · exact .of_gesture h hgesture (by omega)

/-- A router whose single touch is cleared, with the block it leaves. -/
theorem Sound.cleared {r : Router P K C T} (hleaves : Leaves r.log Held.nothing)
    (hdistinct : r.keys.Nodup) (hgesture : r.multitouchActive = false)
    (hblocked : r.blockedMultitouch = true → r.keys ≠ []) :
    Sound r.clearSingle := by
  have hheld : r.clearSingle.held = .nothing := by
    simp [clearSingle, held, Held.nothing, hgesture]
  exact .of_resting (hheld.symm ▸ hleaves) hdistinct ⟨hheld, rfl⟩ hblocked

theorem Sound.emptied {r : Router P K C T} (hleaves : Leaves r.log Held.nothing)
    (hgesture : r.multitouchActive = false) :
    Sound ({ r.clearSingle with blockedMultitouch := false, contacts := [] } : Router P K C T) :=
  Sound.cleared (r := { r with blockedMultitouch := false, contacts := [] }) hleaves
    List.nodup_nil hgesture (by simp)

/-- What is at rest and has kept its contacts is as sound as before. -/
theorem Sound.rested {r s : Router P K C T} (h : Sound r) (hkept : Kept r s)
    (hleaves : Leaves s.log Held.nothing) (hrest : Resting s) : Sound s := by
  have hkeys : s.keys = r.keys := by rw [keys, hkept.contacts, keys]
  refine .of_resting (hrest.1.symm ▸ hleaves) (hkeys.symm ▸ h.distinct) hrest fun hblocked => ?_
  exact hkeys.symm ▸ h.blocked (hkept.blocked.symm.trans hblocked)

/-- The gesture starts or the block follows. -/
theorem Sound.startMultitouch {r : Router P K C T} (h : Sound r) (hrest : Resting r)
    (hblocked : r.blockedMultitouch = false) (hkeys : r.keys ≠ []) (starts : Bool) :
    Sound (r.startMultitouch starts).2 ∧ ((r.startMultitouch starts).1 = false →
      Sound { (r.startMultitouch starts).2 with blockedMultitouch := true }) := by
  have hgesture : r.multitouchActive = false := congrArg Held.gesture hrest.1
  have hmouse : r.mouseActive = false := congrArg Held.mouse hrest.1
  have hcaptured : r.captured = none := congrArg Held.drag hrest.1
  unfold Router.startMultitouch
  split_ifs with htwo
  · have hleaves : Leaves (r.log ++ [.multitouchStart starts])
        (⟨r.mouseActive, r.captured, starts || r.multitouchActive⟩ : Held T) := by
      refine h.leaves.append ?_
      simp [track, hrest.1, hgesture, hmouse, hcaptured, Held.nothing]
    have hordered : Ordered { r.send (.multitouchStart starts) with
        multitouchActive := starts || r.multitouchActive } :=
      { leaves := hleaves
        distinct := h.distinct
        single := ⟨h.single.mouse, h.single.deferred⟩
        engaged := fun hengaged => absurd hengaged hrest.not_engaged
        gesture := fun _ => hblocked }
    cases starts with
    | true => exact ⟨.of_gesture hordered rfl (by rw [← htwo, count_eq]; rfl), by simp⟩
    | false =>
      have hheld : (⟨r.mouseActive, r.captured, false || r.multitouchActive⟩ : Held T) =
          .nothing := by simp [hmouse, hcaptured, hgesture, Held.nothing]
      refine ⟨.of_resting hleaves h.distinct ⟨hheld, hrest.2⟩ h.blocked, fun _ => ?_⟩
      exact .of_resting hleaves h.distinct ⟨hheld, hrest.2⟩ fun _ => hkeys
  · exact ⟨h, fun _ => .of_resting h.leaves h.distinct hrest fun _ => hkeys⟩

theorem Sound.resetBlockedIfIdle {r : Router P K C T} (hleaves : Leaves r.log Held.nothing)
    (hdistinct : r.keys.Nodup) (hrest : Resting r) : Sound r.resetBlockedIfIdle := by
  unfold Router.resetBlockedIfIdle
  rw [count_eq]
  split_ifs with hidle
  · exact .of_resting (r := { r with blockedMultitouch := false }) (hrest.1.symm ▸ hleaves)
      hdistinct hrest (by simp)
  · exact .of_resting (hrest.1.symm ▸ hleaves) hdistinct hrest fun _ =>
      List.ne_nil_of_length_pos (by omega)

end Invariant

section Steps
variable [DecidableEq K] [DecidableEq T] (env : Env P K C T) {r : Router P K C T}

theorem Ordered.setContact (h : Ordered r) (payload : P) : Ordered (r.setContact env payload) := by
  have hdistinct : (r.setContact env payload).keys.Nodup := by
    rw [keys_setContact]
    split_ifs with hmem
    · exact h.distinct
    · exact h.distinct.append (List.nodup_singleton _) (by simpa using hmem)
  rw [setContact_frame]
  exact h.with_contacts hdistinct

theorem Ordered.lift (h : Ordered r) (payload : P) : Ordered (r.lift env payload).2 := by
  have hdistinct : (r.lift env payload).2.keys.Nodup := by
    rw [keys_lift]
    exact h.distinct.filter _
  rw [lift_frame]
  exact h.with_contacts hdistinct

/-- A contact is set without harm unless it ends a gesture. -/
theorem Sound.setContact (h : Sound r) (payload : P) (hgesture : r.multitouchActive = false) :
    Sound (r.setContact env payload) := by
  have hordered := h.toOrdered.setContact env payload
  have hkeys := keys_subset_setContact env (r := r) payload
  have hmem := mem_keys_setContact env (r := r) payload
  rw [setContact_frame] at hordered hkeys hmem ⊢
  refine { hordered with
    down := fun hengaged => ?_
    blocked := fun _ => List.ne_nil_of_mem hmem
    two := fun hactive => ?_ }
  · obtain ⟨key, hprimary, hkey⟩ := h.down hengaged
    exact ⟨key, hprimary, hkeys hkey⟩
  · rw [show r.multitouchActive = true from hactive] at hgesture
    cases hgesture

theorem Sound.resetRouter (h : Sound r) (payload : Option P) :
    Sound (r.resetRouter env payload) ∧ (r.resetRouter env payload).keys = [] := by
  obtain ⟨hleaves, hkept, hstopped, hengaged, hsingle⟩ :=
    stopMultitouch_spec h.leaves h.not_engaged_of_gesture true
  refine ⟨?_, rfl⟩
  unfold Router.resetRouter
  simp only
  split_ifs with hprimary
  · obtain ⟨hcancel, -, hrest⟩ :=
      cancelSingle_spec env hleaves (hsingle h.single) hstopped payload
    exact .emptied hcancel (congrArg Held.gesture hrest.1)
  · have hrest : ¬ Engaged (r.stopMultitouch true) := by
      intro hheld
      obtain ⟨key, hkey, -⟩ := h.down (hengaged.mp hheld)
      rw [hkept.primary, hkey] at hprimary
      exact hprimary rfl
    have hnothing := (resting_of_not_engaged hrest hstopped).1
    exact .emptied (hnothing ▸ hleaves) hstopped

theorem Sound.refuse (h : Sound r) (payload : P) : Sound (r.refuse env payload) := by
  unfold Router.refuse
  split_ifs
  · exact (h.resetRouter env (some payload)).1
  · exact h

theorem Sound.setPrimary (h : Sound r) (hprimary : r.primary = none)
    (hblocked : r.blockedMultitouch = false) (hgesture : r.multitouchActive = false) {payload : P}
    (hkey : env.key payload ∈ r.keys) (candidate : Option T) :
    Sound (r.setPrimary env payload candidate) := by
  have hrest : ¬ Engaged r := by
    intro hengaged
    obtain ⟨key, hsome, -⟩ := h.down hengaged
    rw [hprimary] at hsome
    cases hsome
  have hnothing := (resting_of_not_engaged hrest hgesture).1
  obtain ⟨hleaves, hkept, hheld, -⟩ := notifyCandidate_spec env
    (r := { r with primary := some (env.key payload), dragCandidate := candidate }) h.leaves
    .candidateStart (fun _ _ => rfl) (some payload) none
  simp only [Router.setPrimary]
  generalize Router.notifyCandidate env
    { r with primary := some (env.key payload), dragCandidate := candidate }
    .candidateStart (some payload) none = notified at *
  have hkeys : notified.keys = r.keys := congrArg (List.map Prod.fst) hkept.contacts
  have hblocked' : notified.blockedMultitouch = false := hkept.blocked.trans hblocked
  have hgesture' : notified.multitouchActive = false :=
    (congrArg Held.gesture hheld).trans hgesture
  have hcaptured : notified.captured = none :=
    (congrArg Held.drag hheld).trans (congrArg Held.drag hnothing)
  rw [hnothing] at hleaves
  split_ifs
  · refine .of_alone ?_ (hkeys.symm ▸ h.distinct) ⟨by simp, fun _ => hcaptured⟩ hblocked' hgesture'
      hkept.primary (hkeys.symm ▸ hkey)
    simpa [held, Held.nothing, hcaptured, hgesture'] using hleaves
  · refine .of_alone ?_ (hkeys.symm ▸ h.distinct) ⟨fun _ => ⟨rfl, hcaptured⟩, by simp⟩ hblocked'
      hgesture' hkept.primary (hkeys.symm ▸ hkey)
    refine hleaves.append ?_
    simp [track, held, Held.button, Router.send, hcaptured, hgesture']

theorem Sound.single_down (h : Sound r) (hgesture : r.multitouchActive = false) {payload : P}
    (hkey : env.key payload ∈ r.keys) (candidate : Option T) (starts : Bool) :
    Sound (r.handleSingleTouchDown env payload candidate starts) := by
  unfold handleSingleTouchDown
  split_ifs with hblocked
  · exact h
  simp only [Bool.not_eq_true] at hblocked
  cases hprimary : r.primary with
  | none => exact h.setPrimary env hprimary hblocked hgesture hkey candidate
  | some primary =>
    simp only
    split_ifs with hsame
    · exact h
    obtain ⟨hcancel, hkept, hrest⟩ :=
      cancelSingle_spec env h.leaves h.single hgesture (some payload)
    have hkeys : (r.cancelSingle env (some payload)).keys ≠ [] := by
      rw [keys, hkept.contacts]
      exact List.ne_nil_of_mem hkey
    have hstart := (Sound.rested h hkept hcancel hrest).startMultitouch hrest
      (hkept.blocked.trans hblocked) hkeys starts
    revert hstart
    cases (r.cancelSingle env (some payload)).startMultitouch starts with
    | mk started s =>
      cases started with
      | true => exact fun hstart => hstart.1
      | false => exact fun hstart => hstart.2 rfl

theorem Sound.capture (h : Sound r) (hblocked : r.blockedMultitouch = false)
    (hgesture : r.multitouchActive = false) (hcaptured : r.captured = none) {key : K}
    (hprimary : r.primary = some key) (hkey : key ∈ r.keys) {target : T} {payload : P}
    {contact : C} :
    Sound ((r.send (.dragStart target payload true)).capture env target payload contact) := by
  have hstarted : Leaves (r.send (.dragStart target payload true)).log
      (⟨r.mouseActive, some target, false⟩ : Held T) := by
    refine h.leaves.append ?_
    simp [track, Router.held, hcaptured, hgesture]
  obtain ⟨hreleased, hkept, hheld, -⟩ :=
    releaseMouse_spec env hstarted rfl (some payload) true false (some contact)
  simp only [Router.capture]
  generalize (r.send (.dragStart target payload true)).releaseMouse env (some payload) true false
    (some contact) = released at *
  have hkeys : released.keys = r.keys := congrArg (List.map Prod.fst) hkept.contacts
  have hmouse : released.mouseActive = false := congrArg Held.mouse hheld
  have hgesture' : released.multitouchActive = false :=
    (congrArg Held.gesture hheld).trans hgesture
  refine .of_alone (hreleased.append ?_) (hkeys.symm ▸ h.distinct) ⟨?_, by simp⟩
    (hkept.blocked.trans hblocked) hgesture' (hkept.primary.trans hprimary) (hkeys.symm ▸ hkey)
  · simp [track, Router.held, Router.send, Held.dragging, hmouse, hgesture']
  · simp [Router.send, hmouse]

theorem tryStartCapture_spec (h : Sound r) (hblocked : r.blockedMultitouch = false)
    (hgesture : r.multitouchActive = false) (hcaptured : r.captured = none) {key : K}
    (hprimary : r.primary = some key) (hkey : key ∈ r.keys) {payload : P} {startsDrag : Bool}
    {captured : Bool} {s : Router P K C T}
    (hstart : r.tryStartCapture env payload startsDrag = .ok (captured, s)) :
    Sound s ∧ (captured = false → s.held = r.held) := by
  unfold tryStartCapture at hstart
  cases hcandidate : r.dragCandidate with
  | none =>
    simp only [hcandidate] at hstart
    cases hstart
    exact ⟨h, fun _ => rfl⟩
  | some target =>
    cases hcontact : r.primaryContact with
    | none =>
      simp only [hcandidate, hcontact] at hstart
      cases hstart
      exact ⟨h, fun _ => rfl⟩
    | some contact =>
      simp only [hcandidate, hcontact] at hstart
      cases hreached : env.reached contact target with
      | error message =>
        rw [hreached] at hstart
        cases hstart
      | ok reached =>
        rw [hreached] at hstart
        cases reached with
        | false =>
          cases hstart
          exact ⟨h, fun _ => rfl⟩
        | true =>
          cases startsDrag with
          | false =>
            cases hstart
            refine ⟨h.send ?_, fun _ => rfl⟩
            simp [track, Router.held, hcaptured, hgesture]
          | true =>
            cases hstart
            refine ⟨h.capture env hblocked hgesture hcaptured hprimary hkey, fun hfalse => ?_⟩
            cases hfalse

theorem Sound.single_motion (h : Sound r) (hgesture : r.multitouchActive = false) {payload : P}
    (hkey : env.key payload ∈ r.keys) (startsDrag : Bool) :
    Sound (r.handleSingleTouchMotion env payload startsDrag) := by
  unfold handleSingleTouchMotion
  split_ifs with hblocked hprimary
  · exact h
  · exact h
  simp only [Bool.not_eq_true] at hblocked
  simp only [ne_eq, not_not] at hprimary
  cases hcaptured : r.captured with
  | some target => exact h.send (if_pos (held_of_captured h.single hgesture hcaptured))
  | none =>
    cases hstart : r.tryStartCapture env payload startsDrag with
    | error message => exact h
    | ok answer =>
      obtain ⟨captured, s⟩ := answer
      obtain ⟨hsound, hheld⟩ :=
        tryStartCapture_spec env h hblocked hgesture hcaptured hprimary hkey hstart
      cases captured with
      | true => exact hsound
      | false =>
        simp only
        split_ifs with hmouse
        · refine hsound.send (if_pos ?_)
          have hdrag := congrArg Held.drag (hheld rfl)
          have hgesture' := congrArg Held.gesture (hheld rfl)
          simp only [held] at hdrag hgesture'
          simp [held, Held.button, hmouse, hdrag, hgesture', hcaptured, hgesture]
        · exact hsound

theorem completeSingle_spec (h : Ordered r) (hgesture : r.multitouchActive = false) (payload : P)
    (canceled : Bool) (contact : Option C) :
    Leaves (r.completeSingle env payload canceled contact).log Held.nothing ∧
      Kept r (r.completeSingle env payload canceled contact) ∧
      (r.completeSingle env payload canceled contact).multitouchActive = false := by
  by_cases hcaptured : r.captured.isSome = true
  · simp only [completeSingle, if_pos hcaptured]
    obtain ⟨target, htarget⟩ := Option.isSome_iff_exists.mp hcaptured
    have hheld := held_of_captured h.single hgesture htarget
    obtain ⟨hleaves, hkept, hheld', -⟩ :=
      finishCaptured_spec env h.leaves h.single hgesture (some payload) canceled contact
    rw [hheld] at hleaves hheld'
    exact ⟨hleaves, hkept, congrArg Held.gesture hheld'⟩
  have hnone : r.captured = none := by simpa using hcaptured
  have hsilent : ∀ target payload, track r.held
      ((if canceled = true then Output.candidateCancel else .candidateEnd : T → P → Output P T)
        target payload) = some r.held := by
    cases canceled with
    | true => exact fun _ _ => rfl
    | false => exact fun _ _ => rfl
  obtain ⟨hleaves, hkept, hheld, hdeferred⟩ :=
    notifyCandidate_spec env h.leaves _ hsilent (some payload) contact
  simp only [completeSingle, if_neg hcaptured]
  generalize r.notifyCandidate env
    (if canceled = true then Output.candidateCancel else .candidateEnd) (some payload) contact =
    notified at *
  have hup : ({ r.held with mouse := false } : Held T) = .nothing := by
    simp [Router.held, Held.nothing, hnone, hgesture]
  have hrelease : ∀ suppressClick canceled,
      Leaves (notified.releaseMouse env (some payload) suppressClick canceled contact).log
          Held.nothing ∧
        Kept r (notified.releaseMouse env (some payload) suppressClick canceled contact) ∧
        (notified.releaseMouse env (some payload) suppressClick canceled contact).multitouchActive =
          false := by
    intro suppressClick canceled
    obtain ⟨hlog, hkept', hheld', -⟩ := releaseMouse_spec env hleaves
      (congrArg Held.mouse hheld).symm (some payload) suppressClick canceled contact
    refine ⟨hup ▸ hlog, hkept.trans hkept', ?_⟩
    exact (congrArg Held.gesture hheld').trans ((congrArg Held.gesture hheld).trans hgesture)
  split_ifs with hcanceled hwait
  · obtain ⟨hlog, hkept', hstopped⟩ := hrelease true true
    exact ⟨hlog, ⟨hkept'.contacts, hkept'.primary, hkept'.blocked⟩, hstopped⟩
  · rw [hdeferred] at hwait
    have hmouse : r.mouseActive = false := by
      cases hactive : r.mouseActive with
      | false => rfl
      | true =>
        have hfalse := (h.single.mouse hactive).1
        rw [hwait] at hfalse
        cases hfalse
    have hnothing : r.held = .nothing := by
      simp [Router.held, Held.nothing, hmouse, hnone, hgesture]
    rw [hnothing] at hleaves
    have hpressed : Leaves (notified.log ++
        [.mouseDown (notified.resolved env contact (some payload))]) Held.button :=
      hleaves.append (by simp [track])
    exact ⟨hpressed.append rfl, ⟨hkept.contacts, hkept.primary, hkept.blocked⟩,
      (congrArg Held.gesture hheld).trans hgesture⟩
  · exact hrelease false false

/-- What is left when a contact has been lifted: the block may stand for none, and the contact that
held something may be gone. -/
theorem Sound.single_finished {lifted : Router P K C T} (h : Sound r) (hlifted : Ordered lifted)
    (hgesture : r.multitouchActive = false) {payload : P}
    (hsame : lifted = { r with contacts := lifted.contacts })
    (hkeys : lifted.keys = r.keys.filter (· ≠ env.key payload)) (canceled : Bool)
    (contact : Option C) :
    Sound (lifted.handleSingleTouchFinished env payload canceled
      (decide (r.primary = some (env.key payload))) contact) := by
  have hgesture' : lifted.multitouchActive = false := by rw [hsame]; exact hgesture
  unfold handleSingleTouchFinished
  simp only [decide_eq_true_eq]
  by_cases hblocked : lifted.blockedMultitouch = true
  · have hrest := resting_of_not_engaged (hlifted.not_engaged_of_blocked hblocked) hgesture'
    have hleaves := hrest.1 ▸ hlifted.leaves
    rw [if_pos hblocked]
    split_ifs
    · have hheld : lifted.clearSingle.held = .nothing := by
        simp [clearSingle, held, Held.nothing, hgesture']
      exact .resetBlockedIfIdle hleaves hlifted.distinct ⟨hheld, rfl⟩
    · exact .resetBlockedIfIdle hleaves hlifted.distinct hrest
  · rw [if_neg hblocked]
    by_cases hprimary : r.primary = some (env.key payload)
    · rw [if_pos hprimary]
      obtain ⟨hleaves, hkept, hstopped⟩ :=
        completeSingle_spec env hlifted hgesture' payload canceled contact
      generalize lifted.completeSingle env payload canceled contact = completed at *
      have hheld : completed.clearSingle.held = .nothing := by
        simp [clearSingle, held, Held.nothing, hstopped]
      have hdistinct : completed.clearSingle.keys.Nodup := by
        change (completed.contacts.map Prod.fst).Nodup
        rw [hkept.contacts]
        exact hlifted.distinct
      split_ifs
      · exact .resetBlockedIfIdle hleaves hdistinct ⟨hheld, rfl⟩
      · exact .resetBlockedIfIdle hleaves hdistinct ⟨hheld, rfl⟩
    · rw [if_neg hprimary]
      refine { hlifted with
        down := fun hengaged => ?_
        blocked := fun hactive => absurd hactive hblocked
        two := by simp [hgesture'] }
      rw [hsame] at hengaged
      obtain ⟨key, hsome, hkey⟩ := h.down hengaged
      refine ⟨key, by rw [hsame]; exact hsome, ?_⟩
      rw [hkeys, List.mem_filter]
      refine ⟨hkey, ?_⟩
      simpa using fun heq : key = env.key payload => hprimary (heq ▸ hsome)

theorem Sound.onTouchDown (h : Sound r) (payload : P) (allowed : Bool) (candidate : Option T)
    (starts : Bool) : Sound (r.onTouchDown env payload allowed candidate starts) := by
  unfold Router.onTouchDown
  split_ifs with hallowed
  swap
  · exact h.refuse env payload
  have hmem := mem_keys_setContact env (r := r) payload
  have hgesture : (r.setContact env payload).multitouchActive = r.multitouchActive := by
    rw [setContact_frame]
  have hidle : (r.setContact env payload).resetBlockedIfIdle = r.setContact env payload := by
    rw [Router.resetBlockedIfIdle, if_neg]
    rw [count_eq]
    have hlength := List.length_pos_of_mem hmem
    omega
  simp only [hidle]
  split_ifs with hactive
  · refine .gesture_down (h.toOrdered.setContact env payload) hactive ?_
    rw [← h.two (hgesture ▸ hactive)]
    exact length_keys_setContact env payload
  · have hinactive : r.multitouchActive = false := by rw [← hgesture]; simpa using hactive
    exact (h.setContact env payload hinactive).single_down env (hgesture.trans hinactive) hmem
      candidate starts

theorem Sound.onTouchMotion (h : Sound r) (payload : P) (allowed startsDrag : Bool) :
    Sound (r.onTouchMotion env payload allowed startsDrag) := by
  unfold Router.onTouchMotion
  split_ifs with hallowed
  swap
  · exact h.refuse env payload
  have hgesture : (r.setContact env payload).multitouchActive = r.multitouchActive := by
    rw [setContact_frame]
  simp only
  split_ifs with hactive
  · refine .gesture_motion (h.toOrdered.setContact env payload) hactive ?_
    rw [← h.two (hgesture ▸ hactive)]
    exact length_keys_setContact env payload
  · have hinactive : r.multitouchActive = false := by rw [← hgesture]; simpa using hactive
    exact (h.setContact env payload hinactive).single_motion env (hgesture.trans hinactive)
      (mem_keys_setContact env payload) startsDrag

theorem Sound.onTouchFinished (h : Sound r) (payload : P) (allowed canceled : Bool) :
    Sound (r.onTouchFinished env payload allowed canceled) := by
  unfold Router.onTouchFinished
  split_ifs with hallowed
  swap
  · exact h.refuse env payload
  have hlifted := h.toOrdered.lift env payload
  have hsame := lift_frame env (r := r) payload
  have hkeys := keys_lift env (r := r) payload
  revert hlifted hsame hkeys
  cases r.lift env payload with
  | mk contact lifted =>
    intro hlifted hsame hkeys
    have hgesture : lifted.multitouchActive = r.multitouchActive := by
      rw [show lifted = _ from hsame]
    simp only
    split_ifs with hactive
    · refine .gesture_finished hlifted hactive ?_ canceled
      rw [show lifted.keys = _ from hkeys, ← h.two (hgesture ▸ hactive)]
      exact List.length_filter_le _ _
    · have hinactive : r.multitouchActive = false := by rw [← hgesture]; simpa using hactive
      exact h.single_finished env hlifted hinactive hsame hkeys canceled contact

theorem Sound.step (h : Sound r) (action : Action P T) : Sound (step env r action) := by
  cases action with
  | down payload allowed candidate starts =>
    exact h.onTouchDown env payload allowed candidate starts
  | motion payload allowed startsDrag => exact h.onTouchMotion env payload allowed startsDrag
  | finished payload allowed canceled => exact h.onTouchFinished env payload allowed canceled
  | reset => exact (h.resetRouter env none).1

end Steps
end Router

/-- Whatever is touched in whatever order, all that is sent belongs where it stands: a press is
followed by its release before the next press, a drag ends for the target it started for, a gesture
ends before anything else starts. What has been left open is what the router takes for held, and
when the last contact is gone nothing is held, no press is put off and nothing is blocked. -/
theorem sent_in_order [DecidableEq K] [DecidableEq T] (env : Env P K C T)
    (actions : List (Action P T)) :
    let r := actions.foldl (step env) (Router.idle : Router P K C T)
    Leaves r.log r.held ∧
      (r.contacts = [] → r.held = .nothing ∧ r.mouseDeferred = false ∧
        r.blockedMultitouch = false) := by
  intro r
  have hsound : r.Sound :=
    invariant_foldl (fun _ action h => h.step env action) Router.sound_idle actions
  refine ⟨hsound.leaves, fun hcontacts => ?_⟩
  have hkeys : r.keys = [] := by rw [Router.keys, hcontacts]; rfl
  have hgesture : r.multitouchActive = false := by
    by_contra hactive
    have htwo := hsound.two (by simpa using hactive)
    rw [hkeys] at htwo
    cases htwo
  have hrest := Router.resting_of_not_engaged (fun hengaged => by
    obtain ⟨key, -, hkey⟩ := hsound.down hengaged
    rw [hkeys] at hkey
    cases hkey) hgesture
  refine ⟨hrest.1, hrest.2, ?_⟩
  by_contra hblocked
  exact hsound.blocked (by simpa using hblocked) hkeys

end Space2.Touch
