import Space2.VectorBuffer.Marks

/-!
# Uploads through a cache

The cache keeps for each vector one buffer of the GPU and the length it was last filled
with. A vector of another length is sent whole, one of the same length only where it is
marked dirty. An allocation at the end does not mark what it takes, so a float that was
changed, released with its mark, and taken back is not sent before it is set again.
-/
namespace Space2.VectorBuffer
open Base Base.Op

variable {K F : Type} [DecidableEq K]

/-- The floats of the buffer `vbo`, as the calls of GL leave them. -/
structure Entry (F : Type) where
  vbo : List F
  uploadedFloats : Option Nat
  lastUsed : Nat

structure Cache (K F : Type) where
  entries : List (K × Entry F)
  entryCount : Nat
  tick : Nat

structure Limits where
  maxEntries : Nat
  evictPerUpload : Nat

namespace Cache

def entry (c : Cache K F) (key : K) : Option (Entry F) :=
  (c.entries.find? fun kept => kept.1 = key).map Prod.snd

def deleteEntry (key : K) (c : Cache K F) : Cache K F :=
  { c with
    entries := c.entries.filter fun kept => kept.1 ≠ key
    entryCount := c.entryCount - 1 }

/-- The entry of another vector that was not used for longest. -/
def oldest (currentKey : K) : List (K × Entry F) → Option (K × Entry F) → Option (K × Entry F)
  | [], found => found
  | next :: rest, found =>
    oldest currentKey rest <|
      if next.1 ≠ currentKey ∧ (found.all fun other => next.2.lastUsed < other.2.lastUsed) = true then
        some next
      else found

def evictOne (currentKey : K) (c : Cache K F) : Option (Cache K F) :=
  (oldest currentKey c.entries none).map fun found => c.deleteEntry found.1

/-- `evictions` more entries may go. -/
def maybeEvict (maxEntries : Nat) (currentKey : K) : Nat → Cache K F → Cache K F
  | 0, c => c
  | evictions + 1, c =>
    if c.entryCount > maxEntries then
      match c.evictOne currentKey with
      | some evicted => maybeEvict maxEntries currentKey evictions evicted
      | none => c
    else c

def ensureEntry (key : K) (c : Cache K F) : Entry F × Cache K F :=
  match c.entry key with
  | some existing => (existing, c)
  | none =>
    let entry : Entry F := { vbo := [], uploadedFloats := none, lastUsed := 0 }
    (entry, { c with entries := (key, entry) :: c.entries, entryCount := c.entryCount + 1 })

def putEntry (key : K) (entry : Entry F) (c : Cache K F) : Cache K F :=
  { c with entries := c.entries.map fun kept => if kept.1 = key then (key, entry) else kept }

def drop (c : Cache K F) : Cache K F := { c with entries := [], entryCount := 0 }

end Cache

/-- `bufferDataFromVectorBuffer` -/
def State.used (s : State F) : List F := (List.range s.freeFrom).map s.buffer

/-- `bufferSubDataFromVectorBuffer` of the dirty range -/
def State.patched (s : State F) (vbo : List F) : List F :=
  vbo.mapIdx fun position old => if s.marked position = true then s.buffer position else old

/-- What an upload sends, and the marks it clears. -/
def Entry.send (tick : Nat) (s : State F) (entry : Entry F) : Entry F × State F :=
  if some s.freeFrom ≠ entry.uploadedFloats then
    ({ vbo := s.used, uploadedFloats := some s.freeFrom, lastUsed := tick }, s.clearDirty)
  else if s.hasDirty = true then
    ({ entry with vbo := s.patched entry.vbo, lastUsed := tick }, s.clearDirty)
  else ({ entry with lastUsed := tick }, s)

def Cache.upload (limits : Limits) (key : K) (s : State F) (c : Cache K F) : Cache K F × State F :=
  if s.freeFrom = 0 then (c, s)
  else
    let ensured := ({ c with tick := c.tick + 1 } : Cache K F).ensureEntry key
    let sent := ensured.1.send (c.tick + 1) s
    ((ensured.2.putEntry key sent.1).maybeEvict limits.maxEntries key limits.evictPerUpload, sent.2)

/-! ## The entries -/

section Entries
variable {c : Cache K F} {key other : K}

theorem entry_deleteEntry (h : other ≠ key) : (c.deleteEntry key).entry other = c.entry other := by
  unfold Cache.entry Cache.deleteEntry
  dsimp only
  rw [List.find?_filter]
  refine congrArg _ (congrArg (List.find? · c.entries) (funext fun kept => ?_))
  refine Bool.eq_iff_iff.2 ?_
  simp only [Bool.and_eq_true, decide_eq_true_eq]
  exact ⟨fun hboth => hboth.2, fun hkept => ⟨fun hkey => h (hkept.symm.trans hkey), hkept⟩⟩

theorem entry_putEntry (entry : Entry F) : (c.putEntry key entry).entry other =
    if other = key then (c.entry key).map fun _ => entry else c.entry other := by
  unfold Cache.entry Cache.putEntry
  dsimp only
  rw [List.find?_map]
  have hsame : ((fun kept : K × Entry F => decide (kept.1 = other)) ∘
      fun kept => if kept.1 = key then (key, entry) else kept) = fun kept => decide (kept.1 = other) := by
    funext kept
    dsimp only [Function.comp_apply]
    split_ifs with hkept
    · rw [hkept]
    · rfl
  rw [hsame]
  split_ifs with hkey
  · subst hkey
    cases hfound : c.entries.find? fun kept => kept.1 = other with
    | none => rfl
    | some kept =>
      have hkept : kept.1 = other := by simpa using List.find?_some hfound
      simp only [Option.map_some, if_pos hkept]
  · cases hfound : c.entries.find? fun kept => kept.1 = other with
    | none => rfl
    | some kept =>
      have hkept : kept.1 = other := by simpa using List.find?_some hfound
      have hother : ¬ kept.1 = key := fun heq => hkey (hkept.symm.trans heq)
      simp only [Option.map_some, if_neg hother]

theorem entry_ensureEntry (c : Cache K F) (key : K) :
    (c.ensureEntry key).2.entry key = some (c.ensureEntry key).1 ∧
      ∀ other, other ≠ key → (c.ensureEntry key).2.entry other = c.entry other := by
  unfold Cache.ensureEntry
  cases hentry : c.entry key with
  | some existing => exact ⟨hentry, fun _ _ => rfl⟩
  | none =>
    refine ⟨?_, fun other hother => ?_⟩
    · unfold Cache.entry
      rw [List.find?_cons_of_pos (by simp)]
      rfl
    · unfold Cache.entry
      rw [List.find?_cons_of_neg (by simpa using hother.symm)]

theorem oldest_ne {currentKey : K} {l : List (K × Entry F)} {found : Option (K × Entry F)}
    (hfound : ∀ kept, found = some kept → kept.1 ≠ currentKey) :
    ∀ kept, Cache.oldest currentKey l found = some kept → kept.1 ≠ currentKey := by
  induction l generalizing found with
  | nil => exact hfound
  | cons next rest ih =>
    refine ih fun kept hkept => ?_
    split_ifs at hkept with hnext
    · cases hkept
      exact hnext.1
    · exact hfound kept hkept

theorem evictOne_spec {c' : Cache K F} (h : c.evictOne key = some c') :
    c'.entry key = c.entry key ∧ ∀ other entry, c'.entry other = some entry →
      c.entry other = some entry := by
  obtain ⟨found, hfound, hdeleted⟩ := Option.map_eq_some_iff.1 h
  subst hdeleted
  have hne : found.1 ≠ key := oldest_ne (fun _ hnone => by cases hnone) found hfound
  refine ⟨entry_deleteEntry hne.symm, fun other entry hentry => ?_⟩
  by_cases hother : other = found.1
  · subst hother
    unfold Cache.entry Cache.deleteEntry at hentry
    obtain ⟨kept, hkept, -⟩ := Option.map_eq_some_iff.1 hentry
    have hmem := List.mem_of_find?_eq_some hkept
    have hname : kept.1 = found.1 := by simpa using List.find?_some hkept
    exact absurd hname (by simpa using (List.mem_filter.1 hmem).2)
  · rwa [entry_deleteEntry hother] at hentry

theorem maybeEvict_spec (maxEntries : Nat) (key : K) (evictions : Nat) (c : Cache K F) :
    (c.maybeEvict maxEntries key evictions).entry key = c.entry key ∧
      ∀ other entry, (c.maybeEvict maxEntries key evictions).entry other = some entry →
        c.entry other = some entry := by
  induction evictions generalizing c with
  | zero => exact ⟨rfl, fun _ _ hentry => hentry⟩
  | succ evictions ih =>
    rw [Cache.maybeEvict]
    split_ifs
    · cases hevicted : c.evictOne key with
      | none => exact ⟨rfl, fun _ _ hentry => hentry⟩
      | some evicted =>
        obtain ⟨hkey, hothers⟩ := evictOne_spec hevicted
        obtain ⟨hkept, hrest⟩ := ih evicted
        exact ⟨hkept.trans hkey, fun other entry hentry => hothers other entry (hrest other entry hentry)⟩
    · exact ⟨rfl, fun _ _ hentry => hentry⟩

/-- What an upload of a vector in use leaves: its entry is the one that was sent, and an
entry of another vector may be gone. -/
theorem upload_spec (c : Cache K F) (key : K) (limits : Limits) {s : State F} (hused : s.freeFrom ≠ 0) :
    ∃ entry, (entry = { vbo := [], uploadedFloats := none, lastUsed := 0 } ∨
        c.entry key = some entry) ∧
      (c.upload limits key s).2 = (entry.send (c.tick + 1) s).2 ∧
      (c.upload limits key s).1.entry key = some (entry.send (c.tick + 1) s).1 ∧
      ∀ other kept, other ≠ key → (c.upload limits key s).1.entry other = some kept →
        c.entry other = some kept := by
  unfold Cache.upload
  rw [if_neg hused]
  dsimp only
  obtain ⟨hkey, hothers⟩ := entry_ensureEntry ({ c with tick := c.tick + 1 } : Cache K F) key
  refine ⟨(({ c with tick := c.tick + 1 } : Cache K F).ensureEntry key).1, ?_, rfl, ?_, ?_⟩
  · unfold Cache.ensureEntry
    cases hentry : ({ c with tick := c.tick + 1 } : Cache K F).entry key with
    | some existing => exact .inr hentry
    | none => exact .inl rfl
  · rw [(maybeEvict_spec _ _ _ _).1, entry_putEntry, if_pos rfl, hkey]
    rfl
  · intro other kept hother hkept
    have hput := (maybeEvict_spec _ _ _ _).2 other kept hkept
    rw [entry_putEntry, if_neg hother, hothers other hother] at hput
    exact hput

end Entries

/-! ## What was sent -/

section Sent
variable {s t : State F} {entry : Entry F} {forgotten : List Nat}

/-- What the vector holds below both lengths is on the GPU, or marked, or forgotten. -/
structure Synced (s : State F) (entry : Entry F) (forgotten : List Nat) : Prop where
  uploaded : entry.uploadedFloats = some entry.vbo.length
  sent : ∀ position < s.freeFrom, position < entry.vbo.length → position ∉ forgotten →
    s.marked position = false → entry.vbo[position]? = some (s.buffer position)

/-- The upload's promise. -/
def Copied (s : State F) (entry : Entry F) : Prop :=
  ∀ position < s.freeFrom, entry.vbo[position]? = some (s.buffer position)

theorem marked_clearDirty (s : State F) (position : Nat) :
    s.clearDirty.marked position = false := by
  rw [Bool.eq_false_iff]
  intro hmarked
  exact (marked_iff.1 hmarked).1 rfl

theorem send_spec (tick : Nat)
    (hsynced : entry.uploadedFloats = none ∨ Synced s entry forgotten)
    (hforgotten : entry.uploadedFloats = some s.freeFrom → forgotten = []) :
    Copied (entry.send tick s).2 (entry.send tick s).1 ∧
      (entry.send tick s).1.uploadedFloats = some (entry.send tick s).1.vbo.length := by
  unfold Entry.send
  split_ifs with hlength hdirty
  · constructor
    · intro position hposition
      have hin : position < (List.range s.freeFrom).length := by
        rw [List.length_range]
        exact hposition
      dsimp only [State.used]
      rw [List.getElem?_map, List.getElem?_eq_getElem hin, List.getElem_range]
      rfl
    · dsimp only [State.used]
      rw [List.length_map, List.length_range]
  · have hsame : entry.uploadedFloats = some s.freeFrom := (not_not.1 hlength).symm
    have hkept := hsynced.resolve_left (by rw [hsame]; exact Option.some_ne_none _)
    have hwhole : entry.vbo.length = s.freeFrom :=
      Option.some.inj (hkept.uploaded.symm.trans hsame)
    constructor
    · intro position hposition
      have hin : position < entry.vbo.length := hwhole.symm ▸ hposition
      dsimp only [State.patched]
      rw [List.getElem?_mapIdx, List.getElem?_eq_getElem hin, Option.map_some]
      split_ifs with hmarked
      · rfl
      · have hsent := hkept.sent position hposition hin (by rw [hforgotten hsame]; exact List.not_mem_nil)
          (by simpa using hmarked)
        rwa [List.getElem?_eq_getElem hin] at hsent
    · dsimp only [State.patched]
      rw [List.length_mapIdx]
      exact hkept.uploaded
  · have hsame : entry.uploadedFloats = some s.freeFrom := (not_not.1 hlength).symm
    have hkept := hsynced.resolve_left (by rw [hsame]; exact Option.some_ne_none _)
    have hwhole : entry.vbo.length = s.freeFrom :=
      Option.some.inj (hkept.uploaded.symm.trans hsame)
    refine ⟨fun position hposition => ?_, hkept.uploaded⟩
    refine hkept.sent position hposition (hwhole.symm ▸ hposition)
      (by rw [hforgotten hsame]; exact List.not_mem_nil) ?_
    unfold State.marked
    rw [Bool.eq_false_iff.2 hdirty]
    rfl

theorem Copied.synced (h : Copied s entry) (huploaded : entry.uploadedFloats = some entry.vbo.length)
    (forgotten : List Nat) : Synced s entry forgotten :=
  ⟨huploaded, fun position hposition _ _ _ => h position hposition⟩

theorem fields_send (tick : Nat) (s : State F) (entry : Entry F) :
    (entry.send tick s).2 = s ∨ (entry.send tick s).2 = s.clearDirty := by
  unfold Entry.send
  split_ifs
  · exact .inr rfl
  · exact .inr rfl
  · exact .inl rfl

end Sent

/-! ## Runs -/

inductive Event (K F : Type) where
  | call (key : K) (action : Action F)
  | upload (key : K)
  | drop

/-- Beside the vectors and the cache stand, for each vector, the floats that an
allocation took back though they had changed since they were last sent, and that no
call has marked since. -/
structure World (K F : Type) where
  vectors : K → State F
  cache : Cache K F
  forgotten : K → List Nat

/-- What is forgotten after a call that may have taken back what lies beyond `lowest`. -/
def forget [DecidableEq F] (entry : Option (Entry F)) (lowest : Nat) (forgotten : List Nat)
    (t : State F) : List Nat :=
  match entry with
  | none => []
  | some entry => (List.range t.freeFrom).filter fun position =>
      t.marked position = false ∧ (position ∈ forgotten ∨
        lowest ≤ position ∧ entry.vbo[position]? ≠ some (t.buffer position))

section Worlds
variable [Zero F] [DecidableEq F]

namespace World

def step (allocates : Nat → Bool) (floats : Floats F) (limits : Limits) (w : World K F) :
    Event K F → World K F
  | .call key action =>
    let t := VectorBuffer.step allocates floats (w.vectors key) action
    { w with
      vectors := Function.update w.vectors key t
      forgotten := Function.update w.forgotten key
        (forget (w.cache.entry key) (action.lowest (w.vectors key)) (w.forgotten key) t) }
  | .upload key =>
    let sent := w.cache.upload limits key (w.vectors key)
    { vectors := Function.update w.vectors key sent.2
      cache := sent.1
      forgotten :=
        if (w.cache.entry key).bind Entry.uploadedFloats = some (w.vectors key).freeFrom then
          w.forgotten
        else Function.update w.forgotten key [] }
  | .drop => { w with cache := w.cache.drop }

def initial (sizes : K → Nat) : World K F where
  vectors key := State.initial (sizes key)
  cache := { entries := [], entryCount := 0, tick := 0 }
  forgotten _ := []

/-- No size wraps around, and a vector that is as long as when it was last sent is not
uploaded while floats of it are forgotten. -/
def Allowed (w : World K F) : Event K F → Prop
  | .call key action => action.Sized (w.vectors key)
  | .upload key =>
    (w.cache.entry key).bind Entry.uploadedFloats = some (w.vectors key).freeFrom →
      w.forgotten key = []
  | .drop => True

instance (w : World K F) : (event : Event K F) → Decidable (w.Allowed event)
  | .call key action => inferInstanceAs (Decidable (action.Sized (w.vectors key)))
  | .upload key => inferInstanceAs (Decidable
      ((w.cache.entry key).bind Entry.uploadedFloats = some (w.vectors key).freeFrom →
        w.forgotten key = []))
  | .drop => inferInstanceAs (Decidable True)

/-- An upload of a vector that is not empty leaves an entry that holds what it holds. -/
def Sends (allocates : Nat → Bool) (floats : Floats F) (limits : Limits) (w : World K F) :
    Event K F → Prop
  | .upload key => (w.vectors key).freeFrom ≠ 0 → ∃ entry,
      (w.step allocates floats limits (.upload key)).cache.entry key = some entry ∧
        Copied ((w.step allocates floats limits (.upload key)).vectors key) entry
  | _ => True

structure Kept (w : World K F) : Prop where
  sound : ∀ key, WellFormed (w.vectors key)
  synced : ∀ key entry, w.cache.entry key = some entry →
    Synced (w.vectors key) entry (w.forgotten key)

end World

theorem Synced.followed {s t : State F} {entry : Entry F} {forgotten : List Nat} {lowest : Nat}
    (h : Synced s entry forgotten) (hfollowed : Followed s t lowest) :
    Synced t entry (forget (some entry) lowest forgotten t) := by
  refine ⟨h.uploaded, fun position hposition huploaded hforgotten hunmarked => ?_⟩
  by_contra hdiffers
  have hnot : ¬ (position ∈ forgotten ∨
      lowest ≤ position ∧ entry.vbo[position]? ≠ some (t.buffer position)) := by
    intro hlost
    refine hforgotten (List.mem_filter.2 ⟨List.mem_range.2 hposition, ?_⟩)
    simpa using ⟨hunmarked, hlost⟩
  have hlow : position < lowest := by
    by_contra hhigh
    exact hnot (.inr ⟨Nat.le_of_not_lt hhigh, hdiffers⟩)
  obtain ⟨hbefore, hsame⟩ := hfollowed.shown position hposition hlow hunmarked
  refine hdiffers ?_
  rw [hsame]
  exact h.sent position (hfollowed.kept position hposition hlow) huploaded
    (fun hmem => hnot (.inl hmem)) hbefore

variable {w : World K F}

theorem World.Kept.call (allocates : Nat → Bool) (floats : Floats F) (limits : Limits) (h : w.Kept)
    {key : K} {action : Action F} (hsized : action.Sized (w.vectors key)) :
    (w.step allocates floats limits (.call key action)).Kept := by
  have hfollowed := hsized.followed allocates floats (h.sound key)
  constructor
  · intro other
    by_cases hother : other = key
    · subst hother
      dsimp only [World.step]
      rw [Function.update_self]
      exact hfollowed.sound
    · dsimp only [World.step]
      rw [Function.update_of_ne hother]
      exact h.sound other
  · intro other entry hentry
    have hkept : w.cache.entry other = some entry := hentry
    by_cases hother : other = key
    · subst hother
      dsimp only [World.step]
      rw [Function.update_self, Function.update_self, hkept]
      exact (h.synced other entry hkept).followed hfollowed
    · dsimp only [World.step]
      rw [Function.update_of_ne hother, Function.update_of_ne hother]
      exact h.synced other entry hkept

theorem upload_empty (c : Cache K F) (key : K) (limits : Limits) {s : State F}
    (hempty : s.freeFrom = 0) : c.upload limits key s = (c, s) := by
  unfold Cache.upload
  rw [if_pos hempty]

theorem sound_clearDirty {s : State F} (h : WellFormed s) : WellFormed s.clearDirty :=
  h.dirtied fun hdirty => by
    simp only [State.hasDirty, ne_eq, not_true_eq_false, false_and, decide_false] at hdirty
    cases hdirty

/-- What the entry of the vector satisfies before the upload. -/
theorem World.Kept.found (h : w.Kept) {key : K} {entry : Entry F}
    (hentry : entry = { vbo := [], uploadedFloats := none, lastUsed := 0 } ∨
      w.cache.entry key = some entry) :
    entry.uploadedFloats = none ∨ Synced (w.vectors key) entry (w.forgotten key) := by
  rcases hentry with hnew | hold
  · exact .inl (hnew ▸ rfl)
  · exact .inr (h.synced key entry hold)

theorem World.Kept.uploaded (limits : Limits) (h : w.Kept) {key : K} (hallowed : w.Allowed (.upload key))
    (hused : (w.vectors key).freeFrom ≠ 0) :
    ∃ entry, (w.cache.upload limits key (w.vectors key)).1.entry key = some entry ∧
      entry.uploadedFloats = some entry.vbo.length ∧
      Copied (w.cache.upload limits key (w.vectors key)).2 entry ∧
      WellFormed (w.cache.upload limits key (w.vectors key)).2 ∧
      ∀ other kept, other ≠ key →
        (w.cache.upload limits key (w.vectors key)).1.entry other = some kept →
          w.cache.entry other = some kept := by
  obtain ⟨entry, hentry, hvector, hsent, hothers⟩ :=
    upload_spec w.cache key limits hused
  have hforgotten : entry.uploadedFloats = some (w.vectors key).freeFrom → w.forgotten key = [] := by
    intro huploaded
    rcases hentry with hnew | hold
    · rw [hnew] at huploaded
      cases huploaded
    · refine hallowed ?_
      rw [hold]
      exact huploaded
  obtain ⟨hcopied, huploaded⟩ := send_spec (w.cache.tick + 1) (h.found hentry) hforgotten
  refine ⟨_, hsent, huploaded, ?_, ?_, hothers⟩
  · rw [hvector]
    exact hcopied
  · rw [hvector]
    rcases fields_send (w.cache.tick + 1) (w.vectors key) entry with hsame | hcleared
    · rw [hsame]
      exact h.sound key
    · rw [hcleared]
      exact sound_clearDirty (h.sound key)

theorem World.Kept.upload (allocates : Nat → Bool) (floats : Floats F) (limits : Limits) (h : w.Kept)
    {key : K} (hallowed : w.Allowed (.upload key)) :
    (w.step allocates floats limits (.upload key)).Kept ∧
      w.Sends allocates floats limits (.upload key) := by
  by_cases hused : (w.vectors key).freeFrom = 0
  · refine ⟨?_, fun hnonempty => absurd hused hnonempty⟩
    have hsame := upload_empty w.cache key limits hused
    constructor
    · intro other
      dsimp only [World.step]
      rw [hsame, Function.update_eq_self]
      exact h.sound other
    · intro other entry hentry
      dsimp only [World.step] at hentry ⊢
      rw [hsame] at hentry ⊢
      rw [Function.update_eq_self]
      have hsynced := h.synced other entry hentry
      refine ⟨hsynced.uploaded, fun position hposition huploaded hforgotten => ?_⟩
      refine hsynced.sent position hposition huploaded ?_
      split_ifs at hforgotten
      · exact hforgotten
      · by_cases hother : other = key
        · subst hother
          omega
        · rwa [Function.update_of_ne hother] at hforgotten
  · obtain ⟨entry, hentry, huploaded, hcopied, hsound, hothers⟩ := h.uploaded limits hallowed hused
    have hvector : (w.step allocates floats limits (.upload key)).vectors key =
        (w.cache.upload limits key (w.vectors key)).2 := Function.update_self ..
    refine ⟨⟨fun other => ?_, fun other kept hkept => ?_⟩, fun _ => ⟨entry, hentry, ?_⟩⟩
    · by_cases hother : other = key
      · subst hother
        rw [hvector]
        exact hsound
      · dsimp only [World.step]
        rw [Function.update_of_ne hother]
        exact h.sound other
    · by_cases hother : other = key
      · subst hother
        rw [hvector]
        obtain rfl : entry = kept := Option.some.inj (hentry.symm.trans hkept)
        exact hcopied.synced huploaded _
      · have hforgotten : (w.step allocates floats limits (.upload key)).forgotten other =
            w.forgotten other := by
          dsimp only [World.step]
          split_ifs
          · rfl
          · rw [Function.update_of_ne hother]
        rw [hforgotten]
        dsimp only [World.step]
        rw [Function.update_of_ne hother]
        exact h.synced other kept (hothers other kept hother hkept)
    · rw [hvector]
      exact hcopied

theorem World.Kept.step (allocates : Nat → Bool) (floats : Floats F) (limits : Limits) (h : w.Kept)
    {event : Event K F} (hallowed : w.Allowed event) :
    (w.step allocates floats limits event).Kept ∧ w.Sends allocates floats limits event := by
  cases event with
  | call key action => exact ⟨h.call allocates floats limits hallowed, trivial⟩
  | upload key => exact h.upload allocates floats limits hallowed
  | drop =>
    refine ⟨⟨h.sound, fun key entry hentry => ?_⟩, trivial⟩
    cases hentry

theorem World.kept_initial {sizes : K → Nat} (hsizes : ∀ key, sizes key ≤ maxSize) :
    (World.initial sizes : World K F).Kept := by
  constructor
  · exact fun key => wellFormed_initial (hsizes key)
  · intro key entry hentry
    cases hentry

/-- In a run whose events are all allowed every upload leaves on the GPU what the vector
holds. -/
theorem uploads_copy (allocates : Nat → Bool) (floats : Floats F) (limits : Limits)
    {sizes : K → Nat} (hsizes : ∀ key, sizes key ≤ maxSize) (events : List (Event K F))
    (hallowed : Along (World.step allocates floats limits) World.Allowed (World.initial sizes) events) :
    Along (World.step allocates floats limits) (World.Sends allocates floats limits)
      (World.initial sizes) events := by
  refine hallowed.imp (I := World.Kept) ?_ ?_ (World.kept_initial hsizes)
  · exact fun _ _ hkept hevent => (hkept.step allocates floats limits hevent).1
  · exact fun _ _ hkept hevent => (hkept.step allocates floats limits hevent).2

end Worlds

/-- A float that a deletion releases with its mark is set again before the next upload. -/
theorem uploads_copy_reset :
    Along (World.step (fun _ => true) ⟨fun first second => decide (first ≠ second), fun _ _ _ _ => 0⟩
        ⟨1, 1⟩)
      (World.Sends (fun _ => true) ⟨fun first second => decide (first ≠ second), fun _ _ _ _ => 0⟩
        ⟨1, 1⟩)
      (World.initial fun _ : Bool => 4)
      [.call true (.allocate 2), .upload true, .call true (.set (.float ⟨0, 2⟩ 1 (7 : Int))),
        .call true (.deleteHandle ⟨0, 2⟩), .call true (.allocate 2),
        .call true (.set (.floatsDiff ⟨0, 2⟩ 0 [3, 5])), .upload true] :=
  uploads_copy _ _ _ (by decide) _ (by decide)

/-- The same without setting it. -/
theorem upload_forgets :
    ¬ ∀ (allocates : Nat → Bool) (floats : Floats Int) (limits : Limits)
        (events : List (Event Bool Int)),
        Along (World.step allocates floats limits) (World.Sends allocates floats limits)
          (World.initial fun _ => 4) events := by
  intro hclaim
  have hsends := (hclaim (fun _ => true)
    ⟨fun first second => decide (first ≠ second), fun _ _ _ _ => 0⟩ ⟨1, 1⟩
    [.call true (.allocate 2), .upload true, .call true (.set (.float ⟨0, 2⟩ 1 7)),
      .call true (.deleteHandle ⟨0, 2⟩), .call true (.allocate 2), .upload true]).2.2.2.2.2.1
  obtain ⟨entry, hentry, hcopied⟩ := hsends (by decide)
  have hvbo : entry.vbo = [0, 0] := by
    cases hentry
    rfl
  have hsecond := hcopied 1 (by decide)
  rw [hvbo] at hsecond
  exact absurd hsecond (by decide)

end Space2.VectorBuffer
