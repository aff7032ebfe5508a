import Space2.Drawing.RasterLayer

/-!
# What a raster layer shows

A layer shows its tiles, those in memory and those in files that belong to it. Reading keeps what it
shows, and each operation is described by the tiles that are shown afterwards. None of them raises:
every file that belongs to the layer is there.
-/
namespace Space2.Drawing
open Base Base.Op

variable {size : Nat}

/-- The tiles that a layer shows. -/
abbrev Tiles (size : Nat) := TileKey → Option (Pixels size)

abbrev Files (size : Nat) := AList fun _ : TileKey => Pixels size

def Layer.tileAt (s : Layer size) : Tiles size := fun key =>
  (s.tiles.lookup key).or (if key ∈ s.persisted then s.files.lookup key else none)

/-- The layer shows these tiles over these files, and can load what it shows. -/
structure Shows (shown : Tiles size) (files : Files size) (s : Layer size) : Prop where
  tileAt : s.tileAt = shown
  files_eq : s.files = files
  loadable : ∀ key ∈ s.persisted, s.tiles.lookup key = none → (s.files.lookup key).isSome = true

theorem Layer.tileAt_of_some {s : Layer size} {key : TileKey} {pixels : Pixels size}
    (h : s.tiles.lookup key = some pixels) : s.tileAt key = some pixels := by
  rw [tileAt, h, Option.some_or]

theorem Layer.tileAt_of_none {s : Layer size} {key : TileKey} (h : s.tiles.lookup key = none) :
    s.tileAt key = if key ∈ s.persisted then s.files.lookup key else none := by
  rw [tileAt, h, Option.none_or]

/-! ## Changes of the state -/

@[simp] theorem Layer.lookup_setTile (s : Layer size) (key other : TileKey) (pixels : Pixels size) :
    (s.setTile key pixels).tiles.lookup other =
      if other = key then some pixels else s.tiles.lookup other := by
  split_ifs with h
  · subst h
    exact AList.lookup_insert s.tiles
  · exact AList.lookup_insert_ne h

@[simp] theorem Layer.mem_persist (s : Layer size) (key other : TileKey) :
    other ∈ (s.persist key).persisted ↔ other = key ∨ other ∈ s.persisted :=
  List.mem_insert_iff

@[simp] theorem Layer.lookup_forget (s : Layer size) (key other : TileKey) :
    (s.forget key).tiles.lookup other = if other = key then none else s.tiles.lookup other := by
  split_ifs with h
  · subst h
    exact AList.lookup_erase _ s.tiles
  · exact AList.lookup_erase_ne h

@[simp] theorem Layer.mem_forget (s : Layer size) (key other : TileKey) :
    other ∈ (s.forget key).persisted ↔ other ∈ s.persisted ∧ other ≠ key := by
  simp [forget]

variable {shown : Tiles size} {files : Files size}

/-- A tile in memory is shown, whatever the files are. -/
theorem Shows.setTile {s : Layer size} (h : Shows shown files s) (key : TileKey)
    (pixels : Pixels size) :
    Shows (Function.update shown key (some pixels)) files (s.setTile key pixels) where
  tileAt := by
    funext other
    rw [Function.update_apply, ← h.tileAt]
    by_cases hother : other = key
    · rw [if_pos hother, Layer.tileAt, Layer.lookup_setTile, if_pos hother, Option.some_or]
    · rw [if_neg hother, Layer.tileAt, Layer.lookup_setTile, if_neg hother]
      rfl
  files_eq := h.files_eq
  loadable := by
    intro other hother hnone
    rw [Layer.lookup_setTile] at hnone
    split_ifs at hnone
    exact h.loadable other hother hnone

theorem Shows.persist {s : Layer size} (h : Shows shown files s) {key : TileKey}
    (hkey : (s.tiles.lookup key).isSome = true) : Shows shown files (s.persist key) where
  tileAt := by
    rw [← h.tileAt]
    funext other
    obtain ⟨pixels, hpixels⟩ := Option.isSome_iff_exists.mp hkey
    by_cases hother : other = key
    · subst hother
      rw [Layer.tileAt_of_some hpixels, Layer.tileAt_of_some (s := s.persist other) hpixels]
    · simp only [Layer.tileAt, Layer.mem_persist, hother, false_or]
      rfl
  files_eq := h.files_eq
  loadable := by
    intro other hother hnone
    rcases (Layer.mem_persist s key other).mp hother with rfl | hother
    · rw [show s.tiles.lookup other = none from hnone] at hkey
      cases hkey
    · exact h.loadable other hother hnone

theorem Shows.forget {s : Layer size} (h : Shows shown files s) (key : TileKey) :
    Shows (Function.update shown key none) files (s.forget key) where
  tileAt := by
    funext other
    rw [Function.update_apply, ← h.tileAt]
    by_cases hother : other = key
    · rw [if_pos hother, Layer.tileAt, Layer.lookup_forget, if_pos hother, Option.none_or, if_neg]
      exact fun hmem => ((Layer.mem_forget s key other).mp hmem).2 hother
    · rw [if_neg hother, Layer.tileAt, Layer.lookup_forget, if_neg hother]
      simp only [Layer.mem_forget, ne_eq, hother, not_false_eq_true, and_true]
      rfl
  files_eq := h.files_eq
  loadable := by
    intro other hother hnone
    obtain ⟨hmem, hne⟩ := (Layer.mem_forget s key other).mp hother
    rw [Layer.lookup_forget, if_neg hne] at hnone
    exact h.loadable other hmem hnone

/-! ## Reading -/

/-- Never raised. -/
def Never (_ : Layer size) : Prop := False

theorem Shows.file {s : Layer size} (h : Shows shown files s) {key : TileKey}
    (hkey : key ∈ s.persisted) (hnone : s.tiles.lookup key = none) :
    ∃ pixels, s.files.lookup key = some pixels ∧ shown key = some pixels := by
  obtain ⟨pixels, hpixels⟩ := Option.isSome_iff_exists.mp (h.loadable key hkey hnone)
  refine ⟨pixels, hpixels, ?_⟩
  rw [← h.tileAt, Layer.tileAt_of_none hnone, if_pos hkey, hpixels]

theorem loadTileBytes_run {s : Layer size} {key : TileKey} {pixels : Pixels size}
    (h : s.files.lookup key = some pixels) : loadTileBytes key s = (.ok pixels, s) := by
  rw [loadTileBytes, get_bind_run, h]
  rfl

theorem loadPersistedTile_run {s : Layer size} (h : Shows shown files s) (key : TileKey) :
    ∃ s', loadPersistedTile key s = (.ok (shown key), s') ∧ Shows shown files s' := by
  rw [loadPersistedTile, get_bind_run]
  cases htile : s.tiles.lookup key with
  | some pixels =>
    refine ⟨s, ?_, h⟩
    rw [← h.tileAt, Layer.tileAt_of_some htile]
    rfl
  | none =>
    simp only
    split_ifs with hkey
    · obtain ⟨pixels, hfile, hshown⟩ := h.file hkey htile
      refine ⟨s.setTile key pixels, ?_, ?_⟩
      · rw [bind_ok (loadTileBytes_run hfile), hshown]
        rfl
      · have hset := h.setTile key pixels
        rwa [← hshown, Function.update_eq_self] at hset
    · refine ⟨s, ?_, h⟩
      rw [← h.tileAt, Layer.tileAt_of_none htile, if_neg hkey]
      rfl

theorem loadPersistedTile_spec (key : TileKey) :
    Ensures (Shows shown files) (loadPersistedTile key)
      (fun bytes s => Shows shown files s ∧ bytes = shown key) Never :=
  ensures_of_run fun _ hs =>
    have ⟨s', hrun, hs'⟩ := loadPersistedTile_run hs key
    ⟨shown key, s', hrun, hs', rfl⟩

/-- The tile that painting starts from: a file is read even where it no longer belongs to the
layer. -/
def ground (shown : Tiles size) (files : Files size) (key : TileKey) : Pixels size :=
  (shown key).getD ((files.lookup key).getD (blank size))

theorem ensureTile_run {s : Layer size} (h : Shows shown files s) (key : TileKey) :
    ∃ s', ensureTile key s = (.ok (ground shown files key), s') ∧
      Shows (Function.update shown key (some (ground shown files key))) files s' ∧
      (s'.tiles.lookup key).isSome = true := by
  rw [ensureTile, get_bind_run]
  cases htile : s.tiles.lookup key with
  | some pixels =>
    have hshown : shown key = some pixels := by rw [← h.tileAt, Layer.tileAt_of_some htile]
    have hground : ground shown files key = pixels := by rw [ground, hshown, Option.getD_some]
    refine ⟨s, by rw [hground]; rfl, ?_, by rw [htile]; rfl⟩
    rwa [hground, ← hshown, Function.update_eq_self]
  | none =>
    simp only
    split_ifs with hkey
    · have hfile : ∃ pixels, s.files.lookup key = some pixels ∧
          ground shown files key = pixels := by
        by_cases hpersisted : key ∈ s.persisted
        · obtain ⟨pixels, hfile, hshown⟩ := h.file hpersisted htile
          exact ⟨pixels, hfile, by rw [ground, hshown, Option.getD_some]⟩
        · obtain ⟨pixels, hfile⟩ := Option.isSome_iff_exists.mp (hkey.resolve_left hpersisted)
          refine ⟨pixels, hfile, ?_⟩
          rw [ground, ← h.tileAt, Layer.tileAt_of_none htile, if_neg hpersisted, ← h.files_eq,
            hfile]
          rfl
      obtain ⟨pixels, hfile, hground⟩ := hfile
      refine ⟨(s.setTile key pixels).persist key, ?_, ?_, ?_⟩
      · rw [bind_ok (loadTileBytes_run hfile), hground]
        rfl
      · rw [hground]
        exact (h.setTile key pixels).persist (by simp)
      · change ((s.setTile key pixels).tiles.lookup key).isSome = true
        simp
    · simp only [not_or, Bool.not_eq_true, Option.isSome_eq_false_iff,
        Option.isNone_iff_eq_none] at hkey
      have hground : ground shown files key = blank size := by
        rw [ground, ← h.tileAt, Layer.tileAt_of_none htile, if_neg hkey.1, ← h.files_eq, hkey.2]
        rfl
      refine ⟨s.setTile key (blank size), by rw [hground]; rfl, ?_, by simp⟩
      rw [hground]
      exact h.setTile key (blank size)

theorem ensures_load (keys : List TileKey) :
    Ensures (Shows shown files) (captureBytes keys)
      (fun captured s => Shows shown files s ∧ captured = keys.map fun key => ⟨key, shown key⟩)
      Never := by
  induction keys with
  | nil => exact ensures_pure fun _ hs => ⟨hs, rfl⟩
  | cons key keys ih =>
    refine ensures_bind (loadPersistedTile_spec key) fun bytes => ensures_given fun hbytes => ?_
    refine ensures_bind ih fun rest => ensures_given fun hrest => ?_
    exact ensures_pure fun _ hs => ⟨hs, by rw [hbytes, hrest]; rfl⟩

/-- Captured tiles that are the ones shown, each at least once. -/
def Captures (shown : Tiles size) (keys : List TileKey) (captured : List (Captured size)) : Prop :=
  captured.Perm (keys.map fun key => ⟨key, shown key⟩)

theorem Captures.keys {keys : List TileKey} {captured : List (Captured size)}
    (h : Captures shown keys captured) : (captured.map Captured.tile).Perm keys := by
  have hmap := h.map Captured.tile
  rwa [List.map_map, show Captured.tile ∘ (fun key => (⟨key, shown key⟩ : Captured size)) = id
    from rfl, List.map_id] at hmap

theorem captureExistingBytes_spec (keys : List TileKey) :
    Ensures (Shows shown files) (captureExistingBytes keys)
      (fun captured s => Shows shown files s ∧ Captures shown keys captured) Never := by
  refine ensures_bind (ensures_load keys) fun captured => ensures_given fun hcaptured => ?_
  exact ensures_pure fun _ hs => ⟨hs, hcaptured ▸ tableSort_perm _ _⟩

/-! ## Applying what was captured -/

/-- The tiles of a capture in place of those shown. -/
def restored (shown captured : Tiles size) (keys : List TileKey) : Tiles size := fun key =>
  if key ∈ keys then captured key else shown key

theorem restored_cons (shown captured : Tiles size) (key : TileKey) (keys : List TileKey) :
    restored (Function.update shown key (captured key)) captured keys =
      restored shown captured (key :: keys) := by
  funext other
  by_cases hother : other = key
  · subst hother
    simp [restored]
  · simp [restored, hother]

theorem applyCapturedBytes_spec {captured : Tiles size} {entries : List (Captured size)}
    (h : ∀ entry ∈ entries, entry.bytes = captured entry.tile) :
    Ensures (Shows shown files) (applyCapturedBytes entries)
      (fun _ => Shows (restored shown captured (entries.map Captured.tile)) files) Never := by
  induction entries generalizing shown with
  | nil => exact ensures_pure fun _ hs => hs
  | cons entry entries ih =>
    have hone : Ensures (Shows shown files) (applyCaptured entry)
        (fun _ => Shows (Function.update shown entry.tile (captured entry.tile)) files) Never := by
      rw [← h entry List.mem_cons_self, applyCaptured]
      cases entry.bytes with
      | none => exact ensures_modify fun _ hs => hs.forget entry.tile
      | some bytes =>
        refine ensures_of_run fun s hs => ?_
        obtain ⟨s', hrun, hshows, -⟩ := ensureTile_run hs entry.tile
        refine ⟨(), (s'.setTile entry.tile bytes).persist entry.tile, ?_, ?_⟩
        · simp only
          rw [bind_ok hrun]
          rfl
        · have hmemory : ((s'.setTile entry.tile bytes).tiles.lookup entry.tile).isSome = true := by
            rw [Layer.lookup_setTile, if_pos rfl]
            rfl
          have hset := (hshows.setTile entry.tile bytes).persist hmemory
          rwa [Function.update_idem] at hset
    refine ensures_bind hone fun _ => ?_
    rw [List.map_cons, ← restored_cons]
    exact ih fun other hother => h other (List.mem_cons_of_mem entry hother)

/-! ## Pixels -/

section Pixels
variable [NeZero size]

/-- What is shown at a point. -/
def pixelAt (shown : Tiles size) (point : Int × Int) : Rgba :=
  match shown (tileKey size point) with
  | some pixels => pixels.get (pixelIndex size point)
  | none => .transparent

theorem pixelIndex_injective {point other : Int × Int}
    (hkey : tileKey size point = tileKey size other)
    (hindex : pixelIndex size point = pixelIndex size other) : point = other := by
  have hsize : 0 < (size : Int) := by exact_mod_cast NeZero.pos size
  have hbound : ∀ z : Int, (z % size).toNat < size := by
    intro z
    have hlt := Int.emod_lt_of_pos z hsize
    omega
  have hvalue : (point.2 % size).toNat * size + (point.1 % size).toNat =
      (other.2 % size).toNat * size + (other.1 % size).toNat := congrArg Fin.val hindex
  have hx : (point.1 % size).toNat = (other.1 % size).toNat := by
    have hmod := congrArg (· % size) hvalue
    simpa [Nat.add_mod, Nat.mul_mod, Nat.mod_eq_of_lt (hbound _)] using hmod
  have hy : (point.2 % size).toNat = (other.2 % size).toNat := by
    rw [hx, Nat.add_right_cancel_iff] at hvalue
    exact Nat.eq_of_mul_eq_mul_right (NeZero.pos size) hvalue
  have hsame : ∀ y z : Int, y / size = z / size → (y % size).toNat = (z % size).toNat → y = z := by
    intro y z hdiv hmod
    have hy := Int.emod_nonneg y hsize.ne'
    have hz := Int.emod_nonneg z hsize.ne'
    rw [← Int.mul_ediv_add_emod y size, ← Int.mul_ediv_add_emod z size, hdiv]
    omega
  exact Prod.ext (hsame _ _ (congrArg Prod.fst hkey) hx) (hsame _ _ (congrArg Prod.snd hkey) hy)

/-- A point that is painted changes alone when its tile is shown. -/
theorem pixelAt_update (shown : Tiles size) (point other : Int × Int) (pixels : Pixels size)
    (paint : Rgba → Rgba) :
    pixelAt (Function.update shown (tileKey size point) (some (repaint pixels point paint))) other =
      if other = point then paint (pixels.get (pixelIndex size point))
      else if tileKey size other = tileKey size point then pixels.get (pixelIndex size other)
      else pixelAt shown other := by
  unfold pixelAt
  rw [Function.update_apply]
  by_cases hkey : tileKey size other = tileKey size point
  · rw [if_pos hkey, if_pos hkey]
    split_ifs with hpoint
    · subst hpoint
      exact (Vector.get_eq_getElem _ _).trans (Vector.getElem_set_self _)
    · have hindex : (pixelIndex size point).val ≠ (pixelIndex size other).val := fun h =>
        hpoint (pixelIndex_injective hkey (Fin.ext h.symm))
      exact (Vector.get_eq_getElem _ _).trans ((Vector.getElem_set_ne _ _ hindex).trans
        (Vector.get_eq_getElem _ _).symm)
  · rw [if_neg hkey, if_neg hkey, if_neg fun h => hkey (by rw [h])]

theorem getPixelRgba_spec (point : Int × Int) :
    Ensures (Shows shown files) (getPixelRgba point)
      (fun rgba s => Shows shown files s ∧ rgba = pixelAt shown point) Never := by
  refine ensures_bind (loadPersistedTile_spec _) fun bytes => ensures_given fun hbytes => ?_
  subst hbytes
  unfold pixelAt
  cases shown (tileKey size point) with
  | none => exact ensures_pure fun _ hs => ⟨hs, rfl⟩
  | some pixels => exact ensures_pure fun _ hs => ⟨hs, rfl⟩

/-! ## Painting -/

def painted (shown : Tiles size) (files : Files size) (point : Int × Int) (paint : Rgba → Rgba) :
    Tiles size :=
  Function.update shown (tileKey size point)
    (some (repaint (ground shown files (tileKey size point)) point paint))

theorem paintPixel_spec (point : Int × Int) (paint : Rgba → Rgba) :
    Ensures (Shows shown files) (paintPixel point paint)
      (fun _ => Shows (painted shown files point paint) files) Never := by
  refine ensures_of_run fun s hs => ?_
  obtain ⟨s', hrun, hshows, -⟩ := ensureTile_run hs (tileKey size point)
  have hset := hshows.setTile (tileKey size point)
    (repaint (ground shown files (tileKey size point)) point paint)
  rw [Function.update_idem] at hset
  refine ⟨(), _, ?_, hset⟩
  rw [paintPixel, bind_ok hrun]
  rfl

theorem painted_other {point : Int × Int} {paint : Rgba → Rgba} {key : TileKey}
    (h : key ≠ tileKey size point) : painted shown files point paint key = shown key :=
  Function.update_of_ne h _ _

/-! ## Pruning -/

omit [NeZero size] in
theorem pixelAt_of_empty {pixels : Pixels size} (h : tileEmpty pixels = true)
    (index : Fin (size * size)) : pixels.get index = .transparent := by
  have hzero : (pixels.get index).alpha = 0 := by
    rw [tileEmpty, Vector.all_eq_true] at h
    simpa [Vector.get_eq_getElem] using h index.val index.isLt
  obtain ⟨hred, hgreen, hblue⟩ := (pixels.get index).premultiplied hzero
  cases hpixel : pixels.get index with
  | mk red green blue alpha premultiplied =>
    rw [hpixel] at hzero hred hgreen hblue
    subst hzero hred hgreen hblue
    rfl

/-- A tile without a visible pixel may as well not be shown. -/
theorem pixelAt_forget {key : TileKey} {pixels : Pixels size} (hkey : shown key = some pixels)
    (h : tileEmpty pixels = true) : pixelAt (Function.update shown key none) = pixelAt shown := by
  funext point
  unfold pixelAt
  by_cases hpoint : tileKey size point = key
  · rw [hpoint, Function.update_self, hkey]
    exact (pixelAt_of_empty h _).symm
  · rw [Function.update_of_ne hpoint]

/-- Other tiles are left as they are, and what is seen is the same. -/
structure Pruned (keys : List TileKey) (shown pruned : Tiles size) : Prop where
  frame : ∀ key, key ∉ keys → pruned key = shown key
  same : pixelAt pruned = pixelAt shown

theorem pruneEmptyTiles_spec (keys : List TileKey) :
    Ensures (Shows shown files) (pruneEmptyTiles keys)
      (fun _ s => ∃ pruned, Shows pruned files s ∧ Pruned keys shown pruned) Never := by
  have hstart : Ensures (fun s => ∃ pruned, Shows pruned files s ∧ Pruned keys shown pruned)
      (pruneEmptyTiles keys) (fun _ s => ∃ pruned, Shows pruned files s ∧
        Pruned keys shown pruned) Never := by
    refine ensures_forEach_inv fun key hkey => ensures_modify ?_
    rintro s ⟨pruned, hs, hpruned⟩
    cases htile : s.tiles.lookup key with
    | none => exact ⟨pruned, hs, hpruned⟩
    | some pixels =>
      simp only
      split_ifs with hempty
      · have hshown : pruned key = some pixels := by
          rw [← hs.tileAt, Layer.tileAt_of_some htile]
        refine ⟨_, hs.forget key, fun other hother => ?_, ?_⟩
        · have hne : other ≠ key := fun h => hother (h.symm ▸ hkey)
          rw [Function.update_of_ne hne]
          exact hpruned.frame other hother
        · rw [pixelAt_forget hshown hempty, hpruned.same]
      · exact ⟨pruned, hs, hpruned⟩
  exact hstart.weaken (fun s hs => ⟨shown, hs, fun _ _ => rfl, rfl⟩) (fun _ _ h => h)
    fun _ h => h

/-! ## Patches -/

/-- An edit that only touches these tiles. -/
def Touches (keys : List TileKey) (shown : Tiles size) (files : Files size)
    (edit : Op (Layer size) Unit) (Q : Tiles size → Prop) : Prop :=
  Ensures (Shows shown files) edit (fun _ s => ∃ edited, Shows edited files s ∧
    (∀ key, key ∉ keys → edited key = shown key) ∧ Q edited) Never

/-- What a patch knows of an edit: the tiles before and the tiles after, and no other tile has
changed. -/
structure Records (keys : List TileKey) (shown later : Tiles size) (patch : Patch size) : Prop where
  before : Captures shown keys patch.before
  after : Captures later keys patch.after
  frame : ∀ key, key ∉ keys → later key = shown key
  changed : patch.changed = true

theorem patched_spec {keys : List TileKey} {bounds : Option Bounds} {edit : Op (Layer size) Unit}
    {Q : Tiles size → Prop} (h : Touches keys shown files edit Q) :
    Ensures (Shows shown files) (patched keys bounds edit)
      (fun patch s => ∃ later, Shows later files s ∧ Records keys shown later patch ∧
        ∃ edited, pixelAt later = pixelAt edited ∧ Q edited) Never := by
  refine ensures_bind (captureExistingBytes_spec keys) fun before => ensures_given fun hbefore => ?_
  refine ensures_bind h fun _ => ensures_exists fun edited => ?_
  have hprune : Ensures (fun s => Shows edited files s ∧
      (∀ key, key ∉ keys → edited key = shown key) ∧ Q edited) (pruneEmptyTiles keys)
      (fun _ s => ∃ later, Shows later files s ∧ Pruned keys edited later ∧
        (∀ key, key ∉ keys → edited key = shown key) ∧ Q edited) Never := by
    refine ensures_given fun hedited => (pruneEmptyTiles_spec keys).weaken (fun _ hs => hs) ?_
      fun _ h => h
    rintro - s ⟨later, hs, hpruned⟩
    exact ⟨later, hs, hpruned, hedited⟩
  refine ensures_bind hprune fun _ => ensures_exists fun later => ensures_given ?_
  rintro ⟨hpruned, hframe, hQ⟩
  refine ensures_bind (ensures_load (before.map Captured.tile)) fun after =>
    ensures_given fun hafter => ensures_pure fun s hs => ?_
  refine ⟨later, hs, ⟨hbefore, hafter ▸ hbefore.keys.map _, fun key hkey => ?_, rfl⟩, edited,
    hpruned.same, hQ⟩
  rw [hpruned.frame key hkey, hframe key hkey]

/-! ## Turning back and forth -/

/-- What can be seen at every point. -/
abbrev PixelMap := Int × Int → Rgba

/-- To apply these captured tiles where the one map is seen makes the other one seen. -/
def Turns (entries : List (Captured size)) (seen next : PixelMap) : Prop :=
  ∀ (shown : Tiles size) (files : Files size), pixelAt shown = seen →
    Ensures (Shows shown files) (applyCapturedBytes entries)
      (fun _ s => ∃ later, Shows later files s ∧ pixelAt later = next) Never

theorem Captures.turns {keys : List TileKey} {entries : List (Captured size)} {later : Tiles size}
    (h : Captures later keys entries) (hframe : ∀ key, key ∉ keys → later key = shown key) :
    Turns entries (pixelAt shown) (pixelAt later) := by
  intro now files hnow
  have hentries : ∀ entry ∈ entries, entry.bytes = later entry.tile := by
    intro entry hentry
    obtain ⟨key, -, rfl⟩ := List.mem_map.mp (h.mem_iff.mp hentry)
    rfl
  refine (applyCapturedBytes_spec hentries).weaken (fun _ hs => hs) (fun _ s hs => ?_) fun _ h => h
  refine ⟨_, hs, funext fun point => ?_⟩
  have hmem := h.keys.mem_iff (a := tileKey size point)
  unfold pixelAt restored
  by_cases hkey : tileKey size point ∈ entries.map Captured.tile
  · rw [if_pos hkey]
  · rw [if_neg hkey, hframe _ fun h => hkey (hmem.mpr h)]
    exact congrFun hnow point

theorem Records.back {keys : List TileKey} {later : Tiles size} {patch : Patch size}
    (h : Records keys shown later patch) :
    Turns patch.before (pixelAt later) (pixelAt shown) :=
  h.before.turns fun key hkey => (h.frame key hkey).symm

theorem Records.forth {keys : List TileKey} {later : Tiles size} {patch : Patch size}
    (h : Records keys shown later patch) :
    Turns patch.after (pixelAt shown) (pixelAt later) := h.after.turns h.frame

end Pixels

end Space2.Drawing
