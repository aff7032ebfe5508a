import Space2.Base.Runs
import Space2.Drawing.RasterEdits

/-!
# Raster layers and their files

Saving writes what is shown and leaves nothing else, so a layer that is opened again shows what was
saved. Over whole runs a layer is two maps of pixels, the one that is seen and the one that was
saved last, as long as no edit touches a tile that was emptied since then.
-/
namespace Space2.Drawing
open Base Base.Op

variable {size : Nat} {shown : Tiles size} {files : Files size} {s : Layer size}

/-! ## Saving -/

theorem Shows.eraseFile (h : Shows shown files s) {key : TileKey} (hkey : key ∉ s.persisted) :
    Shows shown (files.erase key) { s with files := s.files.erase key } where
  tileAt := by
    rw [← h.tileAt]
    funext other
    by_cases hother : other = key
    · subst hother
      simp only [Layer.tileAt, if_neg hkey]
    · simp only [Layer.tileAt, AList.lookup_erase_ne hother]
  files_eq := by rw [h.files_eq]
  loadable := by
    intro other hmem hnone
    have hother : other ≠ key := fun heq => hkey (heq ▸ hmem)
    change ((s.files.erase key).lookup other).isSome = true
    rw [AList.lookup_erase_ne hother]
    exact h.loadable other hmem hnone

theorem Shows.writeFile (h : Shows shown files s) {key : TileKey} {pixels : Pixels size}
    (hkey : s.tiles.lookup key = some pixels) :
    Shows shown (files.insert key pixels)
      { s.persist key with files := s.files.insert key pixels } where
  tileAt := by
    rw [← h.tileAt]
    funext other
    by_cases hother : other = key
    · subst hother
      rw [Layer.tileAt_of_some hkey]
      exact Layer.tileAt_of_some hkey
    · have hmem : other ∈ (s.persist key).persisted ↔ other ∈ s.persisted := by
        rw [Layer.mem_persist]
        exact ⟨fun hor => hor.resolve_left hother, .inr⟩
      simp only [Layer.tileAt, hmem, AList.lookup_insert_ne hother]
      rfl
  files_eq := by rw [h.files_eq]
  loadable := by
    intro other hmem hnone
    by_cases hother : other = key
    · subst hother
      rw [show s.tiles.lookup other = none from hnone] at hkey
      cases hkey
    · rw [AList.lookup_insert_ne hother]
      exact h.loadable other (((Layer.mem_persist s key other).mp hmem).resolve_left hother) hnone

/-- A tile in memory is in its file, and the file belongs to the layer. -/
def Layer.Saved (s : Layer size) (key : TileKey) : Prop :=
  ∀ pixels, s.tiles.lookup key = some pixels →
    key ∈ s.persisted ∧ s.files.lookup key = some pixels

/-- Once every tile is saved, what is shown is what lies in the files that belong to the layer. -/
theorem Layer.tileAt_of_saved (h : ∀ key, s.Saved key) (key : TileKey) :
    s.tileAt key = if key ∈ s.persisted then s.files.lookup key else none := by
  cases htile : s.tiles.lookup key with
  | none => exact Layer.tileAt_of_none htile
  | some pixels =>
    obtain ⟨hmem, hfile⟩ := h key pixels htile
    rw [Layer.tileAt_of_some htile, if_pos hmem, hfile]

section Pixels
variable [NeZero size]

/-- While tiles are written: what is seen stays, and the tiles that were written are saved. -/
structure Saving (seen : PixelMap) (keys done : List TileKey) (s : Layer size) : Prop where
  loadable : s.Loadable
  seen : s.pixels = seen
  saved : ∀ key ∈ done, s.Saved key
  keys : ∀ key, (s.tiles.lookup key).isSome = true → key ∈ keys

theorem Saving.forget {seen : PixelMap} {keys done : List TileKey} (h : Saving seen keys done s)
    {key : TileKey} {pixels : Pixels size} (hkey : s.tiles.lookup key = some pixels)
    (hempty : tileEmpty pixels = true) :
    Saving seen keys (done ++ [key]) { s.forget key with files := s.files.erase key } := by
  have hunpersisted : key ∉ (s.forget key).persisted := fun hmem =>
    ((Layer.mem_forget s key key).mp hmem).2 rfl
  have hshows := (h.loadable.shows.forget key).eraseFile hunpersisted
  have htiles : ∀ other pixels, (s.forget key).tiles.lookup other = some pixels →
      other ≠ key ∧ s.tiles.lookup other = some pixels := by
    intro other found hfound
    rw [Layer.lookup_forget] at hfound
    by_cases hother : other = key
    · rw [if_pos hother] at hfound
      cases hfound
    · rw [if_neg hother] at hfound
      exact ⟨hother, hfound⟩
  refine ⟨hshows.of_loadable, ?_, fun other hother found hfound => ?_, fun other hother => ?_⟩
  · refine hshows.pixels.trans ?_
    rw [pixelAt_forget (Layer.tileAt_of_some hkey) hempty]
    exact h.seen
  · obtain ⟨hne, htile⟩ := htiles other found hfound
    have hdone : other ∈ done :=
      (List.mem_append.mp hother).resolve_right fun hmem => hne (List.mem_singleton.mp hmem)
    obtain ⟨hmem, hfile⟩ := h.saved other hdone found htile
    exact ⟨(Layer.mem_forget s key other).mpr ⟨hmem, hne⟩,
      (AList.lookup_erase_ne hne).trans hfile⟩
  · obtain ⟨found, hfound⟩ := Option.isSome_iff_exists.mp hother
    exact h.keys other (Option.isSome_iff_exists.mpr ⟨found, (htiles other found hfound).2⟩)

theorem Saving.write {seen : PixelMap} {keys done : List TileKey} (h : Saving seen keys done s)
    {key : TileKey} {pixels : Pixels size} (hkey : s.tiles.lookup key = some pixels) :
    Saving seen keys (done ++ [key])
      { s.persist key with files := s.files.insert key pixels } := by
  have hshows := h.loadable.shows.writeFile hkey
  refine ⟨hshows.of_loadable, hshows.pixels.trans h.seen, fun other hother found hfound => ?_,
    h.keys⟩
  by_cases hne : other = key
  · subst hne
    rw [show s.tiles.lookup other = some found from hfound] at hkey
    cases hkey
    exact ⟨(Layer.mem_persist s other other).mpr (.inl rfl), AList.lookup_insert _⟩
  · have hdone : other ∈ done :=
      (List.mem_append.mp hother).resolve_right fun hmem => hne (List.mem_singleton.mp hmem)
    obtain ⟨hmem, hfile⟩ := h.saved other hdone found hfound
    exact ⟨(Layer.mem_persist s key other).mpr (.inr hmem),
      (AList.lookup_insert_ne hne).trans hfile⟩

theorem Saving.skip {seen : PixelMap} {keys done : List TileKey} (h : Saving seen keys done s)
    {key : TileKey} (hkey : s.tiles.lookup key = none) : Saving seen keys (done ++ [key]) s := by
  refine ⟨h.loadable, h.seen, fun other hother found hfound => ?_, h.keys⟩
  rcases List.mem_append.mp hother with hdone | hlast
  · exact h.saved other hdone found hfound
  · rw [List.mem_singleton.mp hlast, hkey] at hfound
    cases hfound

theorem saveTile_spec (seen : PixelMap) (keys done : List TileKey) (key : TileKey) :
    Ensures (fun s : Layer size => Saving seen keys done s) (saveTile key)
      (fun _ => Saving seen keys (done ++ [key])) Never := by
  refine ensures_modify fun t ht => ?_
  cases hkey : t.tiles.lookup key with
  | none => exact ht.skip hkey
  | some pixels =>
    simp only
    split_ifs with hempty
    · exact ht.forget hkey hempty
    · exact ht.write hkey

/-- While files are removed: the files that were looked at belong to the layer if they are there. -/
structure Cleaning (shown : Tiles size) (keys done : List TileKey) (s : Layer size) : Prop where
  shows : Shows shown s.files s
  saved : ∀ key, s.Saved key
  own : ∀ key ∈ done, (s.files.lookup key).isSome = true → key ∈ s.persisted
  keys : ∀ key, (s.files.lookup key).isSome = true → key ∈ keys

omit [NeZero size] in
theorem removeForeign_spec (shown : Tiles size) (keys done : List TileKey) (key : TileKey) :
    Ensures (Cleaning shown keys done) (removeForeign key)
      (fun _ => Cleaning shown keys (done ++ [key])) Never := by
  refine ensures_modify fun t ht => ?_
  split_ifs with hkey
  · refine ⟨ht.shows, ht.saved, fun other hother hfile => ?_, ht.keys⟩
    rcases List.mem_append.mp hother with hdone | hlast
    · exact ht.own other hdone hfile
    · rwa [List.mem_singleton.mp hlast]
  · have hfiles : ∀ other, other ≠ key → (t.files.erase key).lookup other = t.files.lookup other :=
      fun other hother => AList.lookup_erase_ne hother
    have hgone : (t.files.erase key).lookup key = none := AList.lookup_erase key t.files
    refine ⟨ht.shows.eraseFile hkey, fun other pixels hpixels => ?_, fun other hother hfile => ?_,
      fun other hfile => ?_⟩
    · obtain ⟨hmem, hfile⟩ := ht.saved other pixels hpixels
      exact ⟨hmem, (hfiles other fun heq => hkey (heq ▸ hmem)).trans hfile⟩
    · by_cases hne : other = key
      · rw [hne] at hfile
        change ((t.files.erase key).lookup key).isSome = true at hfile
        rw [hgone] at hfile
        cases hfile
      · have hdone : other ∈ done :=
          (List.mem_append.mp hother).resolve_right fun hmem => hne (List.mem_singleton.mp hmem)
        refine ht.own other hdone ?_
        rw [← hfiles other hne]
        exact hfile
    · by_cases hne : other = key
      · rw [hne] at hfile
        change ((t.files.erase key).lookup key).isSome = true at hfile
        rw [hgone] at hfile
        cases hfile
      · refine ht.keys other ?_
        rw [← hfiles other hne]
        exact hfile

/-- Saving keeps what is seen, and the files are what is shown. -/
theorem save_spec :
    Ensures (Shows shown files) save (fun _ s => ∃ later filed, Shows later filed s ∧
      pixelAt later = pixelAt shown ∧ ∀ key, filed.lookup key = later key) Never := by
  refine ensures_get fun s hs => ?_
  have hstart : Saving (pixelAt shown) s.tiles.keys [] s :=
    ⟨hs.of_loadable, hs.pixels, by simp, fun key hkey => AList.mem_keys.mp
      (AList.lookup_isSome.mp hkey)⟩
  have hwritten : Ensures (fun t : Layer size => Saving (pixelAt shown) s.tiles.keys [] t)
      (forEach s.tiles.keys saveTile)
      (fun _ t => Saving (pixelAt shown) s.tiles.keys s.tiles.keys t) Never :=
    ensures_forEach fun done key _ _ => saveTile_spec _ _ done key
  refine ensures_bind (hwritten.weaken (fun t ht => by rwa [ht]) (fun _ _ h => h) fun _ h => h)
    fun _ => ensures_get fun t ht => ?_
  have hsaved : ∀ key, t.Saved key := fun key pixels hpixels =>
    ht.saved key (ht.keys key (by rw [hpixels]; rfl)) pixels hpixels
  have hclean : Ensures (Cleaning t.tileAt t.files.keys []) (forEach t.files.keys removeForeign)
      (fun _ => Cleaning t.tileAt t.files.keys t.files.keys) Never :=
    ensures_forEach fun done key _ _ => removeForeign_spec _ _ done key
  refine hclean.weaken ?_ ?_ fun _ h => h
  · rintro u rfl
    exact ⟨ht.loadable.shows, hsaved, by simp, fun key hkey => AList.mem_keys.mp
      (AList.lookup_isSome.mp hkey)⟩
  · intro _ u hu
    refine ⟨t.tileAt, u.files, hu.shows, ht.seen, fun key => ?_⟩
    rw [← hu.shows.tileAt, Layer.tileAt_of_saved hu.saved]
    split_ifs with hkey
    · rfl
    · cases hfile : u.files.lookup key with
      | none => rfl
      | some pixels =>
        have hsome : (u.files.lookup key).isSome = true := by rw [hfile]; rfl
        exact absurd (hu.own key (hu.keys key hsome) hsome) hkey

/-! ## Runs -/

inductive Edit where
  | stroke (s : Stroke)
  | fill (seed : Int × Int) (rgba : Rgba) (tolerance : Int)
  | moveSelection (selection : Selection) (dx dy : Int)
  | clearSelection (bounds : Bounds)

inductive Act where
  | edit (e : Edit)
  | look (point : Int × Int)
  | save
  | reopen

section Run
variable (blend : Rgba → Rgba → Rgba)

def Edit.run : Edit → Op (Layer size) (Patch size)
  | .stroke s => Drawing.stroke blend s
  | .fill seed rgba tolerance => Drawing.fill seed rgba tolerance
  | .moveSelection selection dx dy => Drawing.moveSelection blend selection dx dy
  | .clearSelection bounds => Drawing.clearSelection bounds

def Act.run : Act → Op (Layer size) Unit
  | .edit e => do
    let _ ← e.run blend
    pure ()
  | .look point => do
    let _ ← getPixelRgba point
    pure ()
  | .save => Drawing.save
  | .reopen => modify Layer.reopened

def actStep (s : Layer size) (act : Act) : Layer size := (act.run blend s).2

/-- The tiles of a stroke are those its paints lie on. -/
def Edit.Covered (size : Nat) : Edit → Prop
  | .stroke s => ∀ paint ∈ s.paints, tileKey size paint.point ∈ s.keys
  | _ => True

/-- The files behind the tiles that the edit touches are shown. -/
def Edit.Clean (s : Layer size) : Edit → Prop
  | .stroke st => Current s.tileAt s.files st.keys
  | .fill _ _ _ => s.Fresh
  | .moveSelection selection dx dy => Current s.tileAt s.files (moveKeys size selection dx dy)
  | .clearSelection bounds => Current s.tileAt s.files (collectBoundsTileKeys size bounds)

def Act.Allowed (s : Layer size) : Act → Prop
  | .edit e => e.Covered size ∧ e.Clean s
  | _ => True

/-- The map that is seen and the map that was saved. -/
structure Picture where
  seen : PixelMap
  saved : PixelMap

/-- What an edit does to a map of pixels. A fill that finds nothing to do changes nothing. -/
def Edit.Does (seen next : PixelMap) : Edit → Prop
  | .stroke s => next = paintedAllOver seen (strokePaints blend s)
  | .fill seed rgba tolerance =>
    next = seen ∨ ∃ extents, Filled seed rgba tolerance extents seen next
  | .moveSelection selection dx dy => next = paintedAllOver seen (movePaints blend selection dx dy)
  | .clearSelection bounds => next = paintedAllOver seen (clearPaints bounds)

def Act.Does (before after : Picture) : Act → Prop
  | .edit e => e.Does blend before.seen after.seen ∧ after.saved = before.saved
  | .look _ => after = before
  | .save => after = ⟨before.seen, before.seen⟩
  | .reopen => after = ⟨before.saved, before.saved⟩

/-- The pictures of a run, one for each act. -/
def Shown (before after : Picture) : List Act → Prop
  | [] => after = before
  | act :: acts => ∃ next, act.Does blend before next ∧ Shown next after acts

end Run

def Layer.picture (s : Layer size) : Picture := ⟨s.pixels, pixelAt fun key => s.files.lookup key⟩

theorem Shows.picture (h : Shows shown files s) :
    s.picture = ⟨pixelAt shown, pixelAt fun key => files.lookup key⟩ := by
  rw [Layer.picture, h.pixels, h.files_eq]

variable {blend : Rgba → Rgba → Rgba}

theorem edit_spec {edit : Edit} (s : Layer size) (hcovered : edit.Covered size)
    (hclean : edit.Clean s) :
    Ensures (Shows s.tileAt s.files) (edit.run blend)
      (fun _ t => ∃ later, Shows later s.files t ∧ edit.Does blend s.pixels (pixelAt later))
      Never := by
  cases edit with
  | stroke stroke =>
    refine (stroke_spec blend hcovered).weaken (fun _ h => h) ?_ fun _ h => h
    rintro _ t ⟨later, ht, -, hlater⟩
    exact ⟨later, ht, hlater hclean⟩
  | fill seed rgba tolerance =>
    refine (fill_spec seed rgba tolerance).weaken (fun _ h => h) ?_ fun _ h => h
    rintro _ t (⟨-, ht, -⟩ | ⟨c, points, later, hfirst, -, hpoints, ht, -, hlater⟩)
    · exact ⟨s.tileAt, ht, .inl rfl⟩
    · exact ⟨later, ht, .inr ⟨c.bounds size, filled_of_points hfirst.contains hpoints
        (hlater fun key _ => hclean key)⟩⟩
  | moveSelection selection dx dy =>
    refine (moveSelection_spec blend selection dx dy).weaken (fun _ h => h) ?_ fun _ h => h
    rintro _ t ⟨later, ht, -, hlater⟩
    exact ⟨later, ht, hlater hclean⟩
  | clearSelection bounds =>
    refine (clearSelection_spec bounds).weaken (fun _ h => h) ?_ fun _ h => h
    rintro _ t ⟨later, ht, -, hlater⟩
    exact ⟨later, ht, hlater hclean⟩

omit [NeZero size] in
theorem reopened_shows (s : Layer size) :
    Shows (fun key => s.files.lookup key) s.files s.reopened where
  tileAt := by
    funext key
    have hkey : s.reopened.tileAt key =
        if key ∈ s.files.keys then s.files.lookup key else none :=
      Layer.tileAt_of_none (AList.lookup_empty key)
    rw [hkey]
    split_ifs with hmem
    · rfl
    · exact (AList.lookup_eq_none.mpr fun h => hmem (AList.mem_keys.mp h)).symm
  files_eq := rfl
  loadable := fun key hkey _ => AList.lookup_isSome.mpr (AList.mem_keys.mpr hkey)

/-- An act answers, and does to the picture what it says. -/
theorem act_spec (blend : Rgba → Rgba → Rgba) {act : Act} (hload : s.Loadable)
    (hallowed : act.Allowed s) :
    Ensures (· = s) (act.run blend)
      (fun _ t => t.Loadable ∧ act.Does blend s.picture t.picture) Never := by
  have hstart : ∀ t, t = s → Shows s.tileAt s.files t := by
    rintro t rfl
    exact hload.shows
  cases act with
  | edit edit =>
    refine ensures_bind ((edit_spec s hallowed.1 hallowed.2).weaken hstart (fun _ _ h => h)
      fun _ h => h) fun _ => ensures_pure ?_
    rintro t ⟨later, ht, hdoes⟩
    rw [Act.Does, ht.picture]
    exact ⟨ht.of_loadable, hdoes, rfl⟩
  | look point =>
    refine ensures_bind ((getPixelRgba_spec point).weaken hstart (fun _ _ h => h) fun _ h => h)
      fun _ => ensures_pure ?_
    rintro t ⟨ht, -⟩
    exact ⟨ht.of_loadable, ht.picture⟩
  | save =>
    refine save_spec.weaken hstart ?_ fun _ h => h
    rintro _ t ⟨later, filed, ht, hsame, hfiled⟩
    refine ⟨ht.of_loadable, ht.picture.trans ?_⟩
    rw [funext hfiled, hsame]
    rfl
  | reopen =>
    refine ensures_modify ?_
    rintro t rfl
    exact ⟨(reopened_shows t).of_loadable, (reopened_shows t).picture⟩

end Pixels

end Space2.Drawing
