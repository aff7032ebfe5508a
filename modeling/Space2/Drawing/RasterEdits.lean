import Space2.Drawing.RasterComponents

/-!
# What an edit of a raster layer does

Each edit touches the tiles that its patch records. Where no file stands behind a tile that is not
shown, it does to the pixels what its paints say; otherwise the pixels of the file come back first.
-/
namespace Space2.Drawing
open Base Base.Op

variable {size : Nat} {shown : Tiles size} {files : Files size}

/-! ## Rectangles -/

theorem mem_upTo {first last z : Int} : z ∈ upTo first last ↔ first ≤ z ∧ z ≤ last := by
  simp only [upTo, List.mem_map, List.mem_range]
  constructor
  · rintro ⟨offset, hoffset, rfl⟩
    omega
  · rintro ⟨hfirst, hlast⟩
    exact ⟨(z - first).toNat, by omega, by omega⟩

theorem mem_points {bounds : Bounds} {point : Int × Int} :
    point ∈ bounds.points ↔ bounds.contains point.1 point.2 = true := by
  obtain ⟨x, y⟩ := point
  simp only [Bounds.points, List.mem_flatMap, List.mem_map, mem_upTo, Prod.mk.injEq,
    Bounds.contains, decide_eq_true_eq]
  constructor
  · rintro ⟨y', hy, x', hx, rfl, rfl⟩
    exact ⟨hx.1, hx.2, hy.1, hy.2⟩
  · rintro ⟨hleft, hright, hbottom, htop⟩
    exact ⟨y, ⟨hbottom, htop⟩, x, ⟨hleft, hright⟩, rfl, rfl⟩

theorem tileKey_mem [NeZero size] {bounds : Bounds} {point : Int × Int}
    (h : point ∈ bounds.points) : tileKey size point ∈ collectBoundsTileKeys size bounds := by
  have hsize : 0 < (size : Int) := by exact_mod_cast NeZero.pos size
  simp only [mem_points, Bounds.contains, decide_eq_true_eq] at h
  obtain ⟨hleft, hright, hbottom, htop⟩ := h
  rw [collectBoundsTileKeys, mem_points, Bounds.contains, decide_eq_true_eq]
  exact ⟨Int.ediv_le_ediv hsize hleft, Int.ediv_le_ediv hsize hright,
    Int.ediv_le_ediv hsize hbottom, Int.ediv_le_ediv hsize htop⟩

/-! ## Paints in a row -/

section Paints
variable {α : Type}

/-- A loop whose members are each described by the tiles shown afterwards. -/
theorem ensures_forEach_foldl {body : α → Op (Layer size) Unit}
    {next : Tiles size → α → Tiles size}
    (h : ∀ shown a,
      Ensures (Shows shown files) (body a) (fun _ => Shows (next shown a) files) Never)
    (l : List α) :
    Ensures (Shows shown files) (forEach l body) (fun _ => Shows (l.foldl next shown) files)
      Never := by
  induction l generalizing shown with
  | nil => exact ensures_pure fun _ hs => hs
  | cons a l ih => exact ensures_bind (h shown a) fun _ => ih

/-- What no member touches is as before. -/
theorem foldl_frame {next : Tiles size → α → Tiles size} {keys : List TileKey} {l : List α}
    (h : ∀ a ∈ l, ∀ shown key, key ∉ keys → next shown a key = shown key) {key : TileKey}
    (hkey : key ∉ keys) : l.foldl next shown key = shown key := by
  induction l generalizing shown with
  | nil => rfl
  | cons a l ih =>
    rw [List.foldl_cons, ih fun b hb => h b (List.mem_cons_of_mem a hb)]
    exact h a List.mem_cons_self shown key hkey

end Paints

section Pixels
variable [NeZero size]

/-- The files behind these tiles are shown. -/
def Current (shown : Tiles size) (files : Files size) (keys : List TileKey) : Prop :=
  ∀ key ∈ keys, shown key = none → files.lookup key = none

/-- One pixel painted over. -/
def paintedOver (seen : PixelMap) (point : Int × Int) (paint : Rgba → Rgba) : PixelMap :=
  Function.update seen point (paint (seen point))

omit [NeZero size] in
theorem Current.ground {keys : List TileKey} (h : Current shown files keys) {key : TileKey}
    (hkey : key ∈ keys) : ground shown files key = (shown key).getD (blank size) := by
  rw [Drawing.ground]
  cases hshown : shown key with
  | some pixels => rfl
  | none =>
    rw [h key hkey hshown]
    rfl

omit [NeZero size] in
theorem get_blank (index : Fin (size * size)) : (blank size).get index = .transparent := by
  rw [Vector.get_eq_getElem]
  exact Vector.getElem_replicate _

theorem Current.pixelAt_painted {keys : List TileKey} (h : Current shown files keys)
    {point : Int × Int} (hpoint : tileKey size point ∈ keys) (paint : Rgba → Rgba) :
    pixelAt (painted shown files point paint) = paintedOver (pixelAt shown) point paint := by
  have hground : ∀ other, tileKey size other = tileKey size point →
      (Drawing.ground shown files (tileKey size point)).get (pixelIndex size other) =
        pixelAt shown other := by
    intro other hother
    rw [h.ground hpoint, pixelAt, hother]
    cases shown (tileKey size point) with
    | none => exact get_blank _
    | some pixels => rfl
  funext other
  rw [painted, pixelAt_update, paintedOver, Function.update_apply, hground point rfl]
  split_ifs with hsame hkey
  · rfl
  · exact hground other hkey
  · rfl

omit [NeZero size] in
theorem Current.of_shown {keys : List TileKey} (h : Current shown files keys) {later : Tiles size}
    (hlater : ∀ key, later key = none → shown key = none) : Current later files keys :=
  fun key hkey hnone => h key hkey (hlater key hnone)

theorem painted_none {point : Int × Int} {paint : Rgba → Rgba} {key : TileKey}
    (h : painted shown files point paint key = none) : shown key = none := by
  by_cases hkey : key = tileKey size point
  · subst hkey
    simp [painted] at h
  · rwa [painted_other hkey] at h

/-- A list of paints, each with its point. -/
def paintedAll (files : Files size) (shown : Tiles size)
    (paints : List ((Int × Int) × (Rgba → Rgba))) : Tiles size :=
  paints.foldl (fun shown paint => painted shown files paint.1 paint.2) shown

def paintedAllOver (seen : PixelMap) (paints : List ((Int × Int) × (Rgba → Rgba))) : PixelMap :=
  paints.foldl (fun seen paint => paintedOver seen paint.1 paint.2) seen

theorem Current.pixelAt_paintedAll {keys : List TileKey} (h : Current shown files keys)
    {paints : List ((Int × Int) × (Rgba → Rgba))}
    (hpaints : ∀ paint ∈ paints, tileKey size paint.1 ∈ keys) :
    pixelAt (paintedAll files shown paints) = paintedAllOver (pixelAt shown) paints := by
  induction paints generalizing shown with
  | nil => rfl
  | cons paint paints ih =>
    have hnext : Current (painted shown files paint.1 paint.2) files keys :=
      h.of_shown fun _ => painted_none
    have hrest := ih hnext fun other hother => hpaints other (List.mem_cons_of_mem paint hother)
    rw [paintedAllOver, List.foldl_cons, ← h.pixelAt_painted (hpaints paint List.mem_cons_self)]
    exact hrest

theorem paintAll_spec (paints : List ((Int × Int) × (Rgba → Rgba))) :
    Ensures (Shows shown files) (forEach paints fun paint => paintPixel paint.1 paint.2)
      (fun _ => Shows (paintedAll files shown paints) files) Never :=
  ensures_forEach_foldl (fun _ paint => paintPixel_spec paint.1 paint.2) paints

theorem paintedAll_frame {keys : List TileKey} {paints : List ((Int × Int) × (Rgba → Rgba))}
    (h : ∀ paint ∈ paints, tileKey size paint.1 ∈ keys) {key : TileKey} (hkey : key ∉ keys) :
    paintedAll files shown paints key = shown key :=
  foldl_frame (fun paint hpaint _ _ hother =>
    painted_other fun heq => hother (heq ▸ h paint hpaint)) hkey

/-- The paints of an edit touch the tiles its patch records. -/
theorem touches_paints {keys : List TileKey} {paints : List ((Int × Int) × (Rgba → Rgba))}
    (h : ∀ paint ∈ paints, tileKey size paint.1 ∈ keys) :
    Touches keys shown files (forEach paints fun paint => paintPixel paint.1 paint.2)
      fun edited => edited = paintedAll files shown paints :=
  (paintAll_spec paints).weaken (fun _ hs => hs)
    (fun _ _ hs => ⟨_, hs, fun _ hkey => paintedAll_frame h hkey, rfl⟩) fun _ h => h

end Pixels

/-! ## The edits as paints -/

section Edits
variable [NeZero size] (blend : Rgba → Rgba → Rgba)

abbrev Paints := List ((Int × Int) × (Rgba → Rgba))

def strokePaints (stroke : Stroke) : Paints := stroke.paints.map fun paint =>
  (paint.point, fun under => if paint.sets = true then paint.rgba else blend under paint.rgba)

def clearPaints (bounds : Bounds) : Paints :=
  bounds.points.map fun point => (point, fun _ => .transparent)

/-- Where a selection is moved to. -/
def Selection.dest (selection : Selection) (dx dy : Int) : Bounds :=
  ⟨selection.bounds.left + dx, selection.bounds.right + dx, selection.bounds.bottom + dy,
    selection.bounds.top + dy⟩

/-- The pixels of the fragment that are not transparent, at their places. -/
def fragmentPaints (selection : Selection) (dx dy : Int) : Paints :=
  (((selection.dest dx dy).points.zip selection.fragment.bytes).filter fun entry =>
    !decide (entry.2.alpha = 0)).map fun entry => (entry.1, fun under => blend under entry.2)

def movePaints (selection : Selection) (dx dy : Int) : Paints :=
  clearPaints selection.bounds ++ fragmentPaints blend selection dx dy

def fillPaints (points : List (Int × Int)) (rgba : Rgba) : Paints :=
  points.map fun point => (point, fun _ => rgba)

def paintEach (paints : Paints) : Op (Layer size) Unit :=
  forEach paints fun paint => paintPixel paint.1 paint.2

theorem stroke_eq (s : Stroke) :
    (stroke blend s : Op (Layer size) _) =
      patched s.keys none (paintEach (strokePaints blend s)) := by
  rw [stroke, paintEach, strokePaints, forEach_map]

theorem clearRect_eq (bounds : Bounds) :
    (clearRect bounds : Op (Layer size) Unit) = paintEach (clearPaints bounds) := by
  rw [paintEach, clearPaints, forEach_map]
  rfl

theorem applyFragment_eq (selection : Selection) (dx dy : Int) :
    (applyFragment blend selection.fragment (selection.dest dx dy).left
        (selection.dest dx dy).bottom : Op (Layer size) Unit) =
      paintEach (fragmentPaints blend selection dx dy) := by
  have hbounds : (⟨(selection.dest dx dy).left,
      (selection.dest dx dy).left + selection.fragment.width - 1, (selection.dest dx dy).bottom,
      (selection.dest dx dy).bottom + selection.fragment.height - 1⟩ : Bounds) =
        selection.dest dx dy := by
    have hwidth := selection.width_eq
    have hheight := selection.height_eq
    simp only [Selection.dest, Bounds.mk.injEq, true_and]
    omega
  rw [applyFragment, hbounds, paintEach, fragmentPaints, forEach_map, forEach_filter]
  congr 1
  funext entry
  by_cases hzero : entry.2.alpha = 0
  · simp [hzero]
  · simp [hzero]

theorem moveSelection_eq (selection : Selection) (dx dy : Int) :
    (moveSelection blend selection dx dy : Op (Layer size) _) =
      patched (collectBoundsTileKeys size selection.bounds ∪
        collectBoundsTileKeys size (selection.dest dx dy)) (some (selection.dest dx dy))
        (paintEach (movePaints blend selection dx dy)) := by
  have hpaints : (paintEach (movePaints blend selection dx dy) : Op (Layer size) Unit) = (do
      clearRect selection.bounds
      applyFragment blend selection.fragment (selection.dest dx dy).left
        (selection.dest dx dy).bottom) := by
    rw [paintEach, movePaints, forEach_append, clearRect_eq, applyFragment_eq]
    rfl
  rw [hpaints]
  rfl

/-- A patch of paints on its tiles, and what becomes of the pixels. -/
theorem patched_paints {keys : List TileKey} {bounds : Option Bounds} {paints : Paints}
    (h : ∀ paint ∈ paints, tileKey size paint.1 ∈ keys) :
    Ensures (Shows shown files) (patched keys bounds (paintEach paints))
      (fun patch s => ∃ later, Shows later files s ∧ Records keys shown later patch ∧
        (Current shown files keys →
          pixelAt later = paintedAllOver (pixelAt shown) paints)) Never := by
  refine (patched_spec (touches_paints h)).weaken (fun _ hs => hs) ?_ fun _ h => h
  rintro patch s ⟨later, hs, hrecords, edited, hsame, rfl⟩
  exact ⟨later, hs, hrecords, fun hcurrent => hsame.trans (hcurrent.pixelAt_paintedAll h)⟩

theorem stroke_spec {s : Stroke} (h : ∀ paint ∈ s.paints, tileKey size paint.point ∈ s.keys) :
    Ensures (Shows shown files) (stroke blend s)
      (fun patch t => ∃ later, Shows later files t ∧ Records s.keys shown later patch ∧
        (Current shown files s.keys →
          pixelAt later = paintedAllOver (pixelAt shown) (strokePaints blend s))) Never := by
  rw [stroke_eq]
  refine patched_paints fun paint hpaint => ?_
  obtain ⟨stamp, hstamp, rfl⟩ := List.mem_map.mp hpaint
  exact h stamp hstamp

theorem clearSelection_spec (bounds : Bounds) :
    Ensures (Shows shown files) (clearSelection bounds)
      (fun patch t => ∃ later, Shows later files t ∧
        Records (collectBoundsTileKeys size bounds) shown later patch ∧
        (Current shown files (collectBoundsTileKeys size bounds) →
          pixelAt later = paintedAllOver (pixelAt shown) (clearPaints bounds))) Never := by
  rw [clearSelection, clearRect_eq]
  refine patched_paints fun paint hpaint => ?_
  obtain ⟨point, hpoint, rfl⟩ := List.mem_map.mp hpaint
  exact tileKey_mem hpoint

theorem mem_movePaints {selection : Selection} {dx dy : Int} {paint : (Int × Int) × (Rgba → Rgba)}
    (h : paint ∈ movePaints blend selection dx dy) :
    paint.1 ∈ selection.bounds.points ∨ paint.1 ∈ (selection.dest dx dy).points := by
  rcases List.mem_append.mp h with hclear | hfragment
  · obtain ⟨point, hpoint, rfl⟩ := List.mem_map.mp hclear
    exact .inl hpoint
  · obtain ⟨entry, hentry, rfl⟩ := List.mem_map.mp hfragment
    exact .inr (List.of_mem_zip (List.mem_filter.mp hentry).1).1

/-- The tiles of a selection and of the place it is moved to. -/
def moveKeys (size : Nat) (selection : Selection) (dx dy : Int) : List TileKey :=
  collectBoundsTileKeys size selection.bounds ∪ collectBoundsTileKeys size (selection.dest dx dy)

theorem moveSelection_spec (selection : Selection) (dx dy : Int) :
    Ensures (Shows shown files) (moveSelection blend selection dx dy)
      (fun patch t => ∃ later, Shows later files t ∧
        Records (moveKeys size selection dx dy) shown later patch ∧
        (Current shown files (moveKeys size selection dx dy) →
          pixelAt later =
            paintedAllOver (pixelAt shown) (movePaints blend selection dx dy))) Never := by
  rw [moveSelection_eq]
  refine patched_paints fun paint hpaint => ?_
  rw [List.mem_union_iff]
  exact (mem_movePaints blend hpaint).imp tileKey_mem tileKey_mem

/-! ## Filling -/

/-- The points that a fill goes through. -/
def Fills (seen : PixelMap) (extents : Bounds) (seed : Int × Int) (tolerance : Int)
    (point : Int × Int) : Prop :=
  extents.contains point.1 point.2 = true ∧
    (seen point).withinTolerance (seen seed) tolerance = true

theorem fillable_spec (extents : Bounds) (seed : Int × Int) (tolerance : Int) (point : Int × Int) :
    Ensures (Shows shown files) (fillable extents (pixelAt shown seed) tolerance point)
      (fun passed s => Shows shown files s ∧
        (passed = true ↔ Fills (pixelAt shown) extents seed tolerance point)) Never := by
  unfold fillable Fills
  split_ifs with hcontains
  · refine ensures_bind (getPixelRgba_spec point) fun rgba => ensures_given fun hrgba => ?_
    exact ensures_pure fun _ hs => ⟨hs, by rw [hrgba]; simp [hcontains]⟩
  · exact ensures_pure fun _ hs => ⟨hs, by simp [hcontains]⟩

/-- What a fill answers: nothing has changed, or the patch of the points it has reached. -/
theorem fill_spec (seed : Int × Int) (rgba : Rgba) (tolerance : Int) :
    Ensures (Shows shown files) (fill seed rgba tolerance)
      (fun patch s =>
        (patch.changed = false ∧ Shows shown files s ∧
          (pixelAt shown seed = rgba ∨ OutsideBoxes size (Drawn shown) seed)) ∨
        ∃ c points later, FirstBox size (Drawn shown) seed c ∧ pixelAt shown seed ≠ rgba ∧
          (∀ point, point ∈ points ↔
            Reached neighbours (Fills (pixelAt shown) (c.bounds size) seed tolerance) seed point) ∧
          Shows later files s ∧
          Records (points.map (tileKey size)).dedup shown later patch ∧
          (Current shown files (points.map (tileKey size)).dedup →
            pixelAt later = paintedAllOver (pixelAt shown) (fillPaints points rgba))) Never := by
  refine ensures_bind (getPixelRgba_spec seed) fun seedRgba => ensures_given fun hseed => ?_
  subst hseed
  refine ensures_get_kept fun t ht => ?_
  rcases ht.tileComponentBounds seed with ⟨hnone, houtside⟩ | ⟨c, hsome, hfirst⟩
  · rw [hnone]
    exact ensures_pure fun _ hs => .inl ⟨rfl, hs, .inr houtside⟩
  · rw [hsome]
    simp only [hfirst.contains, Bool.true_eq_false, or_false]
    split_ifs with hsame
    · exact ensures_pure fun _ hs => .inl ⟨rfl, hs, .inl hsame⟩
    generalize hextents : c.bounds size = extents
    have hcarrier : ∀ point, Fills (pixelAt shown) extents seed tolerance point →
        point ∈ extents.points.toFinset := fun point hpoint =>
      List.mem_toFinset.mpr (mem_points.mpr hpoint.1)
    have hnear : ∀ point, (neighbours point).length ≤ 4 := fun _ => Nat.le_refl 4
    have hfuel : [seed].length + 4 * (unvisited extents.points.toFinset []).card <
        4 * extents.points.length + 2 := by
      have hcard : (unvisited extents.points.toFinset []).card ≤ extents.points.length :=
        (card_unvisited_le _ _).trans extents.points.toFinset_card_le
      rw [List.length_singleton]
      omega
    refine ensures_bind (ensures_flood (fillable_spec extents seed tolerance) hcarrier hnear hfuel
      spread_start) fun answer => ensures_given ?_
    rintro ⟨points, rfl, -, hpoints⟩
    have hkeys : ∀ paint ∈ fillPaints points rgba,
        tileKey size paint.1 ∈ (points.map (tileKey size)).dedup := by
      intro paint hpaint
      obtain ⟨point, hpoint, rfl⟩ := List.mem_map.mp hpaint
      exact List.mem_dedup.mpr (List.mem_map_of_mem hpoint)
    have hfill : (forEach points fun point => setPixel point rgba : Op (Layer size) Unit) =
        paintEach (fillPaints points rgba) := by
      rw [paintEach, fillPaints, forEach_map]
      rfl
    simp only [hfill]
    refine (patched_paints hkeys).weaken (fun _ hs => hs) ?_ fun _ h => h
    rintro patch s ⟨later, hs, hrecords, hlater⟩
    subst hextents
    exact .inr ⟨c, points, later, hfirst, hsame, hpoints, hs, hrecords, hlater⟩

end Edits

/-! ## The flood fills a component -/

/-- What the layer shows can be loaded. -/
def Layer.Loadable (s : Layer size) : Prop :=
  ∀ key ∈ s.persisted, s.tiles.lookup key = none → (s.files.lookup key).isSome = true

theorem Layer.Loadable.shows {s : Layer size} (h : s.Loadable) : Shows s.tileAt s.files s :=
  ⟨rfl, rfl, h⟩

theorem Shows.of_loadable {s : Layer size} (h : Shows shown files s) : s.Loadable := h.loadable

section Fill
variable [NeZero size]

def Layer.pixels (s : Layer size) : PixelMap := pixelAt s.tileAt

theorem Shows.pixels {s : Layer size} (h : Shows shown files s) : s.pixels = pixelAt shown := by
  rw [Layer.pixels, h.tileAt]

/-- No file is left of a tile that is not shown. -/
def Layer.Fresh (s : Layer size) : Prop :=
  ∀ key, s.tileAt key = none → s.files.lookup key = none

theorem paintedAllOver_fillPaints (seen : PixelMap) (points : List (Int × Int)) (rgba : Rgba)
    (point : Int × Int) :
    paintedAllOver seen (fillPaints points rgba) point = if point ∈ points then rgba
      else seen point := by
  induction points generalizing seen with
  | nil => rfl
  | cons first points ih =>
    have hstep : paintedAllOver seen (fillPaints (first :: points) rgba) =
        paintedAllOver (Function.update seen first rgba) (fillPaints points rgba) := rfl
    rw [hstep, ih, Function.update_apply]
    by_cases hmem : point ∈ points
    · rw [if_pos hmem, if_pos (List.mem_cons_of_mem first hmem)]
    · rw [if_neg hmem]
      by_cases hfirst : point = first
      · rw [if_pos hfirst, if_pos (by rw [hfirst]; exact List.mem_cons_self)]
      · rw [if_neg hfirst, if_neg (by simp [hfirst, hmem])]

/-- The points reached from the seed get the colour, and no other point changes. -/
def Filled (seed : Int × Int) (rgba : Rgba) (tolerance : Int) (extents : Bounds)
    (seen next : PixelMap) : Prop :=
  extents.contains seed.1 seed.2 = true ∧ ∀ point,
    (Reached neighbours (Fills seen extents seed tolerance) seed point → next point = rgba) ∧
    (¬ Reached neighbours (Fills seen extents seed tolerance) seed point →
      next point = seen point)

theorem filled_of_points {seed : Int × Int} {rgba : Rgba} {tolerance : Int} {extents : Bounds}
    {seen next : PixelMap} {points : List (Int × Int)}
    (hseed : extents.contains seed.1 seed.2 = true)
    (hpoints : ∀ point, point ∈ points ↔
      Reached neighbours (Fills seen extents seed tolerance) seed point)
    (hnext : next = paintedAllOver seen (fillPaints points rgba)) :
    Filled seed rgba tolerance extents seen next := by
  refine ⟨hseed, fun point => ?_⟩
  rw [← hpoints point, hnext, paintedAllOver_fillPaints]
  exact ⟨fun hmem => if_pos hmem, fun hmem => if_neg hmem⟩

end Fill

end Space2.Drawing
