import Mathlib.Data.Prod.Lex
import Space2.Drawing.RasterPixels

/-!
# Components of tiles

The tiles that a layer shows fall into components, linked from neighbour to neighbour. A fill keeps
to the box of one of them, the first of the boxes that contain the seed.
-/
namespace Space2.Drawing
open Base Base.Op

variable {size : Nat} {entries queue visited : List TileKey} {drawn other : TileKey → Prop}

/-- From tile to neighbouring tile, through tiles that are drawn. -/
def Linked (drawn : TileKey → Prop) : TileKey → TileKey → Prop :=
  Relation.ReflTransGen fun a b => b ∈ neighbours a ∧ drawn b

theorem neighbours_symm {a b : TileKey} (h : b ∈ neighbours a) : a ∈ neighbours b := by
  obtain ⟨x, y⟩ := a
  obtain ⟨x', y'⟩ := b
  simp only [neighbours, List.mem_cons, Prod.mk.injEq, List.not_mem_nil, or_false] at h ⊢
  omega

theorem nodup_neighbours (key : TileKey) : (neighbours key).Nodup := by
  obtain ⟨x, y⟩ := key
  simp only [neighbours, List.nodup_cons, List.mem_cons, Prod.mk.injEq, List.not_mem_nil, or_false,
    not_false_eq_true, List.nodup_nil, and_true]
  omega

theorem Linked.symm {a b : TileKey} (ha : drawn a) (h : Linked drawn a b) :
    drawn b ∧ Linked drawn b a := by
  induction h with
  | refl => exact ⟨ha, .refl⟩
  | tail _ hstep ih => exact ⟨hstep.2, .head ⟨neighbours_symm hstep.1, ih.1⟩ ih.2⟩

/-! ## One component -/

/-- What the search for a component leaves: the component and all that is marked. -/
structure Collected (entries queue visited component all : List TileKey) : Prop where
  queued : ∀ key ∈ queue, key ∈ component
  fresh : ∀ key ∈ component, key ∈ queue ∨ key ∈ entries ∧ key ∉ visited
  marked : ∀ key, key ∈ all ↔ key ∈ visited ∨ key ∈ component
  closed : ∀ key ∈ component, ∀ near ∈ neighbours key, near ∈ entries → near ∈ all
  linked : ∀ key ∈ component, ∃ first ∈ queue, Linked (· ∈ entries) first key

/-- The neighbours of a tile that the search marks next. -/
def freshNeighbours (entries visited : List TileKey) (current : TileKey) : List TileKey :=
  (neighbours current).filter fun key => decide (key ∈ entries ∧ key ∉ visited)

theorem mem_freshNeighbours {current key : TileKey} :
    key ∈ freshNeighbours entries visited current ↔
      key ∈ neighbours current ∧ key ∈ entries ∧ key ∉ visited := by
  rw [freshNeighbours, List.mem_filter, decide_eq_true_eq]

theorem collectComponent_cons (fuel : Nat) (current : TileKey) :
    collectComponent entries (fuel + 1) (current :: queue) visited =
      (current :: (collectComponent entries fuel
          (queue ++ freshNeighbours entries visited current)
          (visited ++ freshNeighbours entries visited current)).1,
        (collectComponent entries fuel (queue ++ freshNeighbours entries visited current)
          (visited ++ freshNeighbours entries visited current)).2) := rfl

/-- One round: a tile leaves the queue and its fresh neighbours enter it. -/
theorem Collected.cons {current : TileKey} {component all : List TileKey}
    (hcurrent : current ∈ visited)
    (h : Collected entries (queue ++ freshNeighbours entries visited current)
      (visited ++ freshNeighbours entries visited current) component all) :
    Collected entries (current :: queue) visited (current :: component) all where
  queued := by
    intro key hkey
    rcases List.mem_cons.mp hkey with rfl | hkey
    · exact List.mem_cons_self
    · exact List.mem_cons_of_mem _ (h.queued key (List.mem_append_left _ hkey))
  fresh := by
    intro key hkey
    rcases List.mem_cons.mp hkey with rfl | hkey
    · exact .inl List.mem_cons_self
    · rcases h.fresh key hkey with hqueue | ⟨hentry, hnew⟩
      · rcases List.mem_append.mp hqueue with hqueue | hfresh
        · exact .inl (List.mem_cons_of_mem _ hqueue)
        · exact .inr (mem_freshNeighbours.mp hfresh).2
      · exact .inr ⟨hentry, fun hold => hnew (List.mem_append_left _ hold)⟩
  marked := by
    intro key
    rw [h.marked, List.mem_append, List.mem_cons]
    constructor
    · rintro ((hold | hfresh) | hmem)
      · exact .inl hold
      · exact .inr (.inr (h.queued key (List.mem_append_right _ hfresh)))
      · exact .inr (.inr hmem)
    · rintro (hold | rfl | hmem)
      · exact .inl (.inl hold)
      · exact .inl (.inl hcurrent)
      · exact .inr hmem
  closed := by
    intro key hkey near hnear hentry
    rcases List.mem_cons.mp hkey with rfl | hkey
    · rw [h.marked, List.mem_append, mem_freshNeighbours]
      by_cases hold : near ∈ visited
      · exact .inl (.inl hold)
      · exact .inl (.inr ⟨hnear, hentry, hold⟩)
    · exact h.closed key hkey near hnear hentry
  linked := by
    intro key hkey
    rcases List.mem_cons.mp hkey with rfl | hkey
    · exact ⟨key, List.mem_cons_self, .refl⟩
    · obtain ⟨first, hfirst, hlinked⟩ := h.linked key hkey
      rcases List.mem_append.mp hfirst with hfirst | hfresh
      · exact ⟨first, List.mem_cons_of_mem _ hfirst, hlinked⟩
      · obtain ⟨hnear, hentry, -⟩ := mem_freshNeighbours.mp hfresh
        exact ⟨current, List.mem_cons_self, .head ⟨hnear, hentry⟩ hlinked⟩

theorem collectComponent_spec {fuel : Nat} (hqueue : ∀ key ∈ queue, key ∈ visited)
    (hfuel : queue.length + (unvisited entries.toFinset visited).card < fuel) :
    Collected entries queue visited (collectComponent entries fuel queue visited).1
      (collectComponent entries fuel queue visited).2 := by
  induction fuel generalizing queue visited with
  | zero => omega
  | succ fuel ih =>
    cases queue with
    | nil =>
      exact ⟨by simp, by simp [collectComponent], by simp [collectComponent],
        by simp [collectComponent], by simp [collectComponent]⟩
    | cons current queue =>
      have hnodup : (freshNeighbours entries visited current).Nodup :=
        (nodup_neighbours current).filter _
      have hfresh : ∀ key ∈ freshNeighbours entries visited current,
          key ∈ entries.toFinset ∧ key ∉ visited := fun key hkey =>
        (mem_freshNeighbours.mp hkey).2.imp_left List.mem_toFinset.mpr
      have hcard := card_unvisited_append hnodup hfresh
      have hall : ∀ key ∈ queue ++ freshNeighbours entries visited current,
          key ∈ visited ++ freshNeighbours entries visited current := by
        intro key hkey
        rcases List.mem_append.mp hkey with hold | hnew
        · exact List.mem_append_left _ (hqueue key (List.mem_cons_of_mem current hold))
        · exact List.mem_append_right _ hnew
      rw [collectComponent_cons]
      rw [List.length_cons] at hfuel
      exact (ih hall (by rw [List.length_append]; omega)).cons (hqueue current List.mem_cons_self)

/-- What is marked between two components. -/
structure Marked (entries visited : List TileKey) : Prop where
  entry : ∀ key ∈ visited, key ∈ entries
  closed : ∀ key ∈ visited, ∀ near ∈ neighbours key, near ∈ entries → near ∈ visited

/-- The search from an entry that is not marked finds the tiles that are linked to it. -/
theorem collectComponent_linked {entry : TileKey} (h : Marked entries visited)
    (hentry : entry ∈ entries) (hnew : entry ∉ visited) :
    let found := collectComponent entries (entries.length + 1) [entry] (visited ++ [entry])
    (∀ key, key ∈ found.1 ↔ Linked (· ∈ entries) entry key) ∧ Marked entries found.2 ∧
      ∀ key, key ∈ found.2 ↔ key ∈ visited ∨ key ∈ found.1 := by
  intro found
  have hfuel : [entry].length + (unvisited entries.toFinset (visited ++ [entry])).card <
      entries.length + 1 := by
    have hleft := card_unvisited_append (List.nodup_singleton entry)
      (by simpa using ⟨hentry, hnew⟩ : ∀ a ∈ [entry], a ∈ entries.toFinset ∧ a ∉ visited)
    have hvisited : (unvisited entries.toFinset visited).card ≤ entries.length :=
      (card_unvisited_le _ _).trans entries.toFinset_card_le
    omega
  have hfound : Collected entries [entry] (visited ++ [entry]) found.1 found.2 :=
    collectComponent_spec (by simp) hfuel
  have hstart : entry ∈ found.1 := hfound.queued entry (List.mem_singleton_self entry)
  have hfresh : ∀ key ∈ found.1, key ∈ entries ∧ key ∉ visited := by
    intro key hkey
    rcases hfound.fresh key hkey with hqueue | ⟨hmem, hout⟩
    · obtain rfl := List.mem_singleton.mp hqueue
      exact ⟨hentry, hnew⟩
    · exact ⟨hmem, fun hold => hout (List.mem_append_left _ hold)⟩
  have hmarked : ∀ key, key ∈ found.2 ↔ key ∈ visited ∨ key ∈ found.1 := by
    intro key
    rw [hfound.marked, List.mem_append, List.mem_singleton]
    constructor
    · rintro ((hold | rfl) | hmem)
      · exact .inl hold
      · exact .inr hstart
      · exact .inr hmem
    · exact Or.imp_left .inl
  refine ⟨fun key => ⟨fun hkey => ?_, fun hlinked => ?_⟩, ⟨?_, ?_⟩, hmarked⟩
  · obtain ⟨first, hfirst, hlinked⟩ := hfound.linked key hkey
    rwa [List.mem_singleton.mp hfirst] at hlinked
  · induction hlinked with
    | refl => exact hstart
    | @tail a b _ hstep ih =>
      -- a neighbour that an earlier component holds would hold this tile as well
      rcases (hmarked b).mp (hfound.closed a ih b hstep.1 hstep.2) with hold | hmem
      · exact absurd (h.closed b hold a (neighbours_symm hstep.1) (hfresh a ih).1) (hfresh a ih).2
      · exact hmem
  · intro key hkey
    exact ((hmarked key).mp hkey).elim (h.entry key) fun hmem => (hfresh key hmem).1
  · intro key hkey near hnear hmem
    rcases (hmarked key).mp hkey with hold | hkey
    · exact (hmarked near).mpr (.inl (h.closed key hold near hnear hmem))
    · exact hfound.closed key hkey near hnear hmem

theorem collectComponents_cons (entry : TileKey) (rest : List TileKey) :
    collectComponents entries (entry :: rest) visited =
      if entry ∈ visited then collectComponents entries rest visited
      else
        (entry, (collectComponent entries (entries.length + 1) [entry] (visited ++ [entry])).1) ::
          collectComponents entries rest
            (collectComponent entries (entries.length + 1) [entry] (visited ++ [entry])).2 := rfl

/-- Each component is all that is linked to its entry, and every entry is in one. -/
theorem collectComponents_spec {rest : List TileKey} (h : Marked entries visited)
    (hrest : ∀ key ∈ rest, key ∈ entries) :
    (∀ found ∈ collectComponents entries rest visited, found.1 ∈ entries ∧
        ∀ key, key ∈ found.2 ↔ Linked (· ∈ entries) found.1 key) ∧
      ∀ key ∈ rest, key ∉ visited →
        ∃ found ∈ collectComponents entries rest visited, key ∈ found.2 := by
  induction rest generalizing visited with
  | nil => exact ⟨by simp [collectComponents], by simp⟩
  | cons entry rest ih =>
    have hentry := hrest entry List.mem_cons_self
    have hrest' := fun key hkey => hrest key (List.mem_cons_of_mem entry hkey)
    rw [collectComponents_cons]
    split_ifs with hold
    · obtain ⟨hcomponents, hevery⟩ := ih h hrest'
      refine ⟨hcomponents, fun key hkey hnew => ?_⟩
      rcases List.mem_cons.mp hkey with rfl | hkey
      · exact absurd hold hnew
      · exact hevery key hkey hnew
    · obtain ⟨hlinked, hmarked, hall⟩ := collectComponent_linked h hentry hold
      obtain ⟨hcomponents, hevery⟩ := ih hmarked hrest'
      refine ⟨fun found hfound => ?_, fun key hkey hnew => ?_⟩
      · rcases List.mem_cons.mp hfound with rfl | hfound
        · exact ⟨hentry, hlinked⟩
        · exact hcomponents found hfound
      · by_cases hmem : key ∈
            (collectComponent entries (entries.length + 1) [entry] (visited ++ [entry])).1
        · exact ⟨_, List.mem_cons_self, hmem⟩
        · rcases List.mem_cons.mp hkey with rfl | hkey
          · exact absurd ((hlinked key).mpr .refl) hmem
          · have hout := fun hmarked => ((hall key).mp hmarked).elim hnew hmem
            obtain ⟨found, hfound, hin⟩ := hevery key hkey hout
            exact ⟨found, List.mem_cons_of_mem _ hfound, hin⟩

/-! ## Boxes -/

/-- The least box that holds these tiles. -/
structure Component.Boxes (c : Component) (members : TileKey → Prop) : Prop where
  within : ∀ key, members key →
    (c.minTx ≤ key.1 ∧ key.1 ≤ c.maxTx) ∧ c.minTy ≤ key.2 ∧ key.2 ≤ c.maxTy
  left : ∃ key, members key ∧ key.1 = c.minTx
  right : ∃ key, members key ∧ key.1 = c.maxTx
  bottom : ∃ key, members key ∧ key.2 = c.minTy
  top : ∃ key, members key ∧ key.2 = c.maxTy

theorem Component.Boxes.congr {c : Component} {members : TileKey → Prop} (h : c.Boxes members)
    (hsame : ∀ key, members key ↔ other key) : c.Boxes other :=
  (funext fun key => propext (hsame key) : members = other) ▸ h

theorem Component.Boxes.unique {left right : Component} {members : TileKey → Prop}
    (hleft : left.Boxes members) (hright : right.Boxes members) : left = right := by
  obtain ⟨a, ha, hal⟩ := hleft.left
  obtain ⟨b, hb, hbr⟩ := hleft.right
  obtain ⟨c, hc, hcb⟩ := hleft.bottom
  obtain ⟨d, hd, hdt⟩ := hleft.top
  obtain ⟨a', ha', hal'⟩ := hright.left
  obtain ⟨b', hb', hbr'⟩ := hright.right
  obtain ⟨c', hc', hcb'⟩ := hright.bottom
  obtain ⟨d', hd', hdt'⟩ := hright.top
  have h := hright.within a ha
  have h' := hleft.within a' ha'
  have k := hright.within b hb
  have k' := hleft.within b' hb'
  have l := hright.within c hc
  have l' := hleft.within c' hc'
  have m := hright.within d hd
  have m' := hleft.within d' hd'
  obtain ⟨w, x, y, z⟩ := left
  obtain ⟨w', x', y', z'⟩ := right
  simp only [Component.mk.injEq] at *
  omega

/-- One more tile widens the box. -/
def Component.widen (c : Component) (key : TileKey) : Component :=
  ⟨min c.minTx key.1, max c.maxTx key.1, min c.minTy key.2, max c.maxTy key.2⟩

theorem Component.Boxes.widen {c : Component} {members : TileKey → Prop} (h : c.Boxes members)
    (key : TileKey) : (c.widen key).Boxes fun tile => members tile ∨ tile = key where
  within := by
    rintro tile (htile | rfl)
    · have hin := h.within tile htile
      simp only [Component.widen]
      omega
    · simp only [Component.widen]
      omega
  left := by
    obtain ⟨tile, htile, heq⟩ := h.left
    rcases min_choice c.minTx key.1 with hmin | hmin
    · exact ⟨tile, .inl htile, heq.trans hmin.symm⟩
    · exact ⟨key, .inr rfl, hmin.symm⟩
  right := by
    obtain ⟨tile, htile, heq⟩ := h.right
    rcases max_choice c.maxTx key.1 with hmax | hmax
    · exact ⟨tile, .inl htile, heq.trans hmax.symm⟩
    · exact ⟨key, .inr rfl, hmax.symm⟩
  bottom := by
    obtain ⟨tile, htile, heq⟩ := h.bottom
    rcases min_choice c.minTy key.2 with hmin | hmin
    · exact ⟨tile, .inl htile, heq.trans hmin.symm⟩
    · exact ⟨key, .inr rfl, hmin.symm⟩
  top := by
    obtain ⟨tile, htile, heq⟩ := h.top
    rcases max_choice c.maxTy key.2 with hmax | hmax
    · exact ⟨tile, .inl htile, heq.trans hmax.symm⟩
    · exact ⟨key, .inr rfl, hmax.symm⟩

theorem boxes_foldl {c : Component} {members : TileKey → Prop} (h : c.Boxes members)
    (tiles : List TileKey) :
    (tiles.foldl Component.widen c).Boxes fun tile => members tile ∨ tile ∈ tiles := by
  induction tiles generalizing c members with
  | nil => exact h.congr fun tile => by simp
  | cons key tiles ih => exact (ih (h.widen key)).congr fun tile => by simp [or_assoc]

theorem Component.ofTiles_boxes {entry : TileKey} {tiles : List TileKey} (h : entry ∈ tiles) :
    (Component.ofTiles entry tiles).Boxes (· ∈ tiles) := by
  have hstart : (⟨entry.1, entry.1, entry.2, entry.2⟩ : Component).Boxes (· = entry) := by
    refine ⟨?_, ⟨entry, rfl, rfl⟩, ⟨entry, rfl, rfl⟩, ⟨entry, rfl, rfl⟩, ⟨entry, rfl, rfl⟩⟩
    rintro tile rfl
    simp
  refine (boxes_foldl hstart tiles).congr fun tile => ⟨?_, .inr⟩
  rintro (rfl | htile)
  · exact h
  · exact htile

/-! ## The bounds of a fill -/

/-- The box of a component of the tiles that are drawn -/
def Component.Of (drawn : TileKey → Prop) (c : Component) : Prop :=
  ∃ key, drawn key ∧ c.Boxes (Linked drawn key)

/-- The order of the boxes: by area, and where it is the same by their sides. -/
def Component.rank (size : Nat) (c : Component) : Int ×ₗ Int ×ₗ Int ×ₗ Int ×ₗ Int :=
  toLex ((c.bounds size).area, toLex (c.minTy, toLex (c.minTx, toLex (c.maxTy, c.maxTx))))

theorem precedes_iff (left right : Component) :
    left.precedes size right = true ↔ left.rank size < right.rank size := by
  simp only [Component.precedes, Component.rank, Prod.Lex.toLex_lt_toLex]
  split_ifs
  all_goals simp only [decide_eq_true_eq]
  all_goals omega

/-- The box comes first among those that contain the seed. -/
structure FirstBox (size : Nat) (drawn : TileKey → Prop) (seed : Int × Int) (c : Component) :
    Prop where
  box : c.Of drawn
  contains : (c.bounds size).contains seed.1 seed.2 = true
  first : ∀ other, Component.Of drawn other → (other.bounds size).contains seed.1 seed.2 = true →
    c.rank size ≤ other.rank size

def OutsideBoxes (size : Nat) (drawn : TileKey → Prop) (seed : Int × Int) : Prop :=
  ∀ c, Component.Of drawn c → (c.bounds size).contains seed.1 seed.2 = false

/-- The first member of a sorted table that passes a test is the least that does. -/
theorem find?_tableSort_least {α κ : Type} [LinearOrder κ] {precedes : α → α → Bool}
    {key : α → κ} (hkey : ∀ a b, precedes a b = true ↔ key a < key b) {p : α → Bool} {l : List α}
    {a : α} (h : (tableSort precedes l).find? p = some a) :
    a ∈ l ∧ p a = true ∧ ∀ b ∈ l, p b = true → key a ≤ key b := by
  obtain ⟨hp, before, after, hsplit, hbefore⟩ := List.find?_eq_some_iff_append.mp h
  have hmem : a ∈ tableSort precedes l := by simp [hsplit]
  refine ⟨mem_tableSort.mp hmem, hp, fun b hb hpb => ?_⟩
  have hascending := tableSort_ascending hkey l
  rw [hsplit, List.pairwise_append, List.pairwise_cons] at hascending
  have hb' : b ∈ before ++ a :: after := hsplit ▸ mem_tableSort.mpr hb
  rcases List.mem_append.mp hb' with hearly | hlate
  · have hnot := hbefore b hearly
    rw [hpb] at hnot
    cases hnot
  · rcases List.mem_cons.mp hlate with rfl | hlate
    · exact le_rfl
    · exact hascending.2.1.1 b hlate

/-- The boxes that are sorted are those of the components. -/
theorem mem_components {c : Component} :
    c ∈ (collectComponents entries entries []).map (fun found =>
        Component.ofTiles found.1 found.2) ↔ c.Of (· ∈ entries) := by
  have hstart : Marked entries [] := ⟨by simp, by simp⟩
  obtain ⟨hcomponents, hevery⟩ := collectComponents_spec hstart
    fun key (hkey : key ∈ entries) => hkey
  have hboxes : ∀ found ∈ collectComponents entries entries [],
      (Component.ofTiles found.1 found.2).Boxes (Linked (· ∈ entries) found.1) := by
    intro found hfound
    have hlinked := (hcomponents found hfound).2
    exact (Component.ofTiles_boxes ((hlinked found.1).mpr .refl)).congr hlinked
  rw [List.mem_map]
  constructor
  · rintro ⟨found, hfound, rfl⟩
    exact ⟨found.1, (hcomponents found hfound).1, hboxes found hfound⟩
  · rintro ⟨key, hkey, hbox⟩
    obtain ⟨found, hfound, hmem⟩ := hevery key hkey (by simp)
    obtain ⟨hentry, hlinked⟩ := hcomponents found hfound
    have hkeyLinked := (hlinked key).mp hmem
    have hsame : ∀ tile, Linked (· ∈ entries) key tile ↔ Linked (· ∈ entries) found.1 tile :=
      fun tile => ⟨hkeyLinked.trans, (hkeyLinked.symm hentry).2.trans⟩
    exact ⟨found, hfound, (hboxes found hfound).unique (hbox.congr hsame)⟩

theorem Layer.tileComponentBounds_spec (s : Layer size) (seed : Int × Int) :
    (s.tileComponentBounds seed = none ∧ OutsideBoxes size (· ∈ s.allTileEntries) seed) ∨
      ∃ c, s.tileComponentBounds seed = some (c.bounds size) ∧
        FirstBox size (· ∈ s.allTileEntries) seed c := by
  rw [tileComponentBounds]
  simp only [List.find?_map]
  generalize hboxes : (collectComponents s.allTileEntries s.allTileEntries []).map
    (fun found => Component.ofTiles found.1 found.2) = boxes
  have hmem : ∀ c, c ∈ boxes ↔ Component.Of (· ∈ s.allTileEntries) c := fun c =>
    hboxes ▸ mem_components
  cases hfind : (tableSort (Component.precedes size) boxes).find?
      ((fun bounds => bounds.contains seed.1 seed.2) ∘ Component.bounds size) with
  | none =>
    refine .inl ⟨rfl, fun c hc => ?_⟩
    have hnone := List.find?_eq_none.mp hfind c (mem_tableSort.mpr ((hmem c).mpr hc))
    simpa using hnone
  | some c =>
    obtain ⟨hc, hcontains, hleast⟩ := find?_tableSort_least precedes_iff hfind
    exact .inr ⟨c, rfl, (hmem c).mp hc, hcontains,
      fun other hother => hleast other ((hmem other).mpr hother)⟩

/-- A tile of the layer is drawn. -/
def Drawn (shown : Tiles size) (key : TileKey) : Prop := (shown key).isSome = true

theorem Shows.mem_allTileEntries {shown : Tiles size} {files : Files size} {s : Layer size}
    (h : Shows shown files s) (key : TileKey) : key ∈ s.allTileEntries ↔ Drawn shown key := by
  rw [Layer.allTileEntries, List.mem_union_iff, Drawn, ← h.tileAt]
  cases htile : s.tiles.lookup key with
  | some pixels =>
    have hkey : key ∈ s.tiles.keys := AList.lookup_isSome.mp (by rw [htile]; rfl)
    rw [Layer.tileAt_of_some htile]
    simp [hkey]
  | none =>
    have hkey : key ∉ s.tiles.keys := AList.lookup_eq_none.mp htile
    rw [Layer.tileAt_of_none htile]
    split_ifs with hpersisted
    · simp [hpersisted, h.loadable key hpersisted htile]
    · simp [hpersisted, hkey]

/-- The bounds of a fill depend on the tiles that are shown only. -/
theorem Shows.tileComponentBounds {shown : Tiles size} {files : Files size} {s : Layer size}
    (h : Shows shown files s) (seed : Int × Int) :
    (s.tileComponentBounds seed = none ∧ OutsideBoxes size (Drawn shown) seed) ∨
      ∃ c, s.tileComponentBounds seed = some (c.bounds size) ∧
        FirstBox size (Drawn shown) seed c := by
  have hsame : (· ∈ s.allTileEntries) = Drawn shown :=
    funext fun key => propext (h.mem_allTileEntries key)
  exact hsame ▸ s.tileComponentBounds_spec seed

end Space2.Drawing
