import Space2.Base.PathText

/-!
# File trees with symbolic links

A path is walked part by part from the root directory. A link sends the walk on to its
target, so many times at most, and every part has to start from a directory.
-/

namespace Space2.Base

abbrev Location := List Name

inductive FileEntry
  | file | directory | other
  | link (target : PathText)
  deriving DecidableEq

structure FileTree where
  entry : Location → Option FileEntry
  root : entry [] = some .directory
  parent : ∀ location name, (entry (location ++ [name])).isSome = true → entry location = some .directory
  valid : ∀ location name, (entry (location ++ [name])).isSome = true → ValidName name ∧ Char.ofNat 0 ∉ name

/-- Where a walk leads, whether a link was followed, and whether a part did not start from a directory. -/
structure Walked where
  location : Location
  linked : Bool
  blocked : Bool
  deriving DecidableEq

def Walked.from (tree : FileTree) (start : Location) (walked : Walked) : Walked :=
  { walked with blocked := walked.blocked || tree.entry start ≠ some .directory }

/-- Whether the entry at the end of a walk is followed too is `follow`. -/
def FileTree.walkWith (tree : FileTree) (expand : Location → List Name → Option Walked) (follow : Bool) :
    Location → List Name → Option Walked
  | here, [] => some ⟨here, false, false⟩
  | here, part :: rest =>
    if part = [] ∨ part = ['.'] then (tree.walkWith expand follow here rest).map (Walked.from tree here)
    else if part = ['.', '.'] then (tree.walkWith expand follow here.dropLast rest).map (Walked.from tree here)
    else match tree.entry (here ++ [part]) with
      | some (.link target) =>
        if rest = [] ∧ follow = false then some ⟨here ++ [part], false, false⟩
        else (expand (if isAbsolute target = true then [] else here) (rawParts target ++ rest)).map fun walked =>
          { walked with linked := true }
      | _ => (tree.walkWith expand follow (here ++ [part]) rest).map (Walked.from tree here)

/-- A walk over so many links at most. -/
def FileTree.walk (tree : FileTree) : Nat → Bool → Location → List Name → Option Walked
  | 0, follow => tree.walkWith (fun _ _ => none) follow
  | limit + 1, follow => tree.walkWith (tree.walk limit follow) follow

def FileTree.lookup (tree : FileTree) (limit : Nat) (follow : Bool) (text : PathText) : Option Walked :=
  tree.walk limit follow [] (rawParts text)

/-- The entry that a walk found; without one it is missing. -/
def FileTree.found (tree : FileTree) (walked : Walked) : Option FileEntry :=
  if walked.blocked = true then none else tree.entry walked.location

/-- No entry on the way to the location is a link. -/
def FileTree.LinkFree (tree : FileTree) (location : Location) : Prop :=
  ∀ front name back, location = front ++ name :: back → ∀ target, tree.entry (front ++ [name]) ≠ some (.link target)

variable {tree : FileTree} {expand : Location → List Name → Option Walked} {follow : Bool}
  {here location : Location} {names parts : List Name} {walked : Walked}

/-! ## Trees -/

theorem FileTree.directory_of_entry {back : List Name} (hback : back ≠ [])
    (hentry : (tree.entry (here ++ back)).isSome = true) : tree.entry here = some .directory := by
  induction back using List.reverseRecOn with
  | nil => exact absurd rfl hback
  | append_singleton front last ih =>
    rw [← List.append_assoc] at hentry
    have hparent := tree.parent _ _ hentry
    cases front with
    | nil => simpa using hparent
    | cons first rest => exact ih (by simp) (by rw [hparent]; rfl)

theorem FileTree.valid_of_entry (hentry : (tree.entry location).isSome = true) :
    ∀ name ∈ location, ValidName name ∧ Char.ofNat 0 ∉ name := by
  induction location using List.reverseRecOn with
  | nil => simp
  | append_singleton front last ih =>
    have hparent := tree.parent _ _ hentry
    intro name hname
    rcases List.mem_append.mp hname with hname | hname
    · exact ih (by rw [hparent]; rfl) name hname
    · rw [List.mem_singleton.mp hname]
      exact tree.valid _ _ hentry

theorem FileTree.linkFree_nil : tree.LinkFree [] := by
  intro front name back hsplit
  simp at hsplit

theorem FileTree.linkFree_append_singleton {name : Name} : tree.LinkFree (here ++ [name]) ↔
    tree.LinkFree here ∧ ∀ target, tree.entry (here ++ [name]) ≠ some (.link target) := by
  constructor
  · intro hfree
    refine ⟨fun front other back hsplit => ?_, hfree here name [] rfl⟩
    exact hfree front other (back ++ [name]) (by rw [hsplit]; simp)
  · rintro ⟨hfree, hlast⟩ front other back hsplit
    rcases List.eq_nil_or_concat back with rfl | ⟨start, last, rfl⟩
    · obtain ⟨rfl, hname⟩ := List.append_inj' hsplit rfl
      obtain rfl := (List.cons.inj hname).1
      exact hlast
    · have hsplit : here ++ [name] = (front ++ other :: start) ++ [last] := by simpa using hsplit
      obtain ⟨rfl, -⟩ := List.append_inj' hsplit rfl
      exact hfree front other start rfl

theorem FileTree.LinkFree.dropLast (hfree : tree.LinkFree here) : tree.LinkFree here.dropLast := by
  rcases List.eq_nil_or_concat here with rfl | ⟨front, last, rfl⟩
  · exact hfree
  · rw [List.concat_eq_append] at hfree ⊢
    rw [List.dropLast_concat]
    exact (linkFree_append_singleton.mp hfree).1

theorem FileTree.LinkFree.of_entry {front back : List Name} (hentry : tree.entry (front ++ back) = some .file) :
    tree.LinkFree (front ++ back) := by
  intro start name rest hsplit target hlink
  rw [hsplit] at hentry
  cases rest with
  | nil =>
    rw [hentry] at hlink
    cases hlink
  | cons next others =>
    have hwhole : start ++ name :: next :: others = (start ++ [name]) ++ next :: others := by simp
    rw [hwhole] at hentry
    have hdirectory := directory_of_entry (List.cons_ne_nil next others) (by rw [hentry]; rfl)
    rw [hdirectory] at hlink
    cases hlink

/-! ## Walks without links -/

/-- A walk that follows no link leads where the parts lead as a text, and passes no link. -/
theorem FileTree.walkWith_plain (hwalked : tree.walkWith expand true here parts = some walked)
    (hlinked : walked.linked = false) (hfree : tree.LinkFree here) :
    walked.location = parts.foldl stepPart here ∧ tree.LinkFree walked.location := by
  induction parts generalizing here walked with
  | nil =>
    rw [walkWith] at hwalked
    obtain rfl := Option.some.inj hwalked
    exact ⟨rfl, hfree⟩
  | cons part rest ih =>
    rw [walkWith] at hwalked
    rw [List.foldl_cons, stepPart]
    by_cases hskip : part = [] ∨ part = ['.']
    · rw [if_pos hskip] at hwalked ⊢
      obtain ⟨next, hnext, rfl⟩ := Option.map_eq_some_iff.mp hwalked
      have hrest := ih hnext hlinked hfree
      exact hrest
    · rw [if_neg hskip] at hwalked ⊢
      by_cases hdots : part = ['.', '.']
      · rw [if_pos hdots] at hwalked ⊢
        obtain ⟨next, hnext, rfl⟩ := Option.map_eq_some_iff.mp hwalked
        have hrest := ih hnext hlinked hfree.dropLast
        exact hrest
      · rw [if_neg hdots] at hwalked ⊢
        split at hwalked
        · rw [if_neg (by rintro ⟨-, h⟩; cases h)] at hwalked
          obtain ⟨next, -, rfl⟩ := Option.map_eq_some_iff.mp hwalked
          cases hlinked
        · rename_i hlink
          obtain ⟨next, hnext, rfl⟩ := Option.map_eq_some_iff.mp hwalked
          have hlast := linkFree_append_singleton.mpr ⟨hfree, fun target => hlink target⟩
          have hrest := ih hnext hlinked hlast
          exact hrest

theorem FileTree.walk_plain {limit : Nat} (hwalked : tree.walk limit true here parts = some walked)
    (hlinked : walked.linked = false) (hfree : tree.LinkFree here) :
    walked.location = parts.foldl stepPart here ∧ tree.LinkFree walked.location := by
  cases limit with
  | zero => exact walkWith_plain hwalked hlinked hfree
  | succ limit => exact walkWith_plain hwalked hlinked hfree

def Walked.block (blocked : Bool) (walked : Walked) : Walked := { walked with blocked := walked.blocked || blocked }

/-- Along names that are no links a walk leads to them, and nothing blocks it before an entry. -/
theorem FileTree.walkWith_names (expand : Location → List Name → Option Walked) (follow : Bool)
    (hvalid : ∀ name ∈ names, ValidName name)
    (hfree : tree.LinkFree (here ++ names)) (rest : List Name) : ∃ blocked, tree.walkWith expand follow here (names ++ rest) =
        (tree.walkWith expand follow (here ++ names) rest).map (Walked.block blocked) ∧
      ((tree.entry (here ++ names)).isSome = true → blocked = false) := by
  induction names generalizing here with
  | nil =>
    refine ⟨false, ?_, fun _ => rfl⟩
    have hsame : Walked.block false = id := by
      funext walked
      simp [Walked.block]
    rw [List.nil_append, List.append_nil, hsame, Option.map_id]
    rfl
  | cons name others ih =>
    have hname := hvalid name List.mem_cons_self
    have hwhole : here ++ name :: others = (here ++ [name]) ++ others := by simp
    have hskip : ¬ (name = [] ∨ name = ['.']) := not_or.mpr ⟨hname.nonempty, hname.not_dot⟩
    obtain ⟨blocked, hwalk, hblocked⟩ :=
      ih (fun other hother => hvalid other (List.mem_cons_of_mem name hother)) (by rwa [← hwhole])
    refine ⟨blocked || tree.entry here ≠ some .directory, ?_, fun hentry => ?_⟩
    · rw [List.cons_append, walkWith, if_neg hskip, if_neg hname.not_dots]
      split
      · rename_i target hlink
        exact absurd hlink (hfree here name others rfl target)
      · rw [hwalk, hwhole, Option.map_map]
        congr 1
        funext walked
        simp [Walked.block, Walked.from, Bool.or_assoc]
    · have hdirectory := directory_of_entry (List.cons_ne_nil name others) hentry
      rw [hwhole] at hentry
      simp [hblocked hentry, hdirectory]

theorem Walked.from_root (tree : FileTree) : Walked.from tree [] = id := by
  funext walked
  simp [Walked.from, tree.root]

theorem FileTree.found_of_unblocked {location : Location} {linked blocked : Bool}
    (hblocked : (tree.entry location).isSome = true → blocked = false) :
    tree.found ⟨location, linked, blocked⟩ = tree.entry location := by
  rw [found]
  cases hentry : tree.entry location with
  | none => simp
  | some entry =>
    rw [hblocked (by rw [hentry]; rfl)]
    rfl

/-- What `lstat` finds after a way without links is the entry there. -/
theorem FileTree.walkWith_lstat (expand : Location → List Name → Option Walked) {name : Name}
    (hvalid : ∀ other ∈ names ++ [name], ValidName other) (hfree : tree.LinkFree names) :
    ∃ walked, tree.walkWith expand false [] ([] :: names ++ [name]) = some walked ∧
      tree.found walked = tree.entry (names ++ [name]) := by
  have hnames : ∀ other ∈ names, ValidName other := fun other hother => hvalid other (List.mem_append_left _ hother)
  have hname := hvalid name (by simp)
  have hskip : ¬ (name = [] ∨ name = ['.']) := not_or.mpr ⟨hname.nonempty, hname.not_dot⟩
  have hroot : tree.LinkFree ([] ++ names) := hfree
  obtain ⟨blocked, hwalk, hblocked⟩ := walkWith_names expand false hnames hroot [name]
  have hparent (hentry : (tree.entry (names ++ [name])).isSome = true) :
      tree.entry names = some .directory ∧ blocked = false := by
    have hdirectory := tree.parent names name hentry
    exact ⟨hdirectory, hblocked (by rw [List.nil_append, hdirectory]; rfl)⟩
  rw [List.cons_append, walkWith, if_pos (.inl rfl), hwalk, walkWith, if_neg hskip, if_neg hname.not_dots,
    Walked.from_root, Option.map_id, id]
  split
  · rw [if_pos ⟨rfl, rfl⟩]
    refine ⟨_, rfl, found_of_unblocked fun hentry => ?_⟩
    simp [(hparent hentry).2]
  · refine ⟨_, rfl, found_of_unblocked fun hentry => ?_⟩
    obtain ⟨hdirectory, hfalse⟩ := hparent hentry
    simp [hdirectory, hfalse, Walked.from]

/-- Opening a path along names that are no links, with or without a slash at its end. -/
theorem FileTree.walkWith_open (expand : Location → List Name → Option Walked) (follow : Bool)
    (hvalid : ∀ name ∈ names, ValidName name) (hfree : tree.LinkFree names) (slash : Bool) :
    ∃ blocked, tree.walkWith expand follow [] ([] :: names ++ if slash = true then [[]] else []) =
        some ⟨names, false, blocked⟩ ∧
      (blocked = false → slash = true → tree.entry names = some .directory) ∧
      ((tree.entry names).isSome = true → (slash = true → tree.entry names = some .directory) → blocked = false) := by
  have hroot : tree.LinkFree ([] ++ names) := hfree
  obtain ⟨blocked, hwalk, hblocked⟩ := walkWith_names expand follow hvalid hroot
    (if slash = true then [[]] else [])
  rw [List.cons_append, walkWith, if_pos (.inl rfl), hwalk, Walked.from_root, Option.map_id, id]
  cases slash with
  | false => exact ⟨blocked, by simp [walkWith, Walked.block], by simp, fun hentry _ => hblocked hentry⟩
  | true =>
    refine ⟨tree.entry names ≠ some .directory || blocked, by simp [walkWith, Walked.block, Walked.from], ?_, ?_⟩
    · intro hfalse _
      simpa using (Bool.or_eq_false_iff.mp hfalse).1
    · intro hentry hdirectory
      simp [hdirectory rfl, hblocked hentry]

/-! ## Lookups of rendered paths -/

theorem FileTree.found_render (tree : FileTree) (limit : Nat) {name : Name} (hvalid : ∀ other ∈ names ++ [name], ValidName other)
    (hfree : tree.LinkFree names) : ∃ walked, tree.lookup limit false (render (names ++ [name]) false) = some walked ∧
      tree.found walked = tree.entry (names ++ [name]) := by
  have hslash : ∀ other ∈ names ++ [name], '/' ∉ other := fun other hother => (hvalid other hother).no_slash
  have hparts : rawParts (render (names ++ [name]) false) = [] :: names ++ [name] := by
    rw [rawParts_render hslash, if_neg (by simp)]
    simp
  rw [lookup, hparts]
  cases limit with
  | zero => exact walkWith_lstat _ hvalid hfree
  | succ limit => exact walkWith_lstat _ hvalid hfree

theorem FileTree.lookup_render (tree : FileTree) (limit : Nat) (follow : Bool) (hvalid : ∀ name ∈ names, ValidName name)
    (hfree : tree.LinkFree names) (slash : Bool) :
    ∃ blocked, tree.lookup limit follow (render names slash) = some ⟨names, false, blocked⟩ ∧
      (blocked = false → names ≠ [] → slash = true → tree.entry names = some .directory) ∧
      ((tree.entry names).isSome = true → (slash = true → tree.entry names = some .directory) → blocked = false) := by
  have hslash : ∀ name ∈ names, '/' ∉ name := fun name hname => (hvalid name hname).no_slash
  have hwith (expand : Location → List Name → Option Walked) :
      ∃ blocked, tree.walkWith expand follow [] (rawParts (render names slash)) = some ⟨names, false, blocked⟩ ∧
        (blocked = false → names ≠ [] → slash = true → tree.entry names = some .directory) ∧
        ((tree.entry names).isSome = true → (slash = true → tree.entry names = some .directory) → blocked = false) := by
    rw [rawParts_render hslash]
    by_cases hnames : names = []
    · subst hnames
      exact ⟨false, by simp [walkWith, Walked.from_root], fun _ h => absurd rfl h, fun _ _ => rfl⟩
    · rw [if_neg hnames]
      obtain ⟨blocked, hwalk, hopen, hentry⟩ := walkWith_open expand follow hvalid hfree slash
      exact ⟨blocked, hwalk, fun h _ => hopen h, hentry⟩
  rw [lookup]
  cases limit with
  | zero => exact hwith _
  | succ limit => exact hwith _

end Space2.Base
