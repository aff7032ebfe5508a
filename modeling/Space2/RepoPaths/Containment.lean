import Space2.RepoPaths.PathPolicy

/-!
# Containment in a worktree

A path that a check returns names the root's own names and more below them. None of the
parents below the root is a link, so opening the path leads to those names.
-/
namespace Space2.RepoPaths

open Space2.Base

variable {system : System} {root path resolved : PathText} {location names : List Name}

def gitName : Name := ['.', 'g', 'i', 't']

/-- An absolute root that leads to a location through no link, outside every `.git`. -/
structure PlainRoot (system : System) (root : PathText) (location : Location) : Prop where
  absolute : isAbsolute root = true
  leads : ∃ blocked, system.tree.lookup system.maxLinks true root = some ⟨location, false, blocked⟩
  no_git : gitName ∉ location

/-! ## The texts -/

theorem PlainRoot.location_eq (hroot : PlainRoot system root location) :
    location = (rawParts root).foldl stepPart [] ∧ system.tree.LinkFree location := by
  obtain ⟨blocked, hwalk⟩ := hroot.leads
  exact FileTree.walk_plain hwalk rfl FileTree.linkFree_nil

theorem PlainRoot.valid (hroot : PlainRoot system root location) : ∀ name ∈ location, ValidName name := by
  rw [hroot.location_eq.1]
  exact valid_foldl_stepPart (fun part hpart => not_mem_of_mem_rawParts hpart) (by simp)

theorem PlainRoot.absolute_eq (hroot : PlainRoot system root location) :
    RepoPaths.absolute system root = render location ((rawParts root).getLast?.any opensDirectory) := by
  rw [RepoPaths.absolute, if_pos hroot.absolute, normalText, ← hroot.location_eq.1]

/-- The names that a path without two dots adds. -/
def addedNames (path : PathText) : List Name := (rawParts path).filter fun part => part ≠ [] ∧ part ≠ ['.']

theorem PlainRoot.absolute_join (hroot : PlainRoot system root location) (hdots : ['.', '.'] ∉ rawParts path) :
    RepoPaths.absolute system (joinPath root path) =
      render (location ++ addedNames path) ((rawParts path).getLast?.any opensDirectory) := by
  have habsolute : isAbsolute (joinPath root path) = true := by
    have hfirst := hroot.absolute
    cases root with
    | nil => cases hfirst
    | cons c rest =>
      rw [joinPath]
      split <;> exact hfirst
  rw [RepoPaths.absolute, if_pos habsolute, normalText, foldl_joinPath, getLast_joinPath, ← hroot.location_eq.1,
    foldl_stepPart_of_no_dots hdots, addedNames]

theorem valid_addedNames (hdots : ['.', '.'] ∉ rawParts path) : ∀ name ∈ addedNames path, ValidName name := by
  intro name hname
  obtain ⟨hmem, hkept⟩ := List.mem_filter.mp hname
  obtain ⟨hempty, hdot⟩ : name ≠ [] ∧ name ≠ ['.'] := by simpa using hkept
  exact ⟨hempty, hdot, fun heq => hdots (heq ▸ hmem), not_mem_of_mem_rawParts hmem⟩

/-- A path that adds names continues a root only if its text does not end in a slash. -/
theorem continuesRoot_spec {rootSlash slash : Bool} (hnames : ∀ name ∈ names, ValidName name) (hne : names ≠ [])
    (hcontinues : continuesRoot (render location rootSlash) (render (location ++ names) slash) = true) :
    location ≠ [] ∧ rootSlash = false := by
  by_contra hnot
  have htext : render location rootSlash = location.flatMap (fun name => '/' :: name) ++ ['/'] := by
    by_cases hlocation : location = []
    · simp [hlocation, render]
    · have hslash : rootSlash = true := by
        cases rootSlash with
        | true => rfl
        | false => exact absurd ⟨hlocation, rfl⟩ hnot
      simp [render, hlocation, hslash]
  obtain ⟨first, rest, rfl⟩ := List.exists_cons_of_ne_nil hne
  have hfirst := hnames first List.mem_cons_self
  obtain ⟨c, cs, rfl⟩ := List.exists_cons_of_ne_nil hfirst.nonempty
  have hc : c ≠ '/' := fun heq => hfirst.no_slash (by simp [heq])
  have hresolved : ∃ tail, render (location ++ (c :: cs) :: rest) slash =
      (location.flatMap (fun name => '/' :: name) ++ ['/']) ++ c :: tail := by
    rw [render_append location (List.cons_ne_nil _ _), render_of_ne_nil (List.cons_ne_nil _ _)]
    exact ⟨cs ++ rest.flatMap (fun name => '/' :: name) ++ if slash = true then ['/'] else [], by simp⟩
  obtain ⟨tail, hresolved⟩ := hresolved
  rw [continuesRoot, htext, hresolved] at hcontinues
  simp [hc] at hcontinues

/-! ## Parents that are no links -/

/-- The loop goes on as long as names are left below the root. -/
theorem below_root (hlocation : location ≠ []) (hvalid : ∀ name ∈ location, ValidName name) (hnames : names ≠ [])
    (slash : Bool) : (render location false).length < (render (location ++ names) slash).length ∧
      render (location ++ names) slash ≠ render location false ∧
      render (location ++ names) slash ≠ parentPath (render location false) := by
  have hlonger : (render location false).length < (render (location ++ names) slash).length := by
    rw [render_append location hnames, List.length_append, render_false_of_ne_nil hlocation]
    have hpositive := length_render names slash
    have hlength := List.length_pos_iff.mpr hnames
    omega
  have hparent : (parentPath (render location false)).length ≤ (render location false).length :=
    length_parentPath_render hvalid
  refine ⟨hlonger, fun heq => ?_, fun heq => ?_⟩
  · rw [heq] at hlonger
    omega
  · rw [heq] at hlonger
    omega

/-- The loop asks each name below the root whether it is a link. -/
theorem linkFree_of_checkSymlinksFrom {fuel : Nat} (hvalid : ∀ name ∈ location ++ names, ValidName name)
    (hlocation : location ≠ []) (hroot : system.tree.LinkFree location) (hfuel : names.length ≤ fuel)
    (hcheck : checkSymlinksFrom system (render location false) fuel (render (location ++ names) false) = .ok ()) :
    system.tree.LinkFree (location ++ names) := by
  induction names using List.reverseRecOn generalizing fuel with
  | nil => rwa [List.append_nil]
  | append_singleton front last ih =>
    obtain ⟨fuel, rfl⟩ : ∃ less, fuel = less + 1 := ⟨fuel - 1, by simp at hfuel; omega⟩
    rw [← List.append_assoc] at hvalid hcheck ⊢
    have hfront : ∀ name ∈ location ++ front, ValidName name := fun name hname => hvalid name (List.mem_append_left _ hname)
    have hgoes := below_root hlocation (fun name hname => hfront name (List.mem_append_left _ hname))
      (List.append_ne_nil_of_right_ne_nil front (List.cons_ne_nil last [])) false
    rw [← List.append_assoc] at hgoes
    rw [checkSymlinksFrom, if_pos hgoes] at hcheck
    split_ifs at hcheck with hlink
    rw [parentPath_render hfront (hvalid last (by simp))] at hcheck
    have hfree := ih hfront (by simp at hfuel; omega) hcheck
    refine FileTree.linkFree_append_singleton.mpr ⟨hfree, fun target hentry => hlink ?_⟩
    obtain ⟨walked, hlookup, hfound⟩ := FileTree.found_render system.tree system.maxLinks hvalid hfree
    rw [stat, hlookup, Option.bind_some, hfound, hentry]
    exact ⟨rfl, rfl⟩

/-- What a resolved path is: the names of the root and more, with no link among them. -/
structure Resolved (system : System) (location : Location) (path resolved : PathText) : Prop where
  text : resolved = render (location ++ addedNames path) ((rawParts path).getLast?.any opensDirectory)
  valid : ∀ name ∈ location ++ addedNames path, ValidName name
  linkFree : system.tree.LinkFree (location ++ addedNames path)

theorem resolved_of_resolveWorktreePath (hroot : PlainRoot system root location)
    (hresolved : resolveWorktreePath system root path = .ok resolved) : Resolved system location path resolved := by
  simp only [resolveWorktreePath, validatePathSegments, bind_eq_ok, ensure_eq_ok, exists_const, pure_eq_ok] at hresolved
  obtain ⟨⟨-, -, -, -, hdots⟩, hcontinues, _, hcheck, rfl⟩ := hresolved
  have hadded := valid_addedNames hdots
  have hvalid : ∀ name ∈ location ++ addedNames path, ValidName name := by
    intro name hname
    rcases List.mem_append.mp hname with hname | hname
    · exact hroot.valid name hname
    · exact hadded name hname
  refine ⟨hroot.absolute_join hdots, hvalid, ?_⟩
  by_cases hne : addedNames path = []
  · rw [hne, List.append_nil]
    exact hroot.location_eq.2
  rw [hroot.absolute_join hdots, hroot.absolute_eq] at hcontinues
  obtain ⟨hlocation, hslash⟩ := continuesRoot_spec hadded hne hcontinues
  rw [checkNoSymlinkAncestors, hroot.absolute_join hdots, hroot.absolute_eq, hslash] at hcheck
  have hlength := length_render (location ++ addedNames path) false
  have hpositive := List.length_pos_iff.mpr hlocation
  rw [List.length_append] at hlength
  cases hend : (rawParts path).getLast?.any opensDirectory with
  | false =>
    rw [hend] at hcheck
    exact linkFree_of_checkSymlinksFrom hvalid hlocation hroot.location_eq.2 (by omega) hcheck
  | true =>
    rw [hend, length_render_slash (by simp [hne])] at hcheck
    have hbelow := below_root hlocation hroot.valid hne true
    rw [checkSymlinksFrom, if_pos hbelow] at hcheck
    split_ifs at hcheck
    rw [parentPath_render_slash hvalid] at hcheck
    exact linkFree_of_checkSymlinksFrom hvalid hlocation hroot.location_eq.2 (by omega) hcheck

/-! ## What a returned path opens -/

/-- Opening the path leads through no link to a location below the root and outside every `.git`. -/
def StaysInside (system : System) (location : Location) (path : PathText) : Prop :=
  ∃ names blocked, system.tree.lookup system.maxLinks true path = some ⟨location ++ names, false, blocked⟩ ∧
    gitName ∉ location ++ names

/-- Opening the path finds an entry that is no directory. -/
def OpensEntry (system : System) (path : PathText) : Prop :=
  ∃ walked entry, system.tree.lookup system.maxLinks true path = some walked ∧
    system.tree.found walked = some entry ∧ entry ≠ .directory

theorem git_of_mem {slash : Bool} (hgit : gitName ∈ names) :
    gitInfix <:+: render names slash ∨ gitSuffix <:+ render names slash := by
  obtain ⟨front, back, rfl⟩ := List.append_of_mem hgit
  have htext : render (front ++ gitName :: back) slash = front.flatMap (fun name => '/' :: name) ++
      (gitSuffix ++ (back.flatMap (fun name => '/' :: name) ++ if slash = true then ['/'] else [])) := by
    rw [render_append front (List.cons_ne_nil gitName back), render_of_ne_nil (List.cons_ne_nil gitName back),
      List.flatMap_cons, List.append_assoc]
    rfl
  have hinside (rest : PathText) : gitInfix <:+: front.flatMap (fun name => '/' :: name) ++ (gitSuffix ++ '/' :: rest) :=
    ⟨front.flatMap (fun name => '/' :: name), rest, by simp [gitInfix, gitSuffix]⟩
  rw [htext]
  cases back with
  | nil =>
    cases slash with
    | false => exact .inr (by simp)
    | true => exact .inl (hinside [])
  | cons second others => exact .inl (hinside _)

theorem Resolved.staysInside (hresolved : Resolved system location path resolved)
    (hinside : ¬ gitInfix <:+: resolved) (hsuffix : ¬ gitSuffix <:+ resolved) : StaysInside system location resolved := by
  obtain ⟨rfl, hvalid, hfree⟩ := hresolved
  obtain ⟨blocked, hlookup, -⟩ := FileTree.lookup_render system.tree system.maxLinks true hvalid hfree
    ((rawParts path).getLast?.any opensDirectory)
  refine ⟨addedNames path, blocked, hlookup, fun hgit => ?_⟩
  rcases git_of_mem hgit with hmem | hmem
  · exact hinside hmem
  · exact hsuffix hmem

theorem Resolved.opensEntry (hresolved : Resolved system location path resolved)
    (hpresent : pathExists system resolved = .ok true) (hdirectory : (stat system resolved).isDir = false) :
    OpensEntry system resolved := by
  obtain ⟨rfl, hvalid, hfree⟩ := hresolved
  set slash := (rawParts path).getLast?.any opensDirectory
  set names := location ++ addedNames path
  obtain ⟨blocked, hlookup, hopened, -⟩ := FileTree.lookup_render system.tree system.maxLinks true hvalid hfree slash
  obtain ⟨below, hlstat, -, hunblocked⟩ := FileTree.lookup_render system.tree system.maxLinks false hvalid hfree slash
  rw [pathExists, hlookup] at hpresent
  obtain ⟨entry, hentry⟩ := Option.isSome_iff_exists.mp (Except.ok.inj hpresent)
  refine ⟨_, entry, hlookup, hentry, ?_⟩
  rw [FileTree.found] at hentry
  split_ifs at hentry with hblocked
  have hslash : slash = true → system.tree.entry names = some .directory := by
    intro hslash
    by_cases hnames : names = []
    · rw [hnames]
      exact system.tree.root
    · exact hopened (by simpa using hblocked) hnames hslash
  have hbelow := hunblocked (by rw [show system.tree.entry names = some entry from hentry]; rfl) hslash
  rintro rfl
  have hfound : system.tree.found ⟨names, false, below⟩ = some .directory := by
    rw [hbelow]
    exact hentry
  rw [stat, hlstat, Option.bind_some, hfound] at hdirectory
  cases hdirectory

theorem staysInside_of_validateRead (hroot : PlainRoot system root location)
    (hread : validateRead system root path = .ok resolved) :
    StaysInside system location resolved ∧ OpensEntry system resolved := by
  simp only [validateRead, bind_eq_ok, ensure_eq_ok, exists_const, pure_eq_ok] at hread
  obtain ⟨candidate, hresolve, _, hpresent, rfl, hdirectory, -, -, -, hinside, hsuffix, rfl⟩ := hread
  have hresolved := resolved_of_resolveWorktreePath hroot hresolve
  exact ⟨hresolved.staysInside hinside hsuffix, hresolved.opensEntry hpresent hdirectory⟩

theorem staysInside_of_validateWrite (hroot : PlainRoot system root location)
    (hwrite : validateWrite system root path = .ok resolved) : StaysInside system location resolved := by
  simp only [validateWrite, bind_eq_ok, ensure_eq_ok, exists_const, pure_eq_ok] at hwrite
  obtain ⟨candidate, hresolve, hinside, hsuffix, _, -, -, -, _, -, rfl⟩ := hwrite
  exact (resolved_of_resolveWorktreePath hroot hresolve).staysInside hinside hsuffix

/-! ## Files that are accepted -/

/-- The path of a file from the root. -/
def relativePath (names : List Name) : PathText := ['/'].intercalate names

theorem rawParts_relativePath (hvalid : ∀ name ∈ names, ValidName name) (hne : names ≠ []) :
    rawParts (relativePath names) = names :=
  List.splitOn_intercalate '/' (fun name hname => (hvalid name hname).no_slash) hne

theorem addedNames_relativePath (hvalid : ∀ name ∈ names, ValidName name) (hne : names ≠ []) :
    addedNames (relativePath names) = names := by
  rw [addedNames, rawParts_relativePath hvalid hne, List.filter_eq_self]
  intro name hname
  simp [(hvalid name hname).nonempty, (hvalid name hname).not_dot]

theorem opensDirectory_relativePath (hvalid : ∀ name ∈ names, ValidName name) (hne : names ≠ []) :
    (rawParts (relativePath names)).getLast?.any opensDirectory = false := by
  rw [rawParts_relativePath hvalid hne, List.getLast?_eq_getLast_of_ne_nil hne]
  have hlast := hvalid (names.getLast hne) (List.getLast_mem hne)
  simp [opensDirectory, hlast.nonempty, hlast.not_dot, hlast.not_dots]

theorem validatePathSegments_relativePath (hvalid : ∀ name ∈ names, ValidName name ∧ Char.ofNat 0 ∉ name)
    (hne : names ≠ []) (hdrive : hasDrive (relativePath names) = false) :
    validatePathSegments (relativePath names) = .ok () := by
  have hparts := rawParts_relativePath (fun name hname => (hvalid name hname).1) hne
  have hempty : relativePath names ≠ [] := by
    intro heq
    rw [heq] at hparts
    exact (hvalid [] (by rw [← hparts]; exact List.mem_singleton.mpr rfl)).1.nonempty rfl
  have hnul : Char.ofNat 0 ∉ relativePath names := by
    intro hmem
    obtain ⟨part, hpart, hpartMem⟩ := exists_mem_rawParts hmem (by decide)
    rw [hparts] at hpart
    exact (hvalid part hpart).2 hpartMem
  have hrelative : isAbsolute (relativePath names) = false := by
    cases hpath : relativePath names with
    | nil => rfl
    | cons c rest =>
      have hc : c ≠ '/' := by
        rintro rfl
        rw [hpath, rawParts_cons, if_pos rfl] at hparts
        exact (hvalid [] (by rw [← hparts]; exact List.mem_cons_self)).1.nonempty rfl
      simp [isAbsolute, hc]
  have hdots : ['.', '.'] ∉ rawParts (relativePath names) := by
    rw [hparts]
    intro hmem
    exact (hvalid _ hmem).1.not_dots rfl
  simp only [validatePathSegments, bind_eq_ok, ensure_eq_ok, exists_const]
  exact ⟨hempty, hnul, hrelative, hdrive, hdots⟩

theorem stat_isSymlink {slash : Bool} (hvalid : ∀ name ∈ names, ValidName name) (hfree : system.tree.LinkFree names) :
    (stat system (render names slash)).isSymlink = false := by
  obtain ⟨blocked, hlookup, -⟩ := FileTree.lookup_render system.tree system.maxLinks false hvalid hfree slash
  rw [stat, hlookup, Option.bind_some]
  have hlink : ∀ target, system.tree.entry names ≠ some (.link target) := by
    intro target hentry
    rcases List.eq_nil_or_concat names with rfl | ⟨front, last, rfl⟩
    · rw [system.tree.root] at hentry
      cases hentry
    · rw [List.concat_eq_append] at hfree hentry
      exact (FileTree.linkFree_append_singleton.mp hfree).2 target hentry
  rw [FileTree.found]
  cases blocked with
  | true => rfl
  | false =>
    cases hentry : system.tree.entry names with
    | none => simp
    | some entry =>
      cases entry with
      | link target => exact absurd hentry (hlink target)
      | file => simp
      | directory => simp
      | other => simp

theorem checkSymlinksFrom_of_linkFree {rootText : PathText} {fuel : Nat} (hvalid : ∀ name ∈ names, ValidName name)
    (hfree : system.tree.LinkFree names) : checkSymlinksFrom system rootText fuel (render names false) = .ok () := by
  induction fuel generalizing names with
  | zero => rfl
  | succ fuel ih =>
    have hlink : ¬ ((stat system (render names false)).found = true ∧ (stat system (render names false)).isSymlink = true) := by
      rw [stat_isSymlink hvalid hfree]
      simp
    rw [checkSymlinksFrom, if_neg hlink]
    split_ifs
    · rcases List.eq_nil_or_concat names with rfl | ⟨front, last, rfl⟩
      · have hparent : parentPath (render [] false) = render [] false := by decide
        rw [hparent]
        exact ih hvalid hfree
      · rw [List.concat_eq_append] at hvalid hfree ⊢
        have hfront : ∀ name ∈ front, ValidName name := fun name hname => hvalid name (List.mem_append_left _ hname)
        rw [parentPath_render hfront (hvalid last (by simp))]
        exact ih hfront (FileTree.linkFree_append_singleton.mp hfree).1
    · rfl

/-- A text between two slashes, or after the last one, is one of the names. -/
theorem not_git_of_not_mem (hvalid : ∀ name ∈ names, ValidName name) (hgit : gitName ∉ names) :
    ¬ gitInfix <:+: render names false ∧ ¬ gitSuffix <:+ render names false := by
  have hparts : rawParts (render names false) = if names = [] then [[], []] else [] :: names := by
    rw [rawParts_render fun name hname => (hvalid name hname).no_slash]
    simp
  have hnot : gitName ∉ rawParts (render names false) := by
    rw [hparts]
    split_ifs
    · simp [gitName]
    · exact List.not_mem_cons_of_ne_of_not_mem (by simp [gitName]) hgit
  have hone : rawParts gitName = [gitName] := rawParts_of_no_slash (by decide)
  constructor
  · rintro ⟨front, back, heq⟩
    have htext : front ++ gitInfix ++ back = front ++ '/' :: (gitName ++ '/' :: back) := by simp [gitInfix, gitName]
    rw [← heq, htext, rawParts_append_slash, rawParts_append_slash, hone] at hnot
    exact hnot (by simp)
  · rintro ⟨front, heq⟩
    have htext : front ++ gitSuffix = front ++ '/' :: gitName := rfl
    rw [← heq, htext, rawParts_append_slash, hone] at hnot
    exact hnot (by simp)

theorem continuesRoot_append (hlocation : location ≠ []) (hne : names ≠ []) :
    continuesRoot (render location false) (render (location ++ names) false) = true := by
  have htext : render (location ++ names) false = render location false ++ render names false := by
    rw [render_append location hne, render_false_of_ne_nil hlocation]
  obtain ⟨name, rest, rfl⟩ := List.exists_cons_of_ne_nil hne
  rw [continuesRoot, htext]
  simp [render]

/-- A root whose normal form ends in a slash is `/` or was written with something empty at its end. -/
theorem PlainRoot.of_no_slash (hroot : PlainRoot system root location)
    (hslash : (RepoPaths.absolute system root).getLast? ≠ some '/') :
    location ≠ [] ∧ RepoPaths.absolute system root = render location false := by
  rw [hroot.absolute_eq] at hslash ⊢
  have hlocation : location ≠ [] := by
    rintro rfl
    simp [render] at hslash
  refine ⟨hlocation, ?_⟩
  cases hend : (rawParts root).getLast?.any opensDirectory with
  | false => rfl
  | true =>
    rw [hend, render_of_ne_nil hlocation] at hslash
    simp at hslash

theorem accepted_of_file (hroot : PlainRoot system root location)
    (hslash : (RepoPaths.absolute system root).getLast? ≠ some '/') (hne : names ≠ [])
    (hfile : system.tree.entry (location ++ names) = some .file) (hgit : gitName ∉ names)
    (hdrive : hasDrive (relativePath names) = false) :
    validateRead system root (relativePath names) = .ok (render (location ++ names) false) ∧
      validateWrite system root (relativePath names) = .ok (render (location ++ names) false) := by
  obtain ⟨hlocation, htext⟩ := hroot.of_no_slash hslash
  have hentry : (system.tree.entry (location ++ names)).isSome = true := by rw [hfile]; rfl
  have hall := FileTree.valid_of_entry hentry
  have hvalid : ∀ name ∈ location ++ names, ValidName name := fun name hname => (hall name hname).1
  have hnames : ∀ name ∈ names, ValidName name := fun name hname => hvalid name (List.mem_append_right _ hname)
  have hfree := FileTree.LinkFree.of_entry hfile
  have hsegments := validatePathSegments_relativePath (fun name hname => hall name (List.mem_append_right _ hname)) hne hdrive
  have hdots : ['.', '.'] ∉ rawParts (relativePath names) := by
    rw [rawParts_relativePath hnames hne]
    exact fun hmem => (hnames _ hmem).not_dots rfl
  have hresolved : RepoPaths.absolute system (joinPath root (relativePath names)) = render (location ++ names) false := by
    rw [hroot.absolute_join hdots, addedNames_relativePath hnames hne, opensDirectory_relativePath hnames hne]
  have hcheck : checkNoSymlinkAncestors system (render (location ++ names) false) root = .ok () := by
    rw [checkNoSymlinkAncestors]
    exact checkSymlinksFrom_of_linkFree hvalid hfree
  have hresolve : resolveWorktreePath system root (relativePath names) = .ok (render (location ++ names) false) := by
    simp only [resolveWorktreePath, bind_eq_ok, ensure_eq_ok, exists_const, pure_eq_ok]
    refine ⟨(), hsegments, ?_, (), ?_, hresolved⟩
    · rw [hresolved, htext]
      exact continuesRoot_append hlocation hne
    · rw [hresolved]
      exact hcheck
  obtain ⟨blocked, hlookup, -, hopen⟩ := FileTree.lookup_render system.tree system.maxLinks true hvalid hfree false
  obtain ⟨below, hlstat, -, hbelow⟩ := FileTree.lookup_render system.tree system.maxLinks false hvalid hfree false
  have hpresent : pathExists system (render (location ++ names) false) = .ok true := by
    rw [pathExists, hlookup, hopen hentry (by simp)]
    simp [FileTree.found, hfile]
  have hstat : stat system (render (location ++ names) false) = ⟨true, false, false⟩ := by
    rw [stat, hlstat, hbelow hentry (by simp)]
    simp [FileTree.found, hfile]
  have hgits : gitName ∉ location ++ names := by
    intro hmem
    rcases List.mem_append.mp hmem with hmem | hmem
    · exact hroot.no_git hmem
    · exact hgit hmem
  obtain ⟨hinside, hsuffix⟩ := not_git_of_not_mem hvalid hgits
  constructor
  · simp only [validateRead, bind_eq_ok, ensure_eq_ok, exists_const, pure_eq_ok]
    exact ⟨_, hresolve, true, hpresent, rfl, by rw [hstat], by rw [hstat], (), hcheck, hinside, hsuffix, rfl⟩
  · simp only [validateWrite, bind_eq_ok, ensure_eq_ok, exists_const, pure_eq_ok]
    exact ⟨_, hresolve, hinside, hsuffix, true, hpresent, fun _ => by rw [hstat], fun _ => by rw [hstat], (), hcheck, rfl⟩

/-- What a check returns stays inside the root. A plain file inside it is accepted by its path from the root,
unless the path looks like one on a drive or the root ends in a slash. -/
theorem access_stays_inside (hroot : PlainRoot system root location) :
    (∀ path resolved, validateRead system root path = .ok resolved →
      StaysInside system location resolved ∧ OpensEntry system resolved) ∧
    (∀ path resolved, validateWrite system root path = .ok resolved → StaysInside system location resolved) ∧
    ((RepoPaths.absolute system root).getLast? ≠ some '/' → ∀ names, names ≠ [] →
      system.tree.entry (location ++ names) = some .file → gitName ∉ names → hasDrive (relativePath names) = false →
      validateRead system root (relativePath names) = .ok (render (location ++ names) false) ∧
        validateWrite system root (relativePath names) = .ok (render (location ++ names) false)) :=
  ⟨fun _ _ hread => staysInside_of_validateRead hroot hread, fun _ _ hwrite => staysInside_of_validateWrite hroot hwrite,
    fun hslash _ hne hfile hgit hdrive => accepted_of_file hroot hslash hne hfile hgit hdrive⟩

def driveEntry : Location → Option FileEntry
  | [] => some .directory
  | [first] => if first = ['w'] then some .directory else none
  | [first, second] =>
    if first = ['w'] ∧ second = ['a'] then some .file
    else if first = ['w'] ∧ second = ['c', ':'] then some .directory else none
  | [first, second, third] => if first = ['w'] ∧ second = ['c', ':'] ∧ third = ['x'] then some .file else none
  | _ => none

/-- A worktree with a file `a` and a directory named like a drive. -/
def driveTree : FileTree where
  entry := driveEntry
  root := rfl
  parent location name hentry := by
    rcases location with - | ⟨first, - | ⟨second, - | ⟨third, more⟩⟩⟩
    · rfl
    · simp only [List.cons_append, List.nil_append, driveEntry] at hentry ⊢
      split_ifs at hentry with hfile hdrive
      · rw [if_pos hfile.1]
      · rw [if_pos hdrive.1]
      · cases hentry
    · simp only [List.cons_append, List.nil_append, driveEntry] at hentry ⊢
      split_ifs at hentry with hfile
      · obtain ⟨rfl, rfl, -⟩ := hfile
        decide
      · cases hentry
    · simp [driveEntry] at hentry
  valid location name hentry := by
    have hname : name = ['w'] ∨ name = ['a'] ∨ name = ['c', ':'] ∨ name = ['x'] := by
      rcases location with - | ⟨first, - | ⟨second, - | ⟨third, more⟩⟩⟩
      · simp only [List.nil_append, driveEntry] at hentry
        split_ifs at hentry with hw
        · exact .inl hw
        · cases hentry
      · simp only [List.cons_append, List.nil_append, driveEntry] at hentry
        split_ifs at hentry with hfile hdrive
        · exact .inr (.inl hfile.2)
        · exact .inr (.inr (.inl hdrive.2))
        · cases hentry
      · simp only [List.cons_append, List.nil_append, driveEntry] at hentry
        split_ifs at hentry with hfile
        · exact .inr (.inr (.inr hfile.2.2))
        · cases hentry
      · simp [driveEntry] at hentry
    rcases hname with rfl | rfl | rfl | rfl
    · exact ⟨⟨by decide, by decide, by decide, by decide⟩, by decide⟩
    · exact ⟨⟨by decide, by decide, by decide, by decide⟩, by decide⟩
    · exact ⟨⟨by decide, by decide, by decide, by decide⟩, by decide⟩
    · exact ⟨⟨by decide, by decide, by decide, by decide⟩, by decide⟩

def driveSystem : System := ⟨driveTree, 40, ['/']⟩

theorem plainRoot_drive : PlainRoot driveSystem ['/', 'w'] [['w']] :=
  ⟨rfl, ⟨false, by decide⟩, by decide⟩

theorem access_stays_inside_file :
    validateRead driveSystem ['/', 'w'] ['a'] = .ok ['/', 'w', '/', 'a'] ∧
      validateWrite driveSystem ['/', 'w'] ['a'] = .ok ['/', 'w', '/', 'a'] :=
  (access_stays_inside plainRoot_drive).2.2 (by decide) [['a']] (by decide) rfl (by decide) (by decide)

/-- Below a directory named like a drive a file is refused, and below a root with a slash at its end every file. -/
theorem plain_file_refused : PlainRoot driveSystem ['/', 'w'] [['w']] ∧
    driveTree.entry [['w'], ['c', ':'], ['x']] = some .file ∧
    validateRead driveSystem ['/', 'w'] (relativePath [['c', ':'], ['x']]) = .error "path must not be absolute" ∧
    PlainRoot driveSystem ['/', 'w', '/'] [['w']] ∧ driveTree.entry [['w'], ['a']] = some .file ∧
    validateRead driveSystem ['/', 'w', '/'] (relativePath [['a']]) = .error "path escapes worktree: a" :=
  ⟨plainRoot_drive, rfl, by decide, ⟨rfl, ⟨false, by decide⟩, by decide⟩, rfl, by decide⟩

end Space2.RepoPaths
