import Mathlib.Data.List.Basic
import Mathlib.Data.List.Infix

/-!
# Texts of paths

A path is a text of parts between slashes. Its normal form drops empty parts and dots and
lets two dots take back the part before them; what ends in such a part ends in a slash.
-/

namespace Space2.Base

abbrev PathText := List Char

abbrev Name := List Char

def rawParts (text : PathText) : List Name := text.splitOn '/'

def isAbsolute (text : PathText) : Bool := text.head? = some '/'

/-- A name that a directory can have. -/
structure ValidName (name : Name) : Prop where
  nonempty : name ≠ []
  not_dot : name ≠ ['.']
  not_dots : name ≠ ['.', '.']
  no_slash : '/' ∉ name

/-- Where one more part leads from a list of names. -/
def stepPart (names : List Name) (part : Name) : List Name :=
  if part = [] ∨ part = ['.'] then names else if part = ['.', '.'] then names.dropLast else names ++ [part]

/-- After such a part the normal form keeps a slash. -/
def opensDirectory (part : Name) : Bool := part = [] || part = ['.'] || part = ['.', '.']

def render (names : List Name) (slash : Bool) : PathText :=
  if names = [] then ['/'] else names.flatMap (fun name => '/' :: name) ++ if slash = true then ['/'] else []

/-- The normal form of an absolute path. -/
def normalText (text : PathText) : PathText :=
  render ((rawParts text).foldl stepPart []) ((rawParts text).getLast?.any opensDirectory)

def parentPath (text : PathText) : PathText :=
  let parent := ((text.reverse.dropWhile (· ≠ '/')).dropWhile (· = '/')).reverse
  if parent = [] ∧ isAbsolute text = true then ['/'] else parent

/-- A relative path below a path. -/
def joinPath (base part : PathText) : PathText :=
  if base = [] ∨ base.getLast? = some '/' then base ++ part else base ++ '/' :: part

variable {names more : List Name} {name : Name} {slash : Bool} {text : PathText}

/-! ## Parts -/

theorem rawParts_append_slash (front back : PathText) :
    rawParts (front ++ '/' :: back) = rawParts front ++ rawParts back :=
  List.splitOn_append_cons_self front back

theorem rawParts_of_no_slash (hslash : '/' ∉ text) : rawParts text = [text] := List.splitOn_eq_singleton hslash

theorem rawParts_ne_nil (text : PathText) : rawParts text ≠ [] := List.splitOn_ne_nil '/' text

theorem rawParts_cons (c : Char) (text : PathText) : rawParts (c :: text) =
    if c = '/' then [] :: rawParts text else (rawParts text).modifyHead (List.cons c) := by
  rw [rawParts, List.splitOn_cons_eq_if_modifyHead]
  simp [rawParts]

theorem not_mem_of_mem_rawParts {part : Name} (hpart : part ∈ rawParts text) : '/' ∉ part := by
  induction text generalizing part with
  | nil =>
    rw [List.mem_singleton.mp hpart]
    simp
  | cons c rest ih =>
    rw [rawParts_cons] at hpart
    split_ifs at hpart with hc
    · rcases List.mem_cons.mp hpart with rfl | hpart
      · simp
      · exact ih hpart
    · cases hrest : rawParts rest with
      | nil => exact absurd hrest (rawParts_ne_nil rest)
      | cons first others =>
        rw [hrest] at hpart ih
        rcases List.mem_cons.mp hpart with rfl | hpart
        · exact List.not_mem_cons_of_ne_of_not_mem (Ne.symm hc) (ih List.mem_cons_self)
        · exact ih (List.mem_cons_of_mem first hpart)

theorem exists_mem_rawParts {c : Char} (hc : c ∈ text) (hslash : c ≠ '/') : ∃ part ∈ rawParts text, c ∈ part := by
  obtain ⟨front, back, rfl⟩ := List.append_of_mem hc
  induction front with
  | nil =>
    rw [List.nil_append, rawParts_cons, if_neg hslash]
    cases hrest : rawParts back with
    | nil => exact absurd hrest (rawParts_ne_nil back)
    | cons first others => exact ⟨c :: first, by simp, by simp⟩
  | cons d front ih =>
    obtain ⟨part, hpart, hmem⟩ := ih (by simp)
    rw [List.cons_append, rawParts_cons]
    split_ifs with hd
    · exact ⟨part, List.mem_cons_of_mem [] hpart, hmem⟩
    · cases hrest : rawParts (front ++ c :: back) with
      | nil => exact absurd hrest (rawParts_ne_nil _)
      | cons first others =>
        rw [hrest] at hpart
        rcases List.mem_cons.mp hpart with rfl | hpart
        · exact ⟨d :: part, by simp, by simp [hmem]⟩
        · exact ⟨part, by simp [hpart], hmem⟩

/-- The names that a walk along the parts collects are valid. -/
theorem valid_foldl_stepPart {parts start : List Name} (hparts : ∀ part ∈ parts, '/' ∉ part)
    (hstart : ∀ name ∈ start, ValidName name) : ∀ name ∈ parts.foldl stepPart start, ValidName name := by
  induction parts generalizing start with
  | nil => exact hstart
  | cons part rest ih =>
    apply ih fun other hother => hparts other (List.mem_cons_of_mem part hother)
    intro name hname
    rw [stepPart] at hname
    split_ifs at hname with hskip hdots
    · exact hstart name hname
    · exact hstart name (List.mem_of_mem_dropLast hname)
    · obtain ⟨hempty, hdot⟩ := not_or.mp hskip
      rcases List.mem_append.mp hname with hname | hname
      · exact hstart name hname
      · rw [List.mem_singleton.mp hname]
        exact ⟨hempty, hdot, hdots, hparts part List.mem_cons_self⟩

/-- Joining runs the parts of both paths one after the other. -/
theorem foldl_joinPath (base part : PathText) (start : List Name) :
    (rawParts (joinPath base part)).foldl stepPart start =
      (rawParts part).foldl stepPart ((rawParts base).foldl stepPart start) := by
  have hempty : (rawParts []).foldl stepPart start = start := by simp [rawParts, stepPart]
  rw [joinPath]
  split_ifs with hbase
  · rcases hbase with rfl | hlast
    · rw [List.nil_append, hempty]
    · obtain ⟨front, rfl⟩ := List.getLast?_eq_some_iff.mp hlast
      rw [List.append_assoc, List.singleton_append, rawParts_append_slash, rawParts_append_slash, List.foldl_append,
        List.foldl_append]
      simp [rawParts, stepPart]
  · rw [rawParts_append_slash, List.foldl_append]

theorem getLast_joinPath (base part : PathText) : (rawParts (joinPath base part)).getLast? = (rawParts part).getLast? := by
  have happend (front : List Name) : (front ++ rawParts part).getLast? = (rawParts part).getLast? := by
    rw [List.getLast?_append_of_ne_nil _ (rawParts_ne_nil part)]
  rw [joinPath]
  split_ifs with hbase
  · rcases hbase with rfl | hlast
    · rfl
    · obtain ⟨front, rfl⟩ := List.getLast?_eq_some_iff.mp hlast
      rw [List.append_assoc, List.singleton_append, rawParts_append_slash, happend]
  · rw [rawParts_append_slash, happend]

/-- Without two dots a path only adds names. -/
theorem foldl_stepPart_of_no_dots {parts : List Name} (hparts : ['.', '.'] ∉ parts) (start : List Name) :
    parts.foldl stepPart start = start ++ parts.filter fun part => part ≠ [] ∧ part ≠ ['.'] := by
  induction parts generalizing start with
  | nil => simp
  | cons part rest ih =>
    obtain ⟨hpart, hrest⟩ : ['.', '.'] ≠ part ∧ ['.', '.'] ∉ rest := by simpa [List.mem_cons, not_or] using hparts
    rw [List.foldl_cons, ih hrest, stepPart]
    by_cases hskip : part = [] ∨ part = ['.']
    · rw [if_pos hskip]
      rcases hskip with rfl | rfl <;> simp
    · obtain ⟨hempty, hdot⟩ := not_or.mp hskip
      rw [if_neg hskip, if_neg (Ne.symm hpart), List.filter_cons_of_pos (by simp [hempty, hdot]), List.append_assoc,
        List.singleton_append]

/-! ## Rendering -/

theorem render_nil : render [] slash = ['/'] := rfl

theorem render_of_ne_nil (hnames : names ≠ []) :
    render names slash = names.flatMap (fun name => '/' :: name) ++ if slash = true then ['/'] else [] := if_neg hnames

theorem render_false_of_ne_nil (hnames : names ≠ []) : render names false = names.flatMap fun name => '/' :: name := by
  rw [render_of_ne_nil hnames]
  simp

theorem render_append (names : List Name) (hmore : more ≠ []) :
    render (names ++ more) slash = names.flatMap (fun name => '/' :: name) ++ render more slash := by
  have hne : names ++ more ≠ [] := by simp [hmore]
  rw [render_of_ne_nil hne, render_of_ne_nil hmore, List.flatMap_append, List.append_assoc]

theorem isAbsolute_render (names : List Name) (slash : Bool) : isAbsolute (render names slash) = true := by
  cases names with
  | nil => rfl
  | cons name rest => simp [render, isAbsolute]

theorem length_render (names : List Name) (slash : Bool) : names.length ≤ (render names slash).length := by
  cases names with
  | nil => simp
  | cons name rest =>
    have hparts (l : List Name) : l.length ≤ (l.flatMap fun name => '/' :: name).length := by
      induction l with
      | nil => simp
      | cons first rest ih =>
        rw [List.flatMap_cons, List.length_append, List.length_cons, List.length_cons]
        omega
    rw [render_of_ne_nil (List.cons_ne_nil name rest), List.length_append]
    have hle := hparts (name :: rest)
    omega

theorem length_render_slash (hnames : names ≠ []) : (render names true).length = (render names false).length + 1 := by
  rw [render_of_ne_nil hnames, render_of_ne_nil hnames]
  simp

theorem rawParts_flatMap (hnames : ∀ name ∈ names, '/' ∉ name) (front tail : PathText) :
    rawParts (front ++ names.flatMap (fun name => '/' :: name) ++ '/' :: tail) =
      rawParts front ++ names ++ rawParts tail := by
  induction names generalizing front with
  | nil => simp [rawParts_append_slash]
  | cons name rest ih =>
    have hrest := ih (fun other hother => hnames other (List.mem_cons_of_mem name hother)) name
    have hfirst : rawParts name = [name] := rawParts_of_no_slash (hnames name List.mem_cons_self)
    have hsplit : front ++ (name :: rest).flatMap (fun name => '/' :: name) ++ '/' :: tail =
        front ++ '/' :: (name ++ rest.flatMap (fun name => '/' :: name) ++ '/' :: tail) := by simp
    rw [hsplit, rawParts_append_slash, hrest, hfirst]
    simp

theorem rawParts_render (hnames : ∀ name ∈ names, '/' ∉ name) :
    rawParts (render names slash) = if names = [] then [[], []] else [] :: names ++ if slash = true then [[]] else [] := by
  rcases List.eq_nil_or_concat names with rfl | ⟨front, last, rfl⟩
  · rfl
  · have hfront : ∀ name ∈ front, '/' ∉ name := fun name hname => hnames name (by simp [hname])
    have hlast : '/' ∉ last := hnames last (by simp)
    rw [List.concat_eq_append, if_neg (by simp), render_append front (by simp)]
    cases slash with
    | false =>
      have hone : render [last] false = '/' :: last := by simp [render]
      have hparts := rawParts_flatMap hfront [] last
      rw [List.nil_append] at hparts
      rw [hone, hparts, rawParts_of_no_slash hlast]
      simp [rawParts]
    | true =>
      have hone : render [last] true = '/' :: (last ++ ['/']) := by simp [render]
      have hend : rawParts (last ++ ['/']) = [last, []] := by
        rw [rawParts_append_slash, rawParts_of_no_slash hlast]
        rfl
      have hparts := rawParts_flatMap hfront [] (last ++ ['/'])
      rw [List.nil_append] at hparts
      rw [hone, hparts, hend]
      simp [rawParts]

/-! ## Parents -/

theorem dropWhile_reverse_flatMap (hnames : ∀ name ∈ names, ValidName name) :
    (names.flatMap fun name => '/' :: name).reverse.dropWhile (· = '/') =
      (names.flatMap fun name => '/' :: name).reverse := by
  rcases List.eq_nil_or_concat names with rfl | ⟨front, last, rfl⟩
  · rfl
  · have hlast := hnames last (by simp)
    obtain ⟨start, c, rfl⟩ := List.eq_nil_or_concat last |>.resolve_left hlast.nonempty
    have hc : c ≠ '/' := by
      rintro rfl
      exact hlast.no_slash (by simp)
    simp [List.flatMap_append, hc]

theorem parentPath_render (hfront : ∀ name ∈ names, ValidName name) (hname : ValidName name) :
    parentPath (render (names ++ [name]) false) = render names false := by
  have htext : render (names ++ [name]) false = names.flatMap (fun name => '/' :: name) ++ '/' :: name := by
    rw [render_append names (by simp)]
    simp [render]
  have hslash : ∀ c ∈ name.reverse, (decide (c ≠ '/')) = true := by
    intro c hc
    have hne : c ≠ '/' := by
      rintro rfl
      exact hname.no_slash (List.mem_reverse.mp hc)
    exact decide_eq_true hne
  have habsolute : isAbsolute (render (names ++ [name]) false) = true := isAbsolute_render _ _
  rw [parentPath, habsolute, htext, List.reverse_append, List.reverse_cons, List.append_assoc,
    List.dropWhile_append_of_pos hslash]
  simp only [List.singleton_append, ne_eq, decide_not]
  rw [List.dropWhile_cons_of_neg (by simp), List.dropWhile_cons_of_pos (by simp), dropWhile_reverse_flatMap hfront,
    List.reverse_reverse]
  cases names with
  | nil => rfl
  | cons first rest => simp [render]

theorem parentPath_render_slash (hnames : ∀ name ∈ names, ValidName name) :
    parentPath (render names true) = render names false := by
  cases names with
  | nil => decide
  | cons first rest =>
    have htext : render (first :: rest) true = (first :: rest).flatMap (fun name => '/' :: name) ++ ['/'] := by
      simp [render]
    have habsolute : isAbsolute (render (first :: rest) true) = true := isAbsolute_render _ _
    rw [parentPath, habsolute, htext, List.reverse_append, List.reverse_singleton, List.singleton_append,
      List.dropWhile_cons_of_neg (by simp), List.dropWhile_cons_of_pos (by simp), dropWhile_reverse_flatMap hnames,
      List.reverse_reverse]
    simp [render]

theorem length_parentPath_render (hnames : ∀ name ∈ names, ValidName name) :
    (parentPath (render names false)).length ≤ (render names false).length := by
  rcases List.eq_nil_or_concat names with rfl | ⟨front, last, rfl⟩
  · decide
  · rw [List.concat_eq_append] at hnames ⊢
    have hfront : ∀ name ∈ front, ValidName name := fun name hname => hnames name (List.mem_append_left _ hname)
    rw [parentPath_render hfront (hnames last (by simp)), render_append front (by simp)]
    cases front with
    | nil => simp [render]
    | cons first rest => simp [render]

end Space2.Base
