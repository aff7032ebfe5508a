import Space2.Ics.Grammar

/-!
# Reading back what is written

Folding puts a line break and a blank between parts of a line and unfolding takes them out; an
escaped text is read character by character; and a line is cut where its separators stand, provided
that no name and no parameter value has a separator of its own.
-/
namespace Space2.Ics
open Base

variable {text line rest chars : Text} {lines : List Text} {empty ended : Bool}

/-- Without line breaks. -/
def Unbroken (text : Text) : Prop := '\r' ∉ text ∧ '\n' ∉ text

theorem unbroken_append {left right : Text} :
    Unbroken (left ++ right) ↔ Unbroken left ∧ Unbroken right := by
  simp only [Unbroken, List.mem_append, not_or]
  tauto

section Folding

theorem continuations_nil : continuations [] = [] := by rw [continuations, if_pos rfl]

theorem continuations_ne_nil (h : rest ≠ []) :
    continuations rest = rest.take 74 :: continuations (rest.drop 74) := by
  rw [continuations, if_neg h]

theorem flatten_continuations (rest : Text) : (continuations rest).flatten = rest := by
  induction rest using continuations.induct with
  | case1 => rw [continuations_nil, List.flatten_nil]
  | case2 rest hne ih =>
    rw [continuations_ne_nil hne, List.flatten_cons, ih, List.take_append_drop]

theorem length_of_mem_continuations {part : Text} (h : part ∈ continuations rest) :
    part.length ≤ 74 := by
  induction rest using continuations.induct with
  | case1 =>
    rw [continuations_nil] at h
    cases h
  | case2 rest hne ih =>
    rw [continuations_ne_nil hne] at h
    rcases List.mem_cons.mp h with rfl | hlater
    · exact List.length_take_le 74 rest
    · exact ih hlater

theorem unbroken_of_mem_continuations (h : Unbroken rest) {part : Text}
    (hpart : part ∈ continuations rest) : Unbroken part := by
  have hmem : ∀ c ∈ part, c ∈ rest := by
    intro c hc
    rw [← flatten_continuations rest]
    exact List.mem_flatten_of_mem hpart hc
  exact ⟨fun hc => h.1 (hmem _ hc), fun hc => h.2 (hmem _ hc)⟩

theorem intercalate_cons (separator first : Text) (parts : List Text) :
    List.intercalate separator (first :: parts) =
      first ++ parts.flatMap fun part => separator ++ part := by
  induction parts generalizing first with
  | nil => simp
  | cons part parts ih =>
    rw [List.intercalate_cons_cons, ih, List.flatMap_cons, List.append_assoc, List.append_assoc]

/-- The physical lines of a folded line. -/
theorem foldLine_physical (hline : Unbroken line) : ∃ physical : List Text,
    foldLine line = List.intercalate crlf physical ∧
      ∀ part ∈ physical, part.length ≤ 75 ∧ Unbroken part := by
  unfold foldLine
  split_ifs with hshort
  · exact ⟨[line], by simp [List.intercalate], by simpa using ⟨hshort, hline⟩⟩
  · have hparts := (unbroken_append.mp ((List.take_append_drop 75 line).symm ▸ hline))
    refine ⟨line.take 75 :: (continuations (line.drop 75)).map (' ' :: ·), ?_, ?_⟩
    · rw [intercalate_cons, List.flatMap_map]
    · intro part hpart
      rcases List.mem_cons.mp hpart with rfl | hlater
      · exact ⟨List.length_take_le 75 line, hparts.1⟩
      · obtain ⟨part, hmem, rfl⟩ := List.mem_map.mp hlater
        have hlength := length_of_mem_continuations hmem
        have hunbroken := unbroken_of_mem_continuations hparts.2 hmem
        refine ⟨by rw [List.length_cons]; omega, ?_⟩
        simpa [Unbroken] using hunbroken

end Folding

section Unfolding

theorem unfoldFrom_nil (empty : Bool) (lines : List Text) (chars : Text) (ended : Bool) :
    unfoldFrom empty lines chars ended [] =
      if (chars ≠ [] ∨ ended = false) ∧ ¬ (empty = true ∧ chars = []) then .ok (lines ++ [chars])
      else .ok lines := rfl

theorem unfoldFrom_plain {char : Char} (hreturn : char ≠ '\r') (hfeed : char ≠ '\n') :
    unfoldFrom empty lines chars ended (char :: rest) =
      unfoldFrom empty lines (chars ++ [char]) false rest := by
  simp [unfoldFrom, hreturn, hfeed]

theorem unfoldFrom_unbroken (h : Unbroken text) (hne : text ≠ []) :
    unfoldFrom empty lines chars ended (text ++ rest) =
      unfoldFrom empty lines (chars ++ text) false rest := by
  induction text generalizing chars ended with
  | nil => exact absurd rfl hne
  | cons char text ih =>
    have hchar : char ≠ '\r' ∧ char ≠ '\n' := by
      constructor
      · rintro rfl
        exact h.1 List.mem_cons_self
      · rintro rfl
        exact h.2 List.mem_cons_self
    have htext : Unbroken text :=
      ⟨fun hc => h.1 (List.mem_cons_of_mem _ hc), fun hc => h.2 (List.mem_cons_of_mem _ hc)⟩
    rw [List.cons_append, unfoldFrom_plain hchar.1 hchar.2]
    by_cases hlast : text = []
    · rw [hlast, List.nil_append]
    · rw [ih htext hlast, List.append_assoc, List.singleton_append]

theorem unfoldFrom_continued {newline : Text} (hnewline : newline = crlf ∨ newline = ['\n']) :
    unfoldFrom empty lines chars ended (newline ++ ' ' :: rest) =
      unfoldFrom empty lines chars true rest := by
  rcases hnewline with rfl | rfl <;> rfl

/-- The rest of a folded line is added to the line under way. -/
theorem unfoldFrom_continuations {newline : Text} (hnewline : newline = crlf ∨ newline = ['\n'])
    {parts : List Text} (hparts : ∀ part ∈ parts, Unbroken part) (hchars : chars ≠ []) :
    unfoldFrom empty lines chars ended (parts.flatMap fun part => newline ++ ' ' :: part) =
      .ok (lines ++ [chars ++ parts.flatten]) := by
  induction parts generalizing chars ended with
  | nil => simp [unfoldFrom_nil, hchars]
  | cons part parts ih =>
    obtain ⟨hpart, hlater⟩ := List.forall_mem_cons.mp hparts
    rw [List.flatMap_cons, List.append_assoc, List.cons_append, unfoldFrom_continued hnewline,
      List.flatten_cons]
    by_cases hempty : part = []
    · rw [hempty, List.nil_append, List.nil_append, ih hlater hchars]
    · rw [unfoldFrom_unbroken hpart hempty, ih hlater (by simp [hchars]), List.append_assoc]

theorem replaceBreaks_unbroken (newline : Text) (h : Unbroken text) :
    replaceBreaks newline (text ++ rest) = text ++ replaceBreaks newline rest := by
  induction text with
  | nil => rfl
  | cons char text ih =>
    have hreturn : char ≠ '\r' := by
      rintro rfl
      exact h.1 List.mem_cons_self
    have htext : Unbroken text :=
      ⟨fun hc => h.1 (List.mem_cons_of_mem _ hc), fun hc => h.2 (List.mem_cons_of_mem _ hc)⟩
    rw [List.cons_append, List.cons_append, ← ih htext]
    simp [replaceBreaks, hreturn]

theorem replaceBreaks_continuations (newline : Text) {parts : List Text}
    (hparts : ∀ part ∈ parts, Unbroken part) :
    replaceBreaks newline (parts.flatMap fun part => crlf ++ ' ' :: part) =
      parts.flatMap fun part => newline ++ ' ' :: part := by
  induction parts with
  | nil => rfl
  | cons part parts ih =>
    obtain ⟨hpart, hlater⟩ := List.forall_mem_cons.mp hparts
    have hblank : Unbroken (' ' :: part) := by simpa [Unbroken] using hpart
    rw [List.flatMap_cons, List.flatMap_cons, List.append_assoc, crlf, List.cons_append,
      List.cons_append, List.nil_append, replaceBreaks, replaceBreaks_unbroken newline hblank,
      List.append_assoc]
    rw [← crlf, ih hlater, ← List.append_assoc]

/-- A folded line in which the line breaks are replaced. -/
def foldWith (newline line : Text) : Text :=
  if newline = crlf then foldLine line else replaceBreaks newline (foldLine line)

theorem foldWith_eq {newline : Text} (hline : Unbroken line) :
    foldWith newline line = if line.length ≤ 75 then line
      else line.take 75 ++
        (continuations (line.drop 75)).flatMap fun part => newline ++ ' ' :: part := by
  unfold foldWith foldLine
  split_ifs with hcrlf hshort hshort
  · rfl
  · rw [hcrlf]
  · have hsame : replaceBreaks newline (line ++ []) = line ++ replaceBreaks newline [] :=
      replaceBreaks_unbroken newline hline
    simpa [replaceBreaks] using hsame
  · have hparts := unbroken_append.mp ((List.take_append_drop 75 line).symm ▸ hline)
    rw [replaceBreaks_unbroken newline hparts.1, replaceBreaks_continuations newline fun part =>
      unbroken_of_mem_continuations hparts.2]

/-- A line folded with either line break unfolds to itself. -/
theorem unfoldLines_foldWith {newline : Text} (hnewline : newline = crlf ∨ newline = ['\n'])
    (hne : line ≠ []) (hline : Unbroken line) :
    unfoldLines (foldWith newline line) = .ok [line] := by
  rw [foldWith_eq hline]
  split_ifs with hshort
  · have hread := @unfoldFrom_unbroken line [] [] [] line.isEmpty false hline hne
    rw [List.append_nil, List.nil_append] at hread
    rw [unfoldLines, hread]
    simp [unfoldFrom_nil, hne]
  · have hparts := unbroken_append.mp ((List.take_append_drop 75 line).symm ▸ hline)
    have hfirst : line.take 75 ≠ [] := by simp [hne]
    rw [unfoldLines, unfoldFrom_unbroken hparts.1 hfirst, List.nil_append,
      unfoldFrom_continuations hnewline (fun part => unbroken_of_mem_continuations hparts.2) hfirst,
      flatten_continuations, List.take_append_drop, List.nil_append]

end Unfolding

section Escaping

def lineFeed (char : Char) : Char := if char = '\r' then '\n' else char

theorem unescapeText_escapeChar (char : Char) (rest : Text) :
    unescapeText (escapeChar char ++ rest) = (lineFeed char :: ·) <$> unescapeText rest := by
  unfold escapeChar
  split_ifs with hslash hcomma hsemicolon hreturn hfeed
  · simp [unescapeText, hslash, lineFeed]
  · simp [unescapeText, hcomma, lineFeed]
  · simp [unescapeText, hsemicolon, lineFeed]
  · simp [unescapeText, hreturn, lineFeed]
  · simp [unescapeText, hfeed, lineFeed]
  · simp [unescapeText, hslash, hreturn, lineFeed]

/-- Only a carriage return is read back as a line feed. -/
theorem unescapeText_escapeText_map (text : Text) :
    unescapeText (escapeText text) = .ok (text.map lineFeed) := by
  induction text with
  | nil => rfl
  | cons char text ih =>
    rw [escapeText, List.flatMap_cons, unescapeText_escapeChar]
    change (lineFeed char :: ·) <$> unescapeText (escapeText text) = _
    rw [ih]
    rfl

theorem unescapeText_escapeText (h : '\r' ∉ text) :
    unescapeText (escapeText text) = .ok text := by
  have hsame : text.map lineFeed = text.map id := by
    refine List.map_congr_left fun char hchar => ?_
    rw [lineFeed, if_neg]
    · rfl
    · rintro rfl
      exact h hchar
  rw [unescapeText_escapeText_map, hsame, List.map_id]

theorem unbroken_escapeText (text : Text) : Unbroken (escapeText text) := by
  have hchar : ∀ char, Unbroken (escapeChar char) := by
    intro char
    unfold escapeChar
    split_ifs with hslash hcomma hsemicolon hreturn hfeed
    all_goals simp [Unbroken]
    exact ⟨Ne.symm hreturn, Ne.symm hfeed⟩
  constructor
  · intro hmem
    obtain ⟨char, -, hin⟩ := List.mem_flatMap.mp hmem
    exact (hchar char).1 hin
  · intro hmem
    obtain ⟨char, -, hin⟩ := List.mem_flatMap.mp hmem
    exact (hchar char).2 hin

end Escaping

section Cutting

theorem cut_append {separator : Char} {before after : Text} (h : separator ∉ before) :
    cut separator (before ++ separator :: after) = some (before, after) := by
  have hbefore : ∀ c ∈ before, decide (c ≠ separator) = true := by
    intro c hc
    refine decide_eq_true ?_
    rintro rfl
    exact h hc
  rw [cut, if_pos (by simp), List.takeWhile_append_of_pos hbefore,
    List.dropWhile_append_of_pos hbefore]
  simp

/-- A character of a name. -/
def nameChar (c : Char) : Bool := c.isAlpha || c.isDigit || c = '-'

theorem nameChar_toUpper {c : Char} (h : nameChar c = true) : nameChar c.toUpper = true := by
  unfold nameChar at h ⊢
  by_cases halpha : c.isAlpha = true
  · simp [halpha]
  · have hlower : ¬ c.isLower := by
      intro hlower
      exact halpha (by simp [Char.isAlpha, hlower])
    rwa [Char.toUpper_eq_of_not_isLower hlower]

theorem not_mem_of_validName {name : Text} (h : validName name = true) {c : Char}
    (hc : nameChar c = false) : c ∉ uppercase name := by
  intro hmem
  obtain ⟨d, hd, rfl⟩ := List.mem_map.mp hmem
  have hall := List.all_eq_true.mp (Bool.and_eq_true_iff.mp h).2 d hd
  rw [nameChar_toUpper hall] at hc
  cases hc

theorem validName_uppercase {name : Text} (h : validName name = true) :
    validName (uppercase name) = true := by
  obtain ⟨hne, hall⟩ := Bool.and_eq_true_iff.mp h
  refine Bool.and_eq_true_iff.mpr ⟨by simpa [uppercase] using hne, List.all_eq_true.mpr ?_⟩
  intro c hc
  obtain ⟨d, hd, rfl⟩ := List.mem_map.mp hc
  exact nameChar_toUpper (List.all_eq_true.mp hall d hd)

theorem uppercase_uppercase (name : Text) : uppercase (uppercase name) = uppercase name := by
  simp [uppercase]

theorem validateParameterName_eq_ok {name result : Text} :
    validateParameterName name = .ok result ↔ validName name = true ∧ uppercase name = result := by
  simp [validateParameterName]

theorem validatePropertyName_eq_ok {name result : Text} :
    validatePropertyName name = .ok result ↔ validName name = true ∧ uppercase name = result := by
  simp [validatePropertyName]

end Cutting

section Parameters

/-- How a parameter stands between semicolons. -/
def paramText (params : Params) (key : Text) : Text :=
  uppercase key ++ '=' :: (params.lookup key).getD []

/-- No value holds a separator or a line break. -/
def PlainValues (params : Params) : Prop :=
  ∀ key value, params.lookup key = some value →
    ';' ∉ value ∧ ':' ∉ value ∧ '\r' ∉ value ∧ '\n' ∉ value

/-- No two names are one in upper case. -/
def DistinctNames (params : Params) : Prop :=
  ∀ key ∈ params, ∀ key' ∈ params, uppercase key = uppercase key' → key = key'

/-- `parsed` has the values of `params` under the names in upper case. -/
def SameParams (params parsed : Params) : Prop :=
  ∀ name value, parsed.lookup name = some value ↔
    ∃ key, uppercase key = name ∧ params.lookup key = some value

variable {params : Params}

theorem mem_sortedParamKeys {key : Text} : key ∈ sortedParamKeys params ↔ key ∈ params := by
  rw [sortedParamKeys, mem_tableSort, AList.mem_keys]

theorem nodup_sortedParamKeys : (sortedParamKeys params).Nodup :=
  (tableSort_perm _ _).nodup_iff.mpr params.nodupKeys

theorem parseParam_paramText {acc : Params} {key : Text} (hvalid : validName key = true)
    (hfresh : uppercase key ∉ acc) :
    parseParam acc (paramText params key) =
      .ok (acc.insert (uppercase key) ((params.lookup key).getD [])) := by
  have hcut : cut '=' (paramText params key) = some (uppercase key, (params.lookup key).getD []) :=
    cut_append (not_mem_of_validName hvalid (by decide))
  have hname : validateParameterName (uppercase key) = .ok (uppercase key) :=
    validateParameterName_eq_ok.mpr ⟨validName_uppercase hvalid, uppercase_uppercase key⟩
  rw [parseParam, hcut]
  dsimp only
  rw [hname]
  simp [ensure, hfresh, bind, Except.bind, pure, Except.pure]

/-- The pieces of the parameters are read one after the other. -/
theorem parse_pieces {keys : List Text} (hnodup : keys.Nodup) (hmem : ∀ key ∈ keys, key ∈ params)
    (hvalid : ∀ key ∈ keys, validName key = true) (hdistinct : DistinctNames params)
    (acc : Params) (hfresh : ∀ key ∈ keys, uppercase key ∉ acc) :
    ∃ parsed, (keys.map (paramText params)).foldlM parseParam acc = .ok parsed ∧
      ∀ name value, parsed.lookup name = some value ↔ acc.lookup name = some value ∨
        ∃ key ∈ keys, uppercase key = name ∧ params.lookup key = some value := by
  induction keys generalizing acc with
  | nil => exact ⟨acc, rfl, by simp⟩
  | cons key keys ih =>
    obtain ⟨hkey, hlater⟩ := List.nodup_cons.mp hnodup
    obtain ⟨hin, hmem⟩ := List.forall_mem_cons.mp hmem
    obtain ⟨hok, hvalid⟩ := List.forall_mem_cons.mp hvalid
    obtain ⟨hnew, hfresh⟩ := List.forall_mem_cons.mp hfresh
    obtain ⟨held, hheld⟩ := AList.lookup_isSome.mpr hin |> Option.isSome_iff_exists.mp
    have hfresh' : ∀ other ∈ keys, uppercase other ∉ acc.insert (uppercase key) held := by
      intro other hother hmemInsert
      rcases (AList.mem_insert _).mp hmemInsert with hsame | hold
      · have := hdistinct other (hmem other hother) key hin hsame
        exact hkey (this ▸ hother)
      · exact hfresh other hother hold
    obtain ⟨parsed, hrun, hlookup⟩ := ih hlater hmem hvalid _ hfresh'
    refine ⟨parsed, ?_, fun name value => ?_⟩
    · rw [List.map_cons, List.foldlM_cons, parseParam_paramText hok hnew, hheld]
      exact hrun
    · rw [hlookup, List.exists_mem_cons_iff]
      by_cases hname : name = uppercase key
      · subst hname
        have hnone : acc.lookup (uppercase key) = none := AList.lookup_eq_none.mpr hnew
        rw [AList.lookup_insert, hnone, hheld]
        simp
      · rw [AList.lookup_insert_ne hname]
        simp [Ne.symm hname]

end Parameters

end Space2.Ics
