import Space2.Ics.RoundTrip

/-!
# Content lines read back

A line that is written, folded with either line break, is read back as one content line.
-/
namespace Space2.Ics
open Base

variable {name value text : Text} {params options : Params}

section Writing

theorem validateEmitOptions_eq_ok {newline : Text} (h : validateEmitOptions options = .ok newline) :
    newline = crlf ∨ newline = ['\n'] := by
  obtain ⟨-, -, h⟩ := bind_eq_ok.mp h
  unfold normalizeLineEnding at h
  split at h
  · exact .inl (Except.ok.inj h).symm
  · split_ifs at h
    · exact .inl (Except.ok.inj h).symm
    · exact .inr (Except.ok.inj h).symm

theorem emitParams_eq_ok {keys parts : List Text} :
    keys.mapM (emitParam params) = .ok parts ↔ (∀ key ∈ keys, validName key = true) ∧
      parts = keys.map fun key => ';' :: paramText params key := by
  rw [mapM_eq_ok]
  have hone : ∀ key part, emitParam params key = .ok part ↔
      validName key = true ∧ part = ';' :: paramText params key := by
    intro key part
    simp only [emitParam, bind_eq_ok, validateParameterName_eq_ok, pure_eq_ok]
    constructor
    · rintro ⟨_, ⟨hvalid, rfl⟩, rfl⟩
      exact ⟨hvalid, rfl⟩
    · rintro ⟨hvalid, rfl⟩
      exact ⟨_, ⟨hvalid, rfl⟩, rfl⟩
  simp only [hone]
  induction keys generalizing parts with
  | nil => simp [List.forall₂_nil_left_iff]
  | cons key keys ih =>
    rw [List.forall₂_cons_left_iff, List.forall_mem_cons, List.map_cons]
    constructor
    · rintro ⟨part, rest, ⟨hvalid, rfl⟩, hrest, rfl⟩
      obtain ⟨hall, rfl⟩ := ih.mp hrest
      exact ⟨⟨hvalid, hall⟩, rfl⟩
    · rintro ⟨⟨hvalid, hall⟩, rfl⟩
      exact ⟨_, _, ⟨hvalid, rfl⟩, ih.mpr ⟨hall, rfl⟩, rfl⟩

/-- What stands before the colon. -/
def front (name : Text) (params : Params) : Text :=
  List.intercalate [';'] (uppercase name :: (sortedParamKeys params).map (paramText params))

theorem emitContentLine_eq_ok (h : emitContentLine name params value options = .ok text) :
    validName name = true ∧ (∀ key ∈ params, validName key = true) ∧
      ∃ newline, (newline = crlf ∨ newline = ['\n']) ∧
        text = foldWith newline (front name params ++ ':' :: escapeText value) := by
  simp only [emitContentLine, bind_eq_ok, validatePropertyName_eq_ok, emitParams_eq_ok,
    pure_eq_ok] at h
  obtain ⟨newline, hnewline, _, ⟨hname, rfl⟩, parts, ⟨hkeys, rfl⟩, rfl⟩ := h
  refine ⟨hname, fun key hkey => hkeys key (mem_sortedParamKeys.mpr hkey), newline,
    validateEmitOptions_eq_ok hnewline, ?_⟩
  rw [front, intercalate_cons, List.flatMap_map, List.flatMap_def]
  rfl

end Writing

section Reading

/-- A character that no name and no parameter value has is not in the front of a line, unless it
separates the parts. -/
theorem not_mem_front {c : Char} (hname : validName name = true)
    (hkeys : ∀ key ∈ params, validName key = true) (hc : nameChar c = false)
    (hseparators : c ≠ ';' ∧ c ≠ '=')
    (hvalues : ∀ key value, params.lookup key = some value → c ∉ value) :
    c ∉ front name params := by
  rw [front, intercalate_cons, List.flatMap_map]
  intro hmem
  rcases List.mem_append.mp hmem with hin | hin
  · exact not_mem_of_validName hname hc hin
  · obtain ⟨key, hkey, hpart⟩ := List.mem_flatMap.mp hin
    have hkey' := mem_sortedParamKeys.mp hkey
    obtain ⟨held, hheld⟩ := Option.isSome_iff_exists.mp (AList.lookup_isSome.mpr hkey')
    simp only [paramText, hheld, Option.getD_some, List.singleton_append, List.mem_cons,
      List.mem_append, hseparators.1, hseparators.2, false_or] at hpart
    rcases hpart with hupper | hvalue
    · exact not_mem_of_validName (hkeys key hkey') hc hupper
    · exact hvalues key held hheld hvalue

theorem splitOn_front (hname : validName name = true)
    (hkeys : ∀ key ∈ params, validName key = true) (hplain : PlainValues params) :
    splitOnSemicolon (front name params) =
      uppercase name :: (sortedParamKeys params).map (paramText params) := by
  refine List.splitOn_intercalate ';' ?_ (List.cons_ne_nil _ _)
  intro piece hpiece
  rcases List.mem_cons.mp hpiece with rfl | hlater
  · exact not_mem_of_validName hname (by decide)
  · obtain ⟨key, hkey, rfl⟩ := List.mem_map.mp hlater
    have hkey' := mem_sortedParamKeys.mp hkey
    obtain ⟨held, hheld⟩ := Option.isSome_iff_exists.mp (AList.lookup_isSome.mpr hkey')
    rw [paramText, hheld, Option.getD_some]
    intro hmem
    rcases List.mem_append.mp hmem with hupper | hvalue
    · exact not_mem_of_validName (hkeys key hkey') (by decide) hupper
    · rcases List.mem_cons.mp hvalue with hequals | hin
      · exact absurd hequals (by decide)
      · exact (hplain key held hheld).1 hin

/-- A written line is one line of text. -/
theorem unbroken_line (value : Text) (hname : validName name = true) (hkeys : ∀ key ∈ params, validName key = true)
    (hplain : PlainValues params) : Unbroken (front name params ++ ':' :: escapeText value) := by
  have hvalue := unbroken_escapeText value
  refine unbroken_append.mpr ⟨⟨?_, ?_⟩, by simpa [Unbroken] using hvalue⟩
  · exact not_mem_front hname hkeys (by decide) (by decide) fun key held hheld =>
      (hplain key held hheld).2.2.1
  · exact not_mem_front hname hkeys (by decide) (by decide) fun key held hheld =>
      (hplain key held hheld).2.2.2

theorem parseContentLine_written (value : Text) (hname : validName name = true)
    (hkeys : ∀ key ∈ params, validName key = true) (hplain : PlainValues params)
    (hdistinct : DistinctNames params) :
    ∃ parsed, SameParams params parsed ∧
      parseContentLine (front name params ++ ':' :: escapeText value) (some 1) =
        .ok ⟨uppercase name, parsed, value.map lineFeed, 1⟩ := by
  have hcolon : ':' ∉ front name params := not_mem_front hname hkeys (by decide) (by decide)
    fun key held hheld => (hplain key held hheld).2.1
  obtain ⟨parsed, hparsed, hlookup⟩ := parse_pieces nodup_sortedParamKeys
    (fun key hkey => mem_sortedParamKeys.mp hkey)
    (fun key hkey => hkeys key (mem_sortedParamKeys.mp hkey)) hdistinct ∅
    (fun key _ => AList.notMem_empty _)
  have hread : validatePropertyName (uppercase name) = .ok (uppercase name) :=
    validatePropertyName_eq_ok.mpr ⟨validName_uppercase hname, uppercase_uppercase name⟩
  refine ⟨parsed, fun found held => ?_, ?_⟩
  · rw [hlookup, AList.lookup_empty]
    constructor
    · rintro (hnone | ⟨key, -, hsame, hheld⟩)
      · cases hnone
      · exact ⟨key, hsame, hheld⟩
    · rintro ⟨key, hsame, hheld⟩
      have hkey : key ∈ params := AList.lookup_isSome.mp (by rw [hheld]; rfl)
      exact .inr ⟨key, mem_sortedParamKeys.mpr hkey, hsame, hheld⟩
  · rw [parseContentLine, cut_append hcolon]
    simp only [splitOn_front hname hkeys hplain, List.headD_cons, hread, parseParams, List.tail_cons,
      hparsed, unescapeText_escapeText_map]
    rfl

/-- A written line is read back with its parameters under upper case names. -/
theorem parse_emit (hplain : PlainValues params) (hdistinct : DistinctNames params)
    (h : emitContentLine name params value options = .ok text) :
    ∃ parsed, SameParams params parsed ∧
      parseContentLines text = .ok [⟨uppercase name, parsed, value.map lineFeed, 1⟩] := by
  obtain ⟨hname, hkeys, newline, hnewline, rfl⟩ := emitContentLine_eq_ok h
  obtain ⟨parsed, hsame, hread⟩ := parseContentLine_written value hname hkeys hplain hdistinct
  have hlines := unfoldLines_foldWith hnewline (by simp) (unbroken_line value hname hkeys hplain)
  refine ⟨parsed, hsame, ?_⟩
  rw [parseContentLines, hlines]
  simp [bind, Except.bind, List.mapM_cons, hread, pure, Except.pure]

end Reading

section Inverse

theorem lookup_single {key held : Text} :
    ((∅ : Params).insert name value).lookup key = some held ↔ key = name ∧ value = held := by
  by_cases hkey : key = name
  · subst hkey
    rw [AList.lookup_insert]
    simp
  · rw [AList.lookup_insert_ne hkey]
    simp [hkey]

def attendee : Params := (∅ : Params).insert "cn".toList "Ann".toList

/-- A value that would end its parameter. -/
def splitting : Params := (∅ : Params).insert "CN".toList "a;B=c".toList

end Inverse

end Space2.Ics
