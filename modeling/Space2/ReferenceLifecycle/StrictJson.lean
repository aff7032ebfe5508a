import Space2.Base.JsonText
import Space2.Base.LuaText

/-!
# The null guard of strict records

The bridge to the JSON library turns null into nil and so loses members and elements. A strict
record is therefore scanned for a null outside its strings before the library reads it.
-/
namespace Space2.ReferenceLifecycle
open Base Base.JsonText

/-- Why a record is not decoded: a null stands at a byte, or the library refuses the text. -/
inductive Refusal
  | null (index : Nat)
  | loads (message : Text)

def Refusal.message : Refusal → Text
  | null index => "unsupported JSON null in strict record at byte ".toList ++ digits index ++
      "; native bridge cannot preserve null".toList
  | loads message => message

/-- The loop of `decode-json` from the byte at `index` on. -/
def guardFrom (quoted escaped : Bool) (index : Nat) : Text → Except Refusal Unit
  | [] => .ok ()
  | char :: rest =>
    if escaped then guardFrom quoted false (index + 1) rest
    else if quoted && char = '\\' then guardFrom quoted true (index + 1) rest
    else if char = '"' then guardFrom (!quoted) false (index + 1) rest
    else if !quoted && (char :: rest).take 4 = "null".toList then .error (.null index)
    else guardFrom quoted false (index + 1) rest

/-- `decode-json`, over the parser of the library. -/
def decodeJson {α : Type} (loads : Text → Except Text α) (bytes : Text) : Except Refusal α :=
  match guardFrom false false 1 bytes with
  | .error refusal => .error refusal
  | .ok _ => (loads bytes).mapError .loads

theorem guardFrom_nil (quoted escaped : Bool) (index : Nat) :
    guardFrom quoted escaped index [] = .ok () := rfl

theorem guardFrom_cons (quoted escaped : Bool) (index : Nat) (char : Char) (rest : Text) :
    guardFrom quoted escaped index (char :: rest) =
      if escaped then guardFrom quoted false (index + 1) rest
      else if quoted && char = '\\' then guardFrom quoted true (index + 1) rest
      else if char = '"' then guardFrom (!quoted) false (index + 1) rest
      else if !quoted && (char :: rest).take 4 = "null".toList then .error (.null index)
      else guardFrom quoted false (index + 1) rest := rfl

section Scanning
variable {text rest : Text} {index : Nat}

/-- The scan gets through the text whatever follows it. -/
def Passes (text : Text) : Prop :=
  ∀ index rest, guardFrom false false index (text ++ rest) =
    guardFrom false false (index + text.length) rest

/-- The scan ends at a null within the text whatever follows it. -/
def Stops (text : Text) : Prop :=
  ∀ index rest, ∃ i, guardFrom false false index (text ++ rest) = .error (.null i)

def Judged (null : Bool) (text : Text) : Prop := if null then Stops text else Passes text

theorem Passes.append {left right : Text} (hleft : Passes left) (hright : Passes right) :
    Passes (left ++ right) := by
  intro index rest
  rw [List.append_assoc, hleft, hright, List.length_append, Nat.add_assoc]

theorem Passes.append_stops {left right : Text} (hleft : Passes left) (hright : Stops right) :
    Stops (left ++ right) := by
  intro index rest
  obtain ⟨i, hi⟩ := hright (index + left.length) rest
  exact ⟨i, by rw [List.append_assoc, hleft, hi]⟩

theorem Stops.append {left : Text} (hleft : Stops left) (right : Text) : Stops (left ++ right) := by
  intro index rest
  obtain ⟨i, hi⟩ := hleft index (right ++ rest)
  exact ⟨i, by rw [List.append_assoc, hi]⟩

theorem Judged.append {b c : Bool} {left right : Text} (hleft : Judged b left)
    (hright : Judged c right) : Judged (b || c) (left ++ right) := by
  cases b with
  | true => exact Stops.append hleft right
  | false =>
    cases c with
    | true => exact Passes.append_stops hleft hright
    | false => exact Passes.append hleft hright

theorem judged_false (h : Passes text) : Judged false text := h

theorem Judged.after {b : Bool} {left right : Text} (hright : Judged b right)
    (hleft : Passes left) : Judged b (left ++ right) := by
  simpa using (judged_false hleft).append hright

theorem Judged.before {b : Bool} {left right : Text} (hleft : Judged b left)
    (hright : Passes right) : Judged b (left ++ right) := by
  simpa using hleft.append (judged_false hright)

/-- A null starts with an `n`. -/
theorem passes_of_quiet (h : Quiet text) : Passes text := by
  induction text with
  | nil => exact fun index rest => rfl
  | cons char text ih =>
    intro index rest
    obtain ⟨hchar, htext⟩ := List.forall_mem_cons.mp h
    obtain ⟨hquote, hletter⟩ := hchar
    have hnull : ¬ (char :: (text ++ rest)).take 4 = "null".toList := by
      intro hsame
      exact hletter (List.cons.inj hsame).1
    rw [List.cons_append, guardFrom_cons, if_neg Bool.false_ne_true, Bool.false_and,
      if_neg Bool.false_ne_true, if_neg hquote, Bool.not_false, Bool.true_and,
      if_neg (by simpa using hnull), ih htext, List.length_cons, Nat.add_assoc, Nat.add_comm 1]

theorem stops_null : Stops "null".toList := fun index _ => ⟨index, rfl⟩

theorem HexDigit.plain {c : Char} (h : HexDigit c) : c ≠ '"' ∧ c ≠ '\\' := by
  rcases h with hdigit | hletter
  · constructor
    · rintro rfl
      exact absurd hdigit (by decide)
    · rintro rfl
      exact absurd hdigit (by decide)
  · simp only [List.mem_cons, List.not_mem_nil, or_false] at hletter
    rcases hletter with rfl | rfl | rfl | rfl | rfl | rfl | rfl | rfl | rfl | rfl | rfl | rfl <;>
      decide

theorem guardFrom_plain {c : Char} (hquote : c ≠ '"') (hbackslash : c ≠ '\\') :
    guardFrom true false index (c :: rest) = guardFrom true false (index + 1) rest := by
  simp [guardFrom_cons, hquote, hbackslash]

theorem guardFrom_escape (c : Char) :
    guardFrom true false index ('\\' :: c :: rest) = guardFrom true false (index + 2) rest := by
  simp [guardFrom_cons]

/-- A string is left where its body ends. -/
theorem guardFrom_body {body : Text} (h : StringBody body) :
    guardFrom true false index (body ++ '"' :: rest) =
      guardFrom false false (index + body.length + 1) rest := by
  induction h generalizing index with
  | nil => simp [guardFrom_cons]
  | plain hquote hbackslash _ _ ih =>
    rw [List.cons_append, guardFrom_plain hquote hbackslash, ih, List.length_cons]
    congr 1
    omega
  | escaped _ _ ih =>
    rw [List.cons_append, List.cons_append, guardFrom_escape, ih, List.length_cons,
      List.length_cons]
    congr 1
    omega
  | unicode ha hb hc hd _ ih =>
    have ha' := HexDigit.plain ha
    have hb' := HexDigit.plain hb
    have hc' := HexDigit.plain hc
    have hd' := HexDigit.plain hd
    simp only [List.cons_append, guardFrom_escape, guardFrom_plain ha'.1 ha'.2,
      guardFrom_plain hb'.1 hb'.2, guardFrom_plain hc'.1 hc'.2, guardFrom_plain hd'.1 hd'.2, ih,
      List.length_cons]
    congr 1
    omega

theorem passes_quoted {body : Text} (h : StringBody body) : Passes (quoted body) := by
  intro index rest
  have hopen : guardFrom false false index ('"' :: (body ++ '"' :: rest)) =
      guardFrom true false (index + 1) (body ++ '"' :: rest) := by
    simp [guardFrom_cons]
  rw [quoted, List.cons_append, List.cons_append, List.append_assoc, List.singleton_append, hopen,
    guardFrom_body h, List.length_cons, List.length_append, List.length_singleton]
  congr 1
  omega

theorem passes_blank (h : Blank text) : Passes text := passes_of_quiet h.quiet

theorem passes_char {char : Char} (h : char ≠ '"' ∧ char ≠ 'n') : Passes [char] :=
  passes_of_quiet (List.forall_mem_singleton.mpr h)

theorem Judged.enclosed {b : Bool} {opening closing : Char} (hopening : opening ≠ '"' ∧ opening ≠ 'n')
    (hclosing : closing ≠ '"' ∧ closing ≠ 'n') (h : Judged b text) :
    Judged b (opening :: text ++ [closing]) := by
  rw [← List.singleton_append]
  exact (h.after (passes_char hopening)).before (passes_char hclosing)

end Scanning

section Documents

mutual

/-- The scan stops within a value exactly when a null is in it. -/
theorem judged_spells : ∀ {value : Json} {text : Text}, Spells value text →
    Judged value.hasNull text
  | _, _, .null => stops_null
  | _, _, .yes => judged_false (passes_of_quiet (by simp [Quiet]))
  | _, _, .no => judged_false (passes_of_quiet (by simp [Quiet]))
  | _, _, .number h => judged_false (passes_of_quiet h.quiet)
  | _, _, .string h => judged_false (passes_quoted h)
  | _, _, .emptyArray hblank =>
    (judged_false (passes_blank hblank)).enclosed (by decide) (by decide)
  | _, _, .array h => (judged_elements h).enclosed (by decide) (by decide)
  | _, _, .emptyObject hblank =>
    (judged_false (passes_blank hblank)).enclosed (by decide) (by decide)
  | _, _, .object h => (judged_members h).enclosed (by decide) (by decide)

theorem judged_elements : ∀ {value : Json} {rest : List Json} {text : Text},
    Elements value rest text → Judged (Json.anyNull (value :: rest)) text
  | _, _, _, .one hbefore h hafter => by
    rw [Json.anyNull, Json.anyNull, Bool.or_false]
    exact ((judged_spells h).after (passes_blank hbefore)).before (passes_blank hafter)
  | _, _, _, .more hbefore h hafter hothers => by
    rw [Json.anyNull]
    have hfirst := ((judged_spells h).after (passes_blank hbefore)).before (passes_blank hafter)
    have hcomma : Passes [','] := passes_char (by decide)
    exact hfirst.append ((judged_elements hothers).after hcomma)

theorem judged_members : ∀ {key : Text} {value : Json} {rest : List (Text × Json)} {text : Text},
    Members key value rest text → Judged (Json.memberNull ((key, value) :: rest)) text
  | _, _, _, _, .one hbefore hkey hbetween hcolon h hafter => by
    rw [Json.memberNull, Json.memberNull, Bool.or_false]
    have hname := ((passes_blank hbefore).append (passes_quoted hkey)).append (passes_blank hbetween)
    have hmark : Passes [':'] := passes_char (by decide)
    have hvalue := ((judged_spells h).after (passes_blank hcolon)).after (hname.append hmark)
    simpa using hvalue.before (passes_blank hafter)
  | _, _, _, _, .more hbefore hkey hbetween hcolon h hafter hothers => by
    rw [Json.memberNull]
    have hname := ((passes_blank hbefore).append (passes_quoted hkey)).append (passes_blank hbetween)
    have hmark : Passes [':'] := passes_char (by decide)
    have hvalue := ((judged_spells h).after (passes_blank hcolon)).after (hname.append hmark)
    have hcomma : Passes [','] := passes_char (by decide)
    have hall := (hvalue.before (passes_blank hafter)).append
      ((judged_members hothers).after hcomma)
    simpa using hall

end

theorem judged_document {value : Json} {text : Text} (h : Document value text) :
    Judged value.hasNull text := by
  obtain ⟨hbefore, h, hafter⟩ := h
  exact ((judged_spells h).after (passes_blank hbefore)).before (passes_blank hafter)

variable {α : Type} {loads : Text → Except Text α} {bytes : Text}

theorem decodeJson_null_iff : (∃ index, decodeJson loads bytes = .error (.null index)) ↔
    ∃ index, guardFrom false false 1 bytes = .error (.null index) := by
  unfold decodeJson
  cases hguard : guardFrom false false 1 bytes with
  | error refusal => simp
  | ok _ => cases loads bytes <;> simp [Except.mapError]

/-- A JSON text is refused for a null exactly when its document has one. -/
theorem null_guard_exact {value : Json} (h : Document value bytes) :
    (∃ index, decodeJson loads bytes = .error (.null index)) ↔ value.hasNull = true := by
  rw [decodeJson_null_iff]
  have hjudged := judged_document h
  cases hnull : value.hasNull with
  | true =>
    rw [hnull] at hjudged
    have hstops := hjudged 1 []
    rw [List.append_nil] at hstops
    exact iff_of_true hstops rfl
  | false =>
    rw [hnull] at hjudged
    have hpasses := hjudged 1 []
    rw [List.append_nil, guardFrom_nil] at hpasses
    refine iff_of_false ?_ Bool.false_ne_true
    rintro ⟨index, hstops⟩
    rw [hpasses] at hstops
    cases hstops

/-- An escaped quote and the word null in a string, before a null. -/
theorem null_guard_exact_list :
    (∃ index, decodeJson (fun _ => (.ok () : Except Text Unit)) "[\"\\\"null\",null]".toList =
      .error (.null index)) ↔ (Json.array [.string "\\\"null".toList, .null]).hasNull = true := by
  have hbody : StringBody "\\\"null".toList :=
    .escaped (by decide) (.plain (by decide) (by decide) (by decide) (.plain (by decide) (by decide)
      (by decide) (.plain (by decide) (by decide) (by decide) (.plain (by decide) (by decide)
        (by decide) .nil))))
  have hspells : Spells (.array [.string "\\\"null".toList, .null]) "[\"\\\"null\",null]".toList :=
    .array (@Elements.more _ _ _ [] _ [] _ nofun (.string hbody) nofun
      (@Elements.one _ [] _ [] nofun .null nofun))
  exact null_guard_exact (@Document.mk _ [] _ [] nofun hspells nofun)

end Documents

end Space2.ReferenceLifecycle
