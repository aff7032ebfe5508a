import Mathlib.Data.List.Basic

/-!
# JSON texts

A document is a tree of values, its numbers and strings kept as they are written. `Spells` says
how a value may be written: with any blanks between tokens, and strings with any escapes.
-/
namespace Space2.Base.JsonText

inductive Json
  | null
  | boolean (value : Bool)
  | number (text : List Char)
  | string (body : List Char)
  | array (elements : List Json)
  | object (members : List (List Char × Json))

namespace Json

mutual

/-- Whether the value, or one inside it, is null. -/
def hasNull : Json → Bool
  | null => true
  | boolean _ => false
  | number _ => false
  | string _ => false
  | array elements => anyNull elements
  | object members => memberNull members

def anyNull : List Json → Bool
  | [] => false
  | value :: rest => hasNull value || anyNull rest

def memberNull : List (List Char × Json) → Bool
  | [] => false
  | (_, value) :: rest => hasNull value || memberNull rest

end

end Json

def Blank (text : List Char) : Prop := ∀ c ∈ text, c ∈ [' ', '\t', '\n', '\r']

def Digits (text : List Char) : Prop := text ≠ [] ∧ ∀ c ∈ text, c.isDigit = true

/-- A sign, an integer without leading zeros, a fraction and an exponent. -/
inductive NumberText : List Char → Prop
  | mk (sign whole fraction exponent : List Char)
    (hsign : sign = [] ∨ sign = ['-'])
    (hwhole : Digits whole ∧ (whole.head? = some '0' → whole = ['0']))
    (hfraction : fraction = [] ∨ ∃ digits, Digits digits ∧ fraction = '.' :: digits)
    (hexponent : exponent = [] ∨ ∃ mark ∈ ['e', 'E'], ∃ sign ∈ [[], ['+'], ['-']],
      ∃ digits, Digits digits ∧ exponent = mark :: (sign ++ digits)) :
    NumberText (sign ++ whole ++ fraction ++ exponent)

def HexDigit (c : Char) : Prop :=
  c.isDigit = true ∨ c ∈ ['a', 'b', 'c', 'd', 'e', 'f', 'A', 'B', 'C', 'D', 'E', 'F']

/-- What may stand between the quotes of a string. -/
inductive StringBody : List Char → Prop
  | nil : StringBody []
  | plain {c : Char} {rest : List Char} (hquote : c ≠ '"') (hbackslash : c ≠ '\\')
    (hprinted : 32 ≤ c.toNat) (h : StringBody rest) : StringBody (c :: rest)
  | escaped {c : Char} {rest : List Char}
    (hc : c ∈ ['"', '\\', '/', 'b', 'f', 'n', 'r', 't']) (h : StringBody rest) :
    StringBody ('\\' :: c :: rest)
  | unicode {a b c d : Char} {rest : List Char} (ha : HexDigit a) (hb : HexDigit b)
    (hc : HexDigit c) (hd : HexDigit d) (h : StringBody rest) :
    StringBody ('\\' :: 'u' :: a :: b :: c :: d :: rest)

def quoted (body : List Char) : List Char := '"' :: body ++ ['"']

mutual

inductive Spells : Json → List Char → Prop
  | null : Spells .null "null".toList
  | yes : Spells (.boolean true) "true".toList
  | no : Spells (.boolean false) "false".toList
  | number {text : List Char} (h : NumberText text) : Spells (.number text) text
  | string {body : List Char} (h : StringBody body) : Spells (.string body) (quoted body)
  | emptyArray {blank : List Char} (hblank : Blank blank) :
    Spells (.array []) ('[' :: blank ++ [']'])
  | array {value : Json} {rest : List Json} {text : List Char} (h : Elements value rest text) :
    Spells (.array (value :: rest)) ('[' :: text ++ [']'])
  | emptyObject {blank : List Char} (hblank : Blank blank) :
    Spells (.object []) ('\x7b' :: blank ++ ['\x7d'])
  | object {key : List Char} {value : Json} {rest : List (List Char × Json)} {text : List Char}
    (h : Members key value rest text) :
    Spells (.object ((key, value) :: rest)) ('\x7b' :: text ++ ['\x7d'])

/-- One or more values, with commas between them. -/
inductive Elements : Json → List Json → List Char → Prop
  | one {value : Json} {before text after : List Char} (hbefore : Blank before)
    (h : Spells value text) (hafter : Blank after) : Elements value [] (before ++ text ++ after)
  | more {value next : Json} {rest : List Json} {before text after others : List Char}
    (hbefore : Blank before) (h : Spells value text) (hafter : Blank after)
    (hothers : Elements next rest others) :
    Elements value (next :: rest) (before ++ text ++ after ++ ',' :: others)

/-- One or more members, each a string, a colon and a value. -/
inductive Members : List Char → Json → List (List Char × Json) → List Char → Prop
  | one {key : List Char} {value : Json} {before between text colon after : List Char}
    (hbefore : Blank before) (hkey : StringBody key) (hbetween : Blank between)
    (hcolon : Blank colon) (h : Spells value text) (hafter : Blank after) :
    Members key value [] (before ++ quoted key ++ between ++ ':' :: colon ++ text ++ after)
  | more {key next : List Char} {value other : Json} {rest : List (List Char × Json)}
    {before between text colon after others : List Char}
    (hbefore : Blank before) (hkey : StringBody key) (hbetween : Blank between)
    (hcolon : Blank colon) (h : Spells value text) (hafter : Blank after)
    (hothers : Members next other rest others) :
    Members key value ((next, other) :: rest)
      (before ++ quoted key ++ between ++ ':' :: colon ++ text ++ after ++ ',' :: others)

end

/-- A document is one value with blanks around it. -/
inductive Document (value : Json) : List Char → Prop
  | mk {before text after : List Char} (hbefore : Blank before) (h : Spells value text)
    (hafter : Blank after) : Document value (before ++ text ++ after)

/-! ## Characters outside strings -/

section Characters
variable {text : List Char} {c : Char}

/-- Outside strings a quote or the letter `n` stands only in a null. -/
def Quiet (text : List Char) : Prop := ∀ c ∈ text, c ≠ '"' ∧ c ≠ 'n'

theorem quiet_append {left right : List Char} (hleft : Quiet left) (hright : Quiet right) :
    Quiet (left ++ right) := List.forall_mem_append.mpr ⟨hleft, hright⟩

theorem Blank.quiet (h : Blank text) : Quiet text := by
  intro c hc
  have hmem := h c hc
  simp only [List.mem_cons, List.not_mem_nil, or_false] at hmem
  rcases hmem with rfl | rfl | rfl | rfl <;> decide

theorem Digits.quiet (h : Digits text) : Quiet text := by
  intro c hc
  have hdigit := h.2 c hc
  constructor
  · rintro rfl
    exact absurd hdigit (by decide)
  · rintro rfl
    exact absurd hdigit (by decide)

theorem NumberText.quiet (h : NumberText text) : Quiet text := by
  obtain ⟨sign, whole, fraction, exponent, hsign, hwhole, hfraction, hexponent⟩ := h
  refine quiet_append (quiet_append (quiet_append ?_ hwhole.1.quiet) ?_) ?_
  · rcases hsign with rfl | rfl <;> simp [Quiet]
  · rcases hfraction with rfl | ⟨digits, hdigits, rfl⟩
    · simp [Quiet]
    · exact List.forall_mem_cons.mpr ⟨by decide, hdigits.quiet⟩
  · rcases hexponent with rfl | ⟨mark, hmark, sign, hsign, digits, hdigits, rfl⟩
    · simp [Quiet]
    · refine List.forall_mem_cons.mpr ⟨?_, quiet_append ?_ hdigits.quiet⟩
      · simp only [List.mem_cons, List.not_mem_nil, or_false] at hmark
        rcases hmark with rfl | rfl <;> decide
      · simp only [List.mem_cons, List.not_mem_nil, or_false] at hsign
        rcases hsign with rfl | rfl | rfl <;> simp [Quiet]

end Characters

end Space2.Base.JsonText
