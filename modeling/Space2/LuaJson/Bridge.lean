import Mathlib.Data.List.Sort
import Mathlib.Data.String.Basic
import Space2.Base.Double

/-!
# The JSON bridge

A parsed document becomes a Lua value and a Lua value a document to print. The
text of a document is the business of the JSON library. A finite double stands
for its rational value, a C++ conversion to a narrower integer keeps the low bits.
-/
namespace Space2.LuaJson
open Base

inductive Json where
  | object (fields : List (String × Json))
  | array (elements : List Json)
  | string (text : String)
  | boolean (value : Bool)
  | numberInteger (value : Int)
  | numberUnsigned (value : Nat)
  | numberFloat (value : ℚ)
  | null

inductive LuaKey where
  | integer (value : Int)
  | string (text : String)
  deriving DecidableEq

/-- A table holds its entries, no two of them at one key. -/
inductive LuaValue where
  | table (entries : List (LuaKey × LuaValue))
  | string (text : String)
  | integer (value : Int)
  | number (value : ℚ)
  | boolean (value : Bool)
  | nil

section Numbers

/-- The value of a conversion to `int`. -/
def toInt (value : Int) : Int := value.bmod (2 ^ 32)

/-- The value of a conversion to `unsigned int`. -/
def toUnsignedInt (value : Nat) : Nat := value % 2 ^ 32

end Numbers

section ToLua

/-- `tbl[key] = value` at a key that is not yet there; `nil` is no value. -/
def assign (key : LuaKey) (value : LuaValue) (entries : List (LuaKey × LuaValue)) :
    List (LuaKey × LuaValue) :=
  match value with
  | .nil => entries
  | value => (key, value) :: entries

mutual

def jsonToLua : Json → LuaValue
  | .object fields => .table (fieldsToLua fields)
  | .array elements => .table (elementsToLua 1 elements)
  | .string text => .string text
  | .boolean value => .boolean value
  | .numberInteger value => .integer (toInt value)
  | .numberUnsigned value => .integer (toUnsignedInt value)
  | .numberFloat value => .number value
  | .null => .nil

def fieldsToLua : List (String × Json) → List (LuaKey × LuaValue)
  | [] => []
  | (key, value) :: rest => assign (.string key) (jsonToLua value) (fieldsToLua rest)

def elementsToLua : Int → List Json → List (LuaKey × LuaValue)
  | _, [] => []
  | i, value :: rest => assign (.integer i) (jsonToLua value) (elementsToLua (i + 1) rest)

end

end ToLua

section ToJson
variable (next : List (LuaKey × Json) → List (LuaKey × Json))

def isArrayFrom : Int → List LuaKey → Bool
  | _, [] => true
  | expected, .integer key :: rest => toInt key == expected && isArrayFrom (expected + 1) rest
  | _, .string _ :: _ => false

/-- `j[k] = value` in a map ordered by its keys. -/
def setField (key : String) (value : Json) : List (String × Json) → List (String × Json)
  | [] => [(key, value)]
  | (key', value') :: rest =>
    if key < key' then (key, value) :: (key', value') :: rest
    else if key = key' then (key, value) :: rest
    else (key', value') :: setField key value rest

def objectOf : List (LuaKey × Json) → List (String × Json) → Except String (List (String × Json))
  | [], fields => pure fields
  | (.string key, value) :: rest, fields => objectOf rest (setField key value fields)
  | (.integer _, _) :: _, _ => throw "expected string, received number"

/-- The converted entries, in the order in which `next` visits the table. -/
def tableToJson (entries : List (LuaKey × Json)) : Except String Json :=
  let visited := next entries
  if isArrayFrom 1 (visited.map Prod.fst) then pure (.array (visited.map Prod.snd))
  else do pure (.object (← objectOf visited []))

mutual

def luaToJson : LuaValue → Except String Json
  | .table entries => do tableToJson next (← entriesToJson entries)
  | .string text => pure (.string text)
  | .integer value => pure (.numberFloat (toDouble value))
  | .number value => pure (.numberFloat value)
  | .boolean value => pure (.boolean value)
  | .nil => pure .null

def entriesToJson : List (LuaKey × LuaValue) → Except String (List (LuaKey × Json))
  | [] => pure []
  | (key, value) :: rest => do
    let converted ← luaToJson value
    let others ← entriesToJson rest
    pure ((key, converted) :: others)

end

end ToJson

example : jsonToLua (.object [("id", .numberUnsigned (2 ^ 32 + 5))]) =
    .table [(.string "id", .integer 5)] := rfl

end Space2.LuaJson

/-!
# Documents and what they say

Two documents say the same when they have the same structure and numerically
equal numbers. An integer outside the signed 64-bit range stands for the double
nearest to it.
-/
namespace Space2.LuaJson
open Base
namespace Json

theorem induction {P : Json → Prop}
    (object : ∀ fields, (∀ field ∈ fields, P field.2) → P (.object fields))
    (array : ∀ elements, (∀ element ∈ elements, P element) → P (.array elements))
    (string : ∀ text, P (.string text)) (boolean : ∀ value, P (.boolean value))
    (numberInteger : ∀ value, P (.numberInteger value))
    (numberUnsigned : ∀ value, P (.numberUnsigned value))
    (numberFloat : ∀ value, P (.numberFloat value)) (null : P .null) (doc : Json) : P doc :=
  @Json.rec P (fun fields => ∀ field ∈ fields, P field.2)
    (fun elements => ∀ element ∈ elements, P element) (fun field => P field.2)
    object array string boolean numberInteger numberUnsigned numberFloat null
    (by simp) (fun _ _ hfield hrest => List.forall_mem_cons.mpr ⟨hfield, hrest⟩)
    (by simp) (fun _ _ helement hrest => List.forall_mem_cons.mpr ⟨helement, hrest⟩)
    (fun _ _ hvalue => hvalue) doc

mutual

/-- The document and all values inside it. -/
def values : Json → List Json
  | .object fields => .object fields :: fieldValues fields
  | .array elements => .array elements :: elementValues elements
  | doc => [doc]

def fieldValues : List (String × Json) → List Json
  | [] => []
  | (_, value) :: rest => values value ++ fieldValues rest

def elementValues : List Json → List Json
  | [] => []
  | value :: rest => values value ++ elementValues rest

end

mutual

def meaning : Json → Json
  | .object fields => .object (fieldMeanings fields)
  | .array elements => .array (elementMeanings elements)
  | .numberInteger value => .numberFloat value
  | .numberUnsigned value => .numberFloat (if value < 2 ^ 63 then value else toDouble value)
  | doc => doc

def fieldMeanings : List (String × Json) → List (String × Json)
  | [] => []
  | (key, value) :: rest => (key, meaning value) :: fieldMeanings rest

def elementMeanings : List Json → List Json
  | [] => []
  | value :: rest => meaning value :: elementMeanings rest

end

theorem mem_fieldValues {doc : Json} {fields : List (String × Json)} :
    doc ∈ fieldValues fields ↔ ∃ field ∈ fields, doc ∈ values field.2 := by
  induction fields with
  | nil => simp [fieldValues]
  | cons field rest ih => simp [fieldValues, ih]

theorem mem_elementValues {doc : Json} {elements : List Json} :
    doc ∈ elementValues elements ↔ ∃ element ∈ elements, doc ∈ values element := by
  induction elements with
  | nil => simp [elementValues]
  | cons element rest ih => simp [elementValues, ih]

theorem fieldMeanings_eq (fields : List (String × Json)) :
    fieldMeanings fields = fields.map fun field => (field.1, field.2.meaning) := by
  induction fields with
  | nil => rfl
  | cons field rest ih => rw [fieldMeanings, ih, List.map_cons]

theorem elementMeanings_eq (elements : List Json) :
    elementMeanings elements = elements.map meaning := by
  induction elements with
  | nil => rfl
  | cons element rest ih => rw [elementMeanings, ih, List.map_cons]

/-- A property of every value of a document. -/
def Every (p : Json → Prop) (doc : Json) : Prop := ∀ value ∈ doc.values, p value

section Every
variable {p : Json → Prop}

theorem every_object {fields : List (String × Json)} :
    Every p (.object fields) ↔ p (.object fields) ∧ ∀ field ∈ fields, Every p field.2 := by
  simp only [Every, values, List.forall_mem_cons, mem_fieldValues]
  aesop

theorem every_array {elements : List Json} :
    Every p (.array elements) ↔ p (.array elements) ∧ ∀ element ∈ elements, Every p element := by
  simp only [Every, values, List.forall_mem_cons, mem_elementValues]
  aesop

end Every

/-- What the parser promises of a value: the fields of an object are ordered by their keys, and an
integer has the range of its type. -/
def Parsed : Json → Prop
  | .object fields => fields.Pairwise fun field field' => field.1 < field'.1
  | .numberInteger value => -2 ^ 63 ≤ value ∧ value < 2 ^ 63
  | .numberUnsigned value => value < 2 ^ 64
  | _ => True

def NotNull : Json → Prop
  | .null => False
  | _ => True

/-- A value the bridge keeps: a 32-bit integer of its kind, an array that an `int` can index, and
no empty object. -/
def Kept : Json → Prop
  | .object fields => fields ≠ []
  | .array elements => elements.length < 2 ^ 31
  | .numberInteger value => -2 ^ 31 ≤ value ∧ value < 2 ^ 31
  | .numberUnsigned value => value < 2 ^ 32
  | _ => True

instance {p : Json → Prop} [DecidablePred p] (doc : Json) : Decidable (Every p doc) :=
  inferInstanceAs (Decidable (∀ value ∈ doc.values, p value))

instance : DecidablePred Parsed
  | .object fields =>
    inferInstanceAs (Decidable (fields.Pairwise fun field field' => field.1 < field'.1))
  | .numberInteger value => inferInstanceAs (Decidable (-2 ^ 63 ≤ value ∧ value < 2 ^ 63))
  | .numberUnsigned value => inferInstanceAs (Decidable (value < 2 ^ 64))
  | .array _ | .string _ | .boolean _ | .numberFloat _ | .null => .isTrue trivial

instance : DecidablePred NotNull
  | .null => .isFalse id
  | .object _ | .array _ | .string _ | .boolean _ | .numberInteger _ | .numberUnsigned _
  | .numberFloat _ => .isTrue trivial

instance : DecidablePred Kept
  | .object [] => .isFalse fun h => h rfl
  | .object (_ :: _) => .isTrue (List.cons_ne_nil _ _)
  | .array elements => inferInstanceAs (Decidable (elements.length < 2 ^ 31))
  | .numberInteger value => inferInstanceAs (Decidable (-2 ^ 31 ≤ value ∧ value < 2 ^ 31))
  | .numberUnsigned value => inferInstanceAs (Decidable (value < 2 ^ 32))
  | .string _ | .boolean _ | .numberFloat _ | .null => .isTrue trivial

end Json

namespace LuaValue

mutual

/-- The value up to the subtype of its numbers, which comparison ignores. -/
def numeric : LuaValue → LuaValue
  | .table entries => .table (numericEntries entries)
  | .integer value => .number value
  | value => value

def numericEntries : List (LuaKey × LuaValue) → List (LuaKey × LuaValue)
  | [] => []
  | (key, value) :: rest => (key, numeric value) :: numericEntries rest

end

theorem numericEntries_assign (key : LuaKey) (value : LuaValue)
    (entries : List (LuaKey × LuaValue)) :
    numericEntries (assign key value entries) =
      assign key value.numeric (numericEntries entries) := by
  cases value <;> rfl

end LuaValue

end Space2.LuaJson
