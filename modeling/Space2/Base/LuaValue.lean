import Mathlib

/-!
# Lua values

A value other than `nil`; `nil` is the absence of a value. A table holds the items at the keys
1, 2, .. and the fields at its string keys, so the empty array and the empty record are one value.
Functions, threads and userdata are `native`.
-/

namespace Space2.Base

inductive LuaNumber
  | finite (value : ℚ)
  | infinite (negative : Bool)
  | nan
  deriving DecidableEq

inductive Lua
  | boolean (value : Bool)
  | number (value : LuaNumber)
  | string (text : String)
  | table (items : List Lua) (fields : List (String × Lua))
  | native (typeName : String)

namespace Lua

def empty : Lua := table [] []

def record (fields : List (String × Lua)) : Lua := table [] fields

def isTable : Lua → Bool
  | table _ _ => true
  | _ => false

/-- `type` -/
def typeName : Lua → String
  | boolean _ => "boolean"
  | number _ => "number"
  | string _ => "string"
  | table _ _ => "table"
  | native name => name

def field (key : String) : Lua → Option Lua
  | table _ fields => fields.lookup key
  | _ => none

def stringLibrary : List String :=
  ["byte", "char", "dump", "find", "format", "gmatch", "gsub", "len", "lower", "match", "pack",
    "packsize", "rep", "reverse", "sub", "unpack", "upper"]

def indexable : Lua → Bool
  | table _ _ => true
  | string _ => true
  | _ => false

/-- `value[key]`: the fields of a string are those of the string library. -/
def index (value : Lua) (key : String) : Except String (Option Lua) :=
  match value with
  | table _ fields => .ok (fields.lookup key)
  | string _ => .ok (if stringLibrary.contains key then some (native "function") else none)
  | other => .error ("attempt to index a " ++ other.typeName ++ " value")

theorem index_of_indexable {value : Lua} (h : value.indexable = true) (key : String) :
    ∃ found, value.index key = .ok found := by
  cases value with
  | table items fields => exact ⟨_, rfl⟩
  | string text => exact ⟨_, rfl⟩
  | boolean value => cases h
  | number value => cases h
  | native typeName => cases h

def insertField (key : String) (value : Lua) : List (String × Lua) → List (String × Lua)
  | [] => [(key, value)]
  | (key', value') :: rest =>
    if key' = key then (key, value) :: rest else (key', value') :: insertField key value rest

def setField (key : String) (value : Lua) : Lua → Lua
  | table items fields => table items (insertField key value fields)
  | other => other

def setItems : List Lua → List Lua → List Lua
  | [], rest => rest
  | item :: items, rest => item :: setItems items rest.tail

/-- The keys of the second table are set in the first. -/
def merge : Lua → Lua → Lua
  | table items fields, table items' fields' =>
    fields'.foldl (fun target entry => target.setField entry.1 entry.2)
      (table (setItems items' items) fields)
  | target, _ => target

end Lua

end Space2.Base
