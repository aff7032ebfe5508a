import Space2.Base.Checks
import Space2.Base.LuaText
import Space2.Base.TableSort
import Mathlib

/-!
# The grammar of content lines

A text is its bytes. Folded lines are unfolded and split first, then a line is read as a name,
parameters and an escaped value. Parameter values are written and read as they are; there is no
quoting.
-/
namespace Space2.Ics
open Base

/-- A table of parameters by their names. -/
abbrev Params := AList fun _ : Text => Text

section Names

def uppercase (text : Text) : Text := text.map Char.toUpper

/-- `^[%a%d%-]+$` -/
def validName (name : Text) : Bool :=
  !name.isEmpty && name.all fun c => c.isAlpha || c.isDigit || c = '-'

def validatePropertyName (name : Text) : Except Text Text := do
  ensure (validName name = true) ("invalid temporal ICS property name: ".toList ++ name)
  pure (uppercase name)

def validateParameterName (name : Text) : Except Text Text := do
  ensure (validName name = true) ("invalid temporal ICS parameter name: ".toList ++ name)
  pure (uppercase name)

def crlf : Text := ['\r', '\n']

def normalizeLineEnding (lineEnding : Option Text) : Except Text Text :=
  match lineEnding with
  | none => .ok crlf
  | some name =>
    if name = "crlf".toList then .ok crlf
    else if name = "lf".toList then .ok ['\n']
    else .error ("invalid temporal ICS line-ending: ".toList ++ name)

end Names

section Unfolding

/-- The loop of `unfold-lines`: the lines so far, the characters of the line under way, and
whether a line break was the last thing read. `empty` says that the whole input is. -/
def unfoldFrom (empty : Bool) (lines : List Text) (chars : Text) (ended : Bool) :
    Text → Except Text (List Text)
  | [] =>
    if (chars ≠ [] ∨ ended = false) ∧ ¬ (empty = true ∧ chars = []) then .ok (lines ++ [chars])
    else .ok lines
  | '\r' :: '\n' :: ' ' :: rest => unfoldFrom empty lines chars true rest
  | '\r' :: '\n' :: '\t' :: rest => unfoldFrom empty lines chars true rest
  | '\r' :: '\n' :: rest => unfoldFrom empty (lines ++ [chars]) [] true rest
  | '\r' :: _ => .error "invalid temporal ICS line ending".toList
  | '\n' :: ' ' :: rest => unfoldFrom empty lines chars true rest
  | '\n' :: '\t' :: rest => unfoldFrom empty lines chars true rest
  | '\n' :: rest => unfoldFrom empty (lines ++ [chars]) [] true rest
  | char :: rest => unfoldFrom empty lines (chars ++ [char]) false rest

def unfoldLines (text : Text) : Except Text (List Text) :=
  unfoldFrom text.isEmpty [] [] false text

/-- The parts `(line:sub index (+ index 73))` of what is left of a line. -/
def continuations (rest : Text) : List Text :=
  if rest = [] then [] else rest.take 74 :: continuations (rest.drop 74)
termination_by rest.length
decreasing_by
  have : 0 < rest.length := List.length_pos_of_ne_nil (by assumption)
  rw [List.length_drop]
  omega

def foldLine (line : Text) : Text :=
  if line.length ≤ 75 then line
  else line.take 75 ++ (continuations (line.drop 75)).flatMap fun part => crlf ++ ' ' :: part

/-- `(folded:gsub "\r\n" newline)` -/
def replaceBreaks (newline : Text) : Text → Text
  | [] => []
  | '\r' :: '\n' :: rest => newline ++ replaceBreaks newline rest
  | char :: rest => char :: replaceBreaks newline rest

end Unfolding

section Escaping

def unescapeText : Text → Except Text Text
  | [] => .ok []
  | ['\\'] => .error "invalid temporal ICS escape: trailing backslash".toList
  | '\\' :: escaped :: rest =>
    if escaped = '\\' ∨ escaped = ',' ∨ escaped = ';' then (escaped :: ·) <$> unescapeText rest
    else if escaped = 'n' ∨ escaped = 'N' then ('\n' :: ·) <$> unescapeText rest
    else .error ("invalid temporal ICS escape: \\".toList ++ [escaped])
  | char :: rest => (char :: ·) <$> unescapeText rest

def escapeChar (char : Char) : Text :=
  if char = '\\' then ['\\', '\\']
  else if char = ',' then ['\\', ',']
  else if char = ';' then ['\\', ';']
  else if char = '\r' then ['\\', 'n']
  else if char = '\n' then ['\\', 'n']
  else [char]

def escapeText (text : Text) : Text := text.flatMap escapeChar

end Escaping

section Lines

/-- What stands before the first separator and after it. -/
def cut (separator : Char) (text : Text) : Option (Text × Text) :=
  if separator ∈ text then
    some (text.takeWhile (· ≠ separator), (text.dropWhile (· ≠ separator)).tail)
  else none

def parseParam (params : Params) (piece : Text) : Except Text Params :=
  match cut '=' piece with
  | none => .error ("invalid temporal ICS parameter on content line: ".toList ++ piece)
  | some (key, value) => do
    let name ← validateParameterName key
    ensure (name ∉ params) ("duplicate temporal ICS parameter: ".toList ++ name)
    pure (params.insert name value)

/-- The pieces after the first. -/
def parseParams (pieces : List Text) : Except Text Params := pieces.tail.foldlM parseParam ∅

def splitOnSemicolon (text : Text) : List Text := text.splitOn ';'

structure ContentLine where
  name : Text
  params : Params
  value : Text
  sourceOrder : Nat

def parseContentLine (line : Text) (sourceOrder : Option Nat) : Except Text ContentLine :=
  match cut ':' line with
  | none => .error "invalid temporal ICS content line: missing colon".toList
  | some (front, value) => do
    let pieces := splitOnSemicolon front
    let name ← validatePropertyName (pieces.headD [])
    let params ← parseParams pieces
    let value ← unescapeText value
    pure ⟨name, params, value, sourceOrder.getD 1⟩

def parseContentLines (text : Text) : Except Text (List ContentLine) := do
  let lines ← unfoldLines text
  (lines.zipIdx 1).mapM fun (line, index) => parseContentLine line (some index)

/-- The keys of the parameters in the order of their bytes. -/
def sortedParamKeys (params : Params) : List Text := tableSort (fun a b => decide (a < b)) params.keys

/-- The table of options; only the line ending may be given. -/
def validateEmitOptions (options : Params) : Except Text Text := do
  options.keys.forM fun key =>
    ensure (key = "line-ending".toList) ("unknown temporal ICS emit option: ".toList ++ key)
  normalizeLineEnding (options.lookup "line-ending".toList)

def emitParam (params : Params) (key : Text) : Except Text Text := do
  let name ← validateParameterName key
  pure (';' :: name ++ '=' :: (params.lookup key).getD [])

def emitContentLine (name : Text) (params : Params) (value : Text) (options : Params) :
    Except Text Text := do
  let newline ← validateEmitOptions options
  let name ← validatePropertyName name
  let parts ← (sortedParamKeys params).mapM (emitParam params)
  let folded := foldLine (name ++ parts.flatten ++ ':' :: escapeText value)
  pure (if newline = crlf then folded else replaceBreaks newline folded)

end Lines

end Space2.Ics
