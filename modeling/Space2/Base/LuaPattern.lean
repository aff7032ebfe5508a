import Mathlib

/-!
# Lua patterns

The matcher of Lua patterns on byte strings, and `gsub` with a replacement string.
A pattern is matched item by item. Items with a repetition, balanced strings,
frontiers, back references and position captures are refused.
-/
namespace Space2.Base.LuaPattern

abbrev Bytes := List UInt8

def unmodelled : String := "pattern item outside the model"

/-! ## Classes -/

def isDigit (c : UInt8) : Bool := 48 ≤ c && c ≤ 57
def isLower (c : UInt8) : Bool := 97 ≤ c && c ≤ 122
def isUpper (c : UInt8) : Bool := 65 ≤ c && c ≤ 90
def isAlpha (c : UInt8) : Bool := isLower c || isUpper c
def isAlnum (c : UInt8) : Bool := isAlpha c || isDigit c
def isGraph (c : UInt8) : Bool := 33 ≤ c && c ≤ 126
def isSpace (c : UInt8) : Bool := c = 32 || (9 ≤ c && c ≤ 13)
def isCntrl (c : UInt8) : Bool := c < 32 || c = 127
def isXdigit (c : UInt8) : Bool := isDigit c || (97 ≤ c && c ≤ 102) || (65 ≤ c && c ≤ 70)

def toLower (c : UInt8) : UInt8 := if isUpper c then c + 32 else c

/-- The class a letter names; no other byte names one. -/
def classOf (letter : UInt8) : Option (UInt8 → Bool) :=
  if letter = 97 then some isAlpha
  else if letter = 99 then some isCntrl
  else if letter = 100 then some isDigit
  else if letter = 103 then some isGraph
  else if letter = 108 then some isLower
  else if letter = 112 then some fun c => isGraph c && !isAlnum c
  else if letter = 115 then some isSpace
  else if letter = 117 then some isUpper
  else if letter = 119 then some isAlnum
  else if letter = 120 then some isXdigit
  else if letter = 122 then some fun c => c = 0
  else none

def matchClass (c cl : UInt8) : Bool :=
  match classOf (toLower cl) with
  | some inClass => if isLower cl then inClass c else !inClass c
  | none => cl = c

def matchItems (c : UInt8) : Bytes → Bool
  | [] => false
  | [item] => item = c
  | [item, next] => if item = 37 then matchClass c next else item = c || next = c
  | item :: next :: last :: rest =>
    if item = 37 then matchClass c next || matchItems c (last :: rest)
    else if next = 45 then (item ≤ c && c ≤ last) || matchItems c rest
    else item = c || matchItems c (next :: last :: rest)

/-- The members of a set, between its brackets. -/
def matchBracketClass (c : UInt8) (items : Bytes) : Bool :=
  if items.head? = some 94 then !matchItems c items.tail else matchItems c items

/-- What follows the bracket that ends a set. Its first member is never that bracket. -/
def setEnd : Nat → Bytes → Except String Bytes
  | 0, _ => throw "malformed pattern (missing ']')"
  | fuel + 1, p =>
    match p with
    | [] => throw "malformed pattern (missing ']')"
    | c :: rest =>
      let rest := if c = 37 then rest.drop 1 else rest
      if rest.head? = some 93 then pure rest.tail else setEnd fuel rest

def classEnd : Bytes → Except String Bytes
  | [] => pure []
  | c :: p =>
    if c = 37 then
      if p = [] then throw "malformed pattern (ends with '%')" else pure p.tail
    else if c = 91 then
      let members := if p.head? = some 94 then p.tail else p
      setEnd (members.length + 1) members
    else pure p

/-- Whether the first byte of the subject matches the class that `p` starts with. -/
def singleMatch (s p ep : Bytes) : Bool :=
  match s, p with
  | c :: _, item :: rest =>
    if item = 46 then true
    else if item = 37 then (rest.head?.map (matchClass c)).getD false
    else if item = 91 then matchBracketClass c (rest.take (rest.length - ep.length - 1))
    else item = c
  | _, _ => false

/-! ## Matching -/

/-- What was captured from `init` on, once the capture is closed. -/
structure Capture where
  init : Bytes
  len : Option Nat

/-- Closes the last capture that is open. -/
def endCapture (s : Bytes) : List Capture → Option (List Capture)
  | [] => none
  | capture :: rest =>
    match endCapture s rest with
    | some closed => some (capture :: closed)
    | none =>
      if capture.len = none then
        some ({ capture with len := some (capture.init.length - s.length) } :: rest)
      else none

def doMatch : Nat → Bytes → Bytes → List Capture → Except String (Option (Bytes × List Capture))
  | _, s, [], captures => pure (some (s, captures))
  | 0, _, _ :: _, _ => throw "pattern too complex"
  | fuel + 1, s, item :: p, captures =>
    if item = 40 then
      if p.head? = some 41 then throw unmodelled
      else if 32 ≤ captures.length then throw "too many captures"
      else doMatch fuel s p (captures ++ [⟨s, none⟩])
    else if item = 41 then
      match endCapture s captures with
      | none => throw "invalid pattern capture"
      | some captures => doMatch fuel s p captures
    else if item = 36 ∧ p = [] then pure (if s = [] then some (s, captures) else none)
    else if item = 37 ∧ (p.head? = some 98 ∨ p.head? = some 102 ∨ (p.head?.any isDigit) = true) then
      throw unmodelled
    else do
      let ep ← classEnd (item :: p)
      if ep.head? = some 42 ∨ ep.head? = some 43 ∨ ep.head? = some 45 ∨ ep.head? = some 63 then
        throw unmodelled
      else if singleMatch s (item :: p) ep = true then doMatch fuel s.tail ep captures
      else pure none

/-! ## Replacing -/

/-- The capture `%1`, `%2` and so on; the first is the whole match when there are no captures. -/
def getOneCapture (captures : List Capture) (i : Nat) (whole : Bytes) : Except String Bytes :=
  match captures[i]? with
  | none => if i = 0 then pure whole else throw s!"invalid capture index %{i + 1} in replacement string"
  | some capture =>
    match capture.len with
    | none => throw "unfinished capture"
    | some len => pure (capture.init.take len)

def addS (captures : List Capture) (whole : Bytes) : Bytes → Except String Bytes
  | [] => pure []
  | [c] => if c = 37 then throw "invalid use of '%' in replacement string" else pure [c]
  | c :: d :: news =>
    if c = 37 then
      if d = 37 then do pure (37 :: (← addS captures whole news))
      else if d = 48 then do pure (whole ++ (← addS captures whole news))
      else if isDigit d then do
        let capture ← getOneCapture captures (d - 49).toNat whole
        pure (capture ++ (← addS captures whole news))
      else throw "invalid use of '%' in replacement string"
    else do pure (c :: (← addS captures whole (d :: news)))

-- `last` is what was left of the subject after the last match.
def gsubFrom (p news : Bytes) : Nat → Bytes → Option Bytes → Except String (Bytes × Nat)
  | 0, _, _ => throw "out of fuel"
  | fuel + 1, src, last => do
    let found ← doMatch (p.length + 1) src p []
    match found.filter fun (e, _) => decide (some e ≠ last) with
    | some (e, captures) =>
      let added ← addS captures (src.take (src.length - e.length)) news
      let (rest, n) ← gsubFrom p news fuel e (some e)
      pure (added ++ rest, n + 1)
    | none =>
      match src with
      | [] => pure ([], 0)
      | c :: src =>
        let (rest, n) ← gsubFrom p news fuel src last
        pure (c :: rest, n)

/-- The subject with its matches replaced, and their number. -/
def gsub (src p news : Bytes) : Except String (Bytes × Nat) :=
  if p.head? = some 94 then throw unmodelled else gsubFrom p news (2 * src.length + 2) src none

/-! ## Patterns that consume what they match -/

/-- Replacing match after match, where every match consumes something. -/
def replaceEach (found : Bytes → Option (Bytes × List Capture)) (news : Bytes) :
    Nat → Bytes → Except String (Bytes × Nat)
  | 0, _ => throw "out of fuel"
  | fuel + 1, src =>
    match found src with
    | some (e, captures) => do
      let added ← addS captures (src.take (src.length - e.length)) news
      let (rest, n) ← replaceEach found news fuel e
      pure (added ++ rest, n + 1)
    | none =>
      match src with
      | [] => pure ([], 0)
      | c :: src => do
        let (rest, n) ← replaceEach found news fuel src
        pure (c :: rest, n)

variable {p news : Bytes} {found : Bytes → Option (Bytes × List Capture)}

/-- The end of the last match is never met again. -/
theorem gsubFrom_eq (hfound : ∀ s, doMatch (p.length + 1) s p [] = .ok (found s))
    (hshorter : ∀ s e captures, found s = some (e, captures) → e.length < s.length) (fuel : Nat)
    (src : Bytes) (last : Option Bytes) (hlast : ∀ e ∈ last, src.length ≤ e.length) :
    gsubFrom p news fuel src last = replaceEach found news fuel src := by
  induction fuel generalizing src last with
  | zero => rfl
  | succ fuel ih =>
    unfold gsubFrom replaceEach
    rw [hfound]
    simp only [bind, Except.bind]
    cases hmatch : found src with
    | none =>
      simp only [Option.filter_none]
      cases src with
      | nil => rfl
      | cons c src =>
        have hrest : ∀ e ∈ last, src.length ≤ e.length := fun e he =>
          (Nat.le_succ src.length).trans (hlast e he)
        simp only [ih src last hrest]
    | some result =>
      obtain ⟨e, captures⟩ := result
      have hless := hshorter src e captures hmatch
      have hnew : some e ≠ last := by
        rintro rfl
        exact absurd (hlast e rfl) (Nat.not_le.mpr hless)
      have hkept : (some (e, captures)).filter (fun (e, _) => decide (some e ≠ last)) = some (e, captures) := by
        rw [Option.filter_some, if_pos (decide_eq_true hnew)]
      have hnext : ∀ e' ∈ some e, e.length ≤ e'.length := by
        intro e' he
        rw [Option.mem_some_iff.mp he]
      rw [hkept]
      dsimp only
      simp only [ih e (some e) hnext]

end Space2.Base.LuaPattern
