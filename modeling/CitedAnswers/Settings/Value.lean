import CitedAnswers.Json.Value
import CitedAnswers.Toml.Document

/-!
# Values of settings

A `Setting` is a value as a source of settings gives it: a scalar, a list, or a table of further
settings. `Setting.lay` lays one over another, key by key. The readers at the end are generous: a
number may be given as text, a truth value as a number, and so on.
-/

namespace CitedAnswers

/-- A value as a source of settings gives it. -/
inductive Setting where
  | null
  | bool (b : Bool)
  | integer (i : Int)
  | float (x : Binary)
  | text (s : String)
  /-- A list. No setting is one, so its items are not kept. -/
  | list
  | table (entries : List (String × Setting))
deriving Repr, Inhabited

namespace Setting

/-! ### From data formats -/

mutual

/-- The setting of a JSON value. An integer beyond 64 bits with a sign is a floating-point
number. -/
def ofJson : Json.Value → Setting
  | .null => .null
  | .bool b => .bool b
  | .integer i =>
    if i < Size.half then .integer i else .float (Binary.Format.double.ofNat i.toNat)
  | .float x => .float x
  | .string s => .text s
  | .array _ => .list
  | .object fields => .table (entriesOfJson fields)

/-- The entries of a JSON object. -/
def entriesOfJson : List (String × Json.Value) → List (String × Setting)
  | [] => []
  | (k, v) :: fs => (k, ofJson v) :: entriesOfJson fs

end

mutual

/-- The setting of a TOML value. Dates and times are text. -/
def ofToml : Toml.Value → Setting
  | .text s | .moment s => .text s
  | .integer i => .integer i
  | .float x => .float x
  | .bool b => .bool b
  | .array _ | .tables _ => .list
  | .table _ entries => .table (entriesOfToml entries)

/-- The entries of a TOML table. -/
def entriesOfToml : List (String × Toml.Value) → List (String × Setting)
  | [] => []
  | (k, v) :: es => (k, ofToml v) :: entriesOfToml es

end

/-! ### Tables -/

/-- The entries of a table; anything else has none. -/
def entries : Setting → List (String × Setting)
  | .table es => es
  | _ => []

/-- The value of a key of a table. -/
def get? (s : Setting) (k : String) : Option Setting := s.entries.lookup k

/-- The entries with a value put under a key. -/
def put (k : String) (v : Setting) : List (String × Setting) → List (String × Setting)
  | [] => [(k, v)]
  | (l, w) :: es => if k = l then (l, v) :: es else (l, w) :: put k v es

/-- A character in lower case, as far as lower case leads to ASCII: the capital letters of ASCII and
the sign of the kelvin. -/
def lowerChar (c : Char) : Char := if c = '\u212a' then 'k' else c.toLower

/-- A name in lower case. Names of settings are the same in either case. -/
def lower (s : String) : String := String.ofList (s.toList.map lowerChar)

mutual

/-- What a value becomes when another is laid over it: a table goes in key by key, anything else
takes its place. -/
def lay (old : Setting) : Setting → Setting
  | .table new => layEntries old new
  | v => v

/-- Lays entries over a value, one after the other. A value that is no table makes way for one with
the first entry. -/
def layEntries (old : Setting) : List (String × Setting) → Setting
  | [] => old
  | (k, v) :: es =>
    layEntries (.table (put (lower k) (lay ((old.get? (lower k)).getD (.table [])) v) old.entries))
      es

end

/-! ### Reading -/

/-- The floating-point number rounded to a size, a half going up. Below zero it is zero, and so is
what is no number. -/
def sizeOfFloat : Binary → Nat
  | .nan => 0
  | .infinite negative => if negative then 0 else Size.max
  | x => if x.isNegative then 0 else Size.saturate (x.nearestMagnitude?.getD 0)

/-- The words for a truth value. -/
def truth? (s : String) : Option Bool :=
  if ["true", "on", "yes"].contains (lower s) then some true
  else if ["false", "off", "no"].contains (lower s) then some false
  else none

/-- A size. -/
def toSize? : Setting → Option Nat
  | .integer i => if 0 ≤ i then some i.toNat else none
  | .float x => some (sizeOfFloat x)
  | .bool b => some b.toNat
  | .text s =>
    match truth? s with
    | some b => some b.toNat
    | none => Size.read? s.toList
  | .null | .list | .table _ => none

/-- A truth value. Of numbers, all but zero are true. -/
def toBool? : Setting → Option Bool
  | .bool b => some b
  | .integer i => some (i != 0)
  | .float x => some !x.isZero
  | .text s => if s == "1" then some true else if s == "0" then some false else truth? s
  | .null | .list | .table _ => none

/-- A text. -/
def toText? : Setting → Option String
  | .text s => some s
  | .bool b => some (if b then "true" else "false")
  | .integer i => some (toString i)
  | .float x => some (Binary.Layout.plain.render .double x)
  | .null | .list | .table _ => none

/-- One of several names, as text or as the only key of a table. -/
def toName? {α : Type} (names : String → Option α) : Setting → Option α
  | .text s => names (lower s)
  | .table [(k, _)] => names (lower k)
  | .null | .bool _ | .integer _ | .float _ | .list | .table _ => none

end Setting

end CitedAnswers
