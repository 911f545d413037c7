import CitedAnswers.Json.Token

/-!
# Trees of JSON text

A `Tree` is a JSON text with its structure laid open and nothing else decided: numbers and strings
as written, fields in their order, repeated keys kept. A text that breaks off gives the tree of what
stands before the break, the break itself at the place where it happens. A reader of a type walks
the tree in the order of the text and so meets either the break or a mismatch first, whichever is
further left.

`Tree.ofTokens` builds the tree with a stack of the containers that are still open; `Tree.text`
writes the compact text of a tree without breaks.
-/

namespace CitedAnswers.Json

/-- How a container ends: with its closing bracket, or at a break. -/
inductive Ending where
  | closed
  | cut (b : Break)
deriving DecidableEq, Repr

/-- A JSON text with its structure laid open. -/
inductive Tree where
  | null
  | bool (b : Bool)
  | number (n : Numeral)
  /-- A string; `none` if a surrogate in it is unpaired. -/
  | string (s : Option String)
  | array (items : List Tree) (ending : Ending)
  | object (fields : List (Option String × Tree)) (ending : Ending)
  /-- A value that the text does not bring to its end. -/
  | broken (b : Break)
deriving Repr, Inhabited

namespace Tree

/-! ### From tokens -/

/-- A container that is still open: what it holds so far, last first. An object also has the key
whose value is being read. -/
inductive Frame where
  | array (items : List Tree)
  | object (fields : List (Option String × Tree)) (key : Option String)

/-- What may come next. -/
inductive Place where
  /-- A value. -/
  | value
  /-- A value or the end of the array. -/
  | firstItem
  /-- A key or the end of the object. -/
  | firstKey
  /-- A key. -/
  | key
  /-- The colon after a key. -/
  | colon
  /-- A comma or the end of the container. -/
  | next
deriving DecidableEq, Repr

/-- The tree of a text that breaks off, from the container around the break outwards. -/
def enclose (b : Break) : List Frame → Tree → Tree
  | [], t => t
  | .array items :: st, t => enclose b st (.array (t :: items).reverse (.cut b))
  | .object fields key :: st, t => enclose b st (.object ((key, t) :: fields).reverse (.cut b))

/-- The tree of a text that breaks off at the given place. -/
def breakOff (b : Break) (place : Place) : List Frame → Tree
  | .array items :: st =>
    if place = .value then enclose b (.array items :: st) (.broken b)
    else enclose b st (.array items.reverse (.cut b))
  | .object fields key :: st =>
    if place = .value ∨ place = .colon then enclose b (.object fields key :: st) (.broken b)
    else enclose b st (.object fields.reverse (.cut b))
  | [] => .broken b

/-- The break seen where a value is wanted and a token starts none. -/
def Break.ofNoValue : Token → Break
  | .broken b | .brokenString b => b
  | _ => Fault.malformed.toBreak

/-- The break seen where a key is wanted and a token is none. For a reader that wants a name there,
a value of another kind is a mismatch. -/
def Break.ofNoKey : Token → Break
  | .brokenString b => b
  | .number n => ⟨.malformed, .malformed, if n.inRange then .mismatched else .malformed⟩
  | .null | .bool _ | .openArray | .openObject => ⟨.malformed, .malformed, .mismatched⟩
  | .broken b => ⟨.malformed, .malformed, b.read⟩
  | _ => Fault.malformed.toBreak

/-- What becomes of the containers that are open when a token is read. -/
inductive Move where
  /-- The text breaks off here. -/
  | stop (t : Tree)
  /-- The outermost value is complete. -/
  | finish (t : Tree)
  /-- More is to come. -/
  | go (st : List Frame) (place : Place)

/-- Puts a complete value into the container around it. -/
def Move.supply (v : Tree) : List Frame → Move
  | [] => .finish v
  | .array items :: st => .go (.array (v :: items) :: st) .next
  | .object fields key :: st => .go (.object ((key, v) :: fields) none :: st) .next

/-- Reads a token that starts a value. -/
def Move.start (st : List Frame) : Token → Move
  | .null => supply .null st
  | .bool b => supply (.bool b) st
  | .number n => supply (.number n) st
  | .string s => supply (.string s) st
  | .openArray => .go (.array [] :: st) .firstItem
  | .openObject => .go (.object [] none :: st) .firstKey
  | t => .stop (breakOff (Break.ofNoValue t) .value st)

/-- Reads a token where a container may end or go on. -/
def Move.proceed (st : List Frame) (t : Token) : Move :=
  match t, st with
  | .comma, .array _ :: _ => .go st .value
  | .comma, .object .. :: _ => .go st .key
  | .closeArray, .array items :: st => supply (.array items.reverse .closed) st
  | .closeObject, .object fields _ :: st => supply (.object fields.reverse .closed) st
  | _, _ => .stop (breakOff Fault.malformed.toBreak .next st)

/-- Reads a token where a key is wanted. -/
def Move.key (st : List Frame) (t : Token) : Move :=
  match t, st with
  | .string s, .object fields _ :: st => .go (.object fields s :: st) .colon
  | t, st => .stop (breakOff (Break.ofNoKey t) .key st)

/-- Reads a token at a place. -/
def Move.of (st : List Frame) (place : Place) (t : Token) : Move :=
  match place, t with
  | .firstItem, .closeArray | .firstKey, .closeObject => Move.proceed st t
  | .value, _ | .firstItem, _ => Move.start st t
  | .firstKey, _ | .key, _ => Move.key st t
  | .colon, .colon => .go st .value
  | .colon, _ => .stop (breakOff Fault.malformed.toBreak .colon st)
  | .next, _ => Move.proceed st t

/-- The tree of the tokens, and whether tokens are left over after its value. -/
def build (st : List Frame) (place : Place) : List Token → Tree × Bool
  | [] => (breakOff Fault.truncated.toBreak place st, false)
  | t :: ts =>
    match Move.of st place t with
    | .stop v => (v, false)
    | .finish v => (v, !ts.isEmpty)
    | .go st place => build st place ts

/-- The tree of the tokens of a text, and whether something is left over after its value. -/
def ofTokens (ts : List Token) : Tree × Bool := build [] .value ts

/-- The tree of a text, and whether something is left over after its value. -/
def ofText (s : String) : Tree × Bool := ofTokens (Token.scan s.toList)

/-! ### Passing over a value -/

mutual

/-- Passes over a value: only what breaks its structure matters. -/
def skip : Tree → Except Fault Unit
  | array items ending => do skipItems items; skipEnding ending
  | object fields ending => do skipFields fields; skipEnding ending
  | broken b => .error b.skip
  | _ => .ok ()

/-- Passes over the items of an array. -/
def skipItems : List Tree → Except Fault Unit
  | [] => .ok ()
  | t :: ts => do skip t; skipItems ts

/-- Passes over the fields of an object. -/
def skipFields : List (Option String × Tree) → Except Fault Unit
  | [] => .ok ()
  | (_, t) :: fs => do skip t; skipFields fs

/-- Passes over the end of a container. -/
def skipEnding : Ending → Except Fault Unit
  | .closed => .ok ()
  | .cut b => .error b.skip

end

/-- The fault of a value of another kind than the one wanted. A string or number is looked at as a
whole first; of a container only the opening bracket. -/
def unexpected : Tree → Fault
  | string none => .malformed
  | number n => if n.inRange then .mismatched else .malformed
  | broken b => b.read
  | _ => .mismatched

/-! ### Compact text -/

/-- The hexadecimal digit of a number below sixteen. -/
def hexDigit (n : Nat) : Char := if n < 10 then Char.ofNat (48 + n) else Char.ofNat (87 + n)

/-- A character inside a string literal. -/
def escape (c : Char) : List Char :=
  if c = '"' then ['\\', '"']
  else if c = '\\' then ['\\', '\\']
  else if c = '\x08' then ['\\', 'b']
  else if c = '\x0c' then ['\\', 'f']
  else if c = '\n' then ['\\', 'n']
  else if c = '\r' then ['\\', 'r']
  else if c = '\t' then ['\\', 't']
  else if c.toNat < 0x20 then
    ['\\', 'u', '0', '0', hexDigit (c.toNat / 16), hexDigit (c.toNat % 16)]
  else [c]

/-- A string literal. -/
def quote (s : String) : List Char := '"' :: s.toList.flatMap escape ++ ['"']

mutual

/-- The compact text of a tree without breaks. -/
def chars : Tree → List Char
  | null => ['n', 'u', 'l', 'l']
  | bool true => ['t', 'r', 'u', 'e']
  | bool false => ['f', 'a', 'l', 's', 'e']
  | number n => n.text
  | string s => quote (s.getD "")
  | array items _ => '[' :: charsOfItems items ++ [']']
  | object fields _ => '{' :: charsOfFields fields ++ ['}']
  | broken _ => []

/-- The items of an array, separated by commas. -/
def charsOfItems : List Tree → List Char
  | [] => []
  | [t] => chars t
  | t :: ts => chars t ++ ',' :: charsOfItems ts

/-- The fields of an object, separated by commas. -/
def charsOfFields : List (Option String × Tree) → List Char
  | [] => []
  | [(k, t)] => quote (k.getD "") ++ ':' :: chars t
  | (k, t) :: fs => quote (k.getD "") ++ ':' :: chars t ++ ',' :: charsOfFields fs

end

/-- The compact text of a tree without breaks. -/
def text (t : Tree) : String := String.ofList t.chars

/-! ### Making trees -/

/-- A string. -/
def ofString (s : String) : Tree := .string (some s)

/-- A natural number. -/
def ofNat (n : Nat) : Tree := .number (.ofNat n)

/-- An array. -/
def ofList (ts : List Tree) : Tree := .array ts .closed

/-- An object with the fields that are present. -/
def ofFields (fs : List (String × Option Tree)) : Tree :=
  .object (fs.filterMap fun (k, t?) ↦ t?.map fun t ↦ (some k, t)) .closed

/-- A floating-point number of the given format; what is not finite is written `null`. -/
def ofBinary (f : Binary.Format) (x : Binary) : Tree :=
  match Numeral.ofBinary? f x with
  | some n => .number n
  | none => .null

end Tree

end CitedAnswers.Json
