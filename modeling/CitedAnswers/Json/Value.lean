import CitedAnswers.Json.Tree

/-!
# JSON values

A `Value` is what a JSON text means: numbers are integers or 64-bit floating-point numbers, and an
object is a dictionary, its keys in the order of code points, of a repeated key the last value.
Metadata is such a dictionary.
-/

namespace CitedAnswers.Json

/-- Puts an entry into a list of entries sorted by `before`; an entry of the same key is
replaced. -/
def insertSorted {κ α : Type} [DecidableEq κ] (before : κ → κ → Bool) (k : κ) (a : α) :
    List (κ × α) → List (κ × α)
  | [] => [(k, a)]
  | (l, b) :: es =>
    if k = l then (k, a) :: es
    else if before k l then (k, a) :: (l, b) :: es
    else (l, b) :: insertSorted before k a es

/-- A JSON value. -/
inductive Value where
  | null
  | bool (b : Bool)
  | integer (i : Int)
  | float (x : Binary)
  | string (s : String)
  | array (items : List Value)
  | object (fields : List (String × Value))
deriving Repr, Inhabited

/-- The order of keys: by code point. -/
def keyBefore (k l : String) : Bool := decide (k < l)

/-- The deepest nesting of containers that a reader enters. -/
def depthLimit : Nat := 127

/-- Enters a container. -/
def enter {α : Type} (depth : Nat) (inside : Nat → Except Fault α) : Except Fault α :=
  match depth with
  | 0 => .error .malformed
  | depth + 1 => inside depth

/-- Accepts the end of a container. -/
def Ending.check : Ending → Except Fault Unit
  | .closed => .ok ()
  | .cut b => .error b.read

/-- The integer or floating-point number of a numeral. -/
def Value.ofNumeral (n : Numeral) : Except Fault Value :=
  match n.integer? with
  | some i => .ok (.integer i)
  | none =>
    match n.float? with
    | some x => .ok (.float x)
    | none => .error .malformed

mutual

/-- Reads a value, entering at most `depth` containers. -/
def Tree.toValue (depth : Nat) : Tree → Except Fault Value
  | .null => .ok .null
  | .bool b => .ok (.bool b)
  | .number n => Value.ofNumeral n
  | .string (some s) => .ok (.string s)
  | .string none => .error .malformed
  | .array items ending =>
    match depth with
    | 0 => .error .malformed
    | depth + 1 => do
      let vs ← itemsToValues depth items
      ending.check
      pure (.array vs)
  | .object fields ending =>
    match depth with
    | 0 => .error .malformed
    | depth + 1 => do
      let fs ← fieldsToDictionary depth [] fields
      ending.check
      pure (.object fs)
  | .broken b => .error b.read

/-- Reads the items of an array. -/
def itemsToValues (depth : Nat) : List Tree → Except Fault (List Value)
  | [] => .ok []
  | t :: ts => do
    let v ← Tree.toValue depth t
    let vs ← itemsToValues depth ts
    pure (v :: vs)

/-- Reads the fields of an object into a dictionary. -/
def fieldsToDictionary (depth : Nat) (entries : List (String × Value)) :
    List (Option String × Tree) → Except Fault (List (String × Value))
  | [] => .ok entries
  | (none, _) :: _ => .error .malformed
  | (some k, t) :: fs => do
    let v ← Tree.toValue depth t
    fieldsToDictionary depth (insertSorted keyBefore k v entries) fs

end

mutual

/-- The tree of a value. -/
def Value.toTree : Value → Tree
  | .null => .null
  | .bool b => .bool b
  | .integer i => .number (.ofInt i)
  | .float x => .ofBinary .double x
  | .string s => .ofString s
  | .array items => .array (itemsToTrees items) .closed
  | .object fields => .object (fieldsToTrees fields) .closed

/-- The trees of the items of an array. -/
def itemsToTrees : List Value → List Tree
  | [] => []
  | v :: vs => v.toTree :: itemsToTrees vs

/-- The fields of a dictionary as trees. -/
def fieldsToTrees : List (String × Value) → List (Option String × Tree)
  | [] => []
  | (k, v) :: fs => (some k, v.toTree) :: fieldsToTrees fs

end

end CitedAnswers.Json
