import CitedAnswers.Json.Value

/-!
# Reading types from JSON

A `Reader` takes a tree and the number of containers it may still enter, and gives a value or the
first fault in the order of the text. Beside the readers of simple types this module has `Record`,
the description of a type with named fields from which both of its JSON forms are read:

* an object, its fields in any order. Unknown fields are passed over, a repeated one is a mismatch,
  and a missing one is noticed at the closing bracket;
* an array of the fields in their declared order, from which trailing fields with a default may be
  left out.
-/

namespace CitedAnswers.Json

/-- Reads a value of the type from a tree, entering at most the given number of containers. -/
abbrev Reader (α : Type) := Nat → Tree → Except Fault α

namespace Reader

/-- Any JSON value. -/
def value : Reader Value := fun depth t ↦ t.toValue depth

/-- A string. -/
def string : Reader String := fun _ t ↦
  match t with
  | .string (some s) => .ok s
  | t => .error t.unexpected

/-- A truth value. -/
def bool : Reader Bool := fun _ t ↦
  match t with
  | .bool b => .ok b
  | t => .error t.unexpected

/-- A size. -/
def size : Reader Nat := fun _ t ↦
  match t with
  | .number n =>
    match n.integer? with
    | some (.ofNat k) => .ok k
    | _ => .error t.unexpected
  | t => .error t.unexpected

/-- A 32-bit floating-point number: the value in 64 bits, rounded again. -/
def single : Reader Binary := fun _ t ↦
  match t with
  | .number n =>
    match n.integer?, n.float? with
    | some i, _ => .ok (Binary.Format.single.round (i < 0) i.natAbs 1)
    | none, some x => .ok (Binary.Format.single.convert x)
    | none, none => .error .malformed
  | t => .error t.unexpected

/-- A value or `null`. -/
def option {α : Type} (r : Reader α) : Reader (Option α) := fun depth t ↦
  match t with
  | .null => .ok none
  | t => (r depth t).map some

/-- The items of an array. -/
def items {α : Type} (r : Reader α) (depth : Nat) : List Tree → Except Fault (List α)
  | [] => .ok []
  | t :: ts => do
    let a ← r depth t
    let as ← items r depth ts
    pure (a :: as)

/-- An array. -/
def list {α : Type} (r : Reader α) : Reader (List α) := fun depth t ↦
  match t with
  | .array ts ending => enter depth fun depth ↦ do
    let as ← items r depth ts
    ending.check
    pure as
  | t => .error t.unexpected

/-- The entries of an object, its keys read by `key` and kept in the order `before`. -/
def entries {κ α : Type} [DecidableEq κ] (before : κ → κ → Bool) (key : String → Option κ)
    (r : Reader α) (depth : Nat) (es : List (κ × α)) :
    List (Option String × Tree) → Except Fault (List (κ × α))
  | [] => .ok es
  | (none, _) :: _ => .error .malformed
  | (some k, t) :: fs => do
    let some k := key k | .error .mismatched
    let a ← r depth t
    entries before key r depth (insertSorted before k a es) fs

/-- A dictionary: an object whose keys are read by `key` and kept in the order `before`; of a
repeated key the last value counts. -/
def dictionary {κ α : Type} [DecidableEq κ] (before : κ → κ → Bool) (key : String → Option κ)
    (r : Reader α) : Reader (List (κ × α)) := fun depth t ↦
  match t with
  | .object fs ending => enter depth fun depth ↦ do
    let es ← entries before key r depth [] fs
    ending.check
    pure es
  | t => .error t.unexpected

/-- The fields of an object that gives a name as its only key, with the value `null`. -/
def nameOfFields {α : Type} (names : String → Option α) :
    List (Option String × Tree) → Ending → Except Fault α
  | [], .closed => .error .malformed
  | [], .cut b => .error b.name
  | (none, _) :: _, _ => .error .malformed
  | (some k, t) :: fs, ending => do
    let some a := names k | .error .mismatched
    match t with
    | .null => pure ()
    | t => .error t.unexpected
    if fs.isEmpty then ending.check else .error .malformed
    pure a

/-- One of a set of alternatives without content, given by its name or by an object with the name as
its only key and the value `null`. Anything but a string or an object is malformed here. -/
def name {α : Type} (names : String → Option α) : Reader α := fun depth t ↦
  match t with
  | .string (some s) =>
    match names s with
    | some a => .ok a
    | none => .error .mismatched
  | .object fs ending => enter depth fun _ ↦ nameOfFields names fs ending
  | .broken b => .error b.name
  | _ => .error .malformed

/-- Reads a text that holds one value and nothing else. -/
def run {α : Type} (r : Reader α) (s : String) : Except Fault α := do
  let (t, more) := Tree.ofText s
  let a ← r depthLimit t
  if more then .error .malformed
  pure a

end Reader

/-! ### Records -/

/-- What it means that a field is missing: a mismatch; a mismatch in an array only; or the
default. -/
inductive Absence where
  | required
  | optional
  | defaulted
deriving DecidableEq, Repr

/-- A field of a record type: its name and how its value is read into a record. -/
structure Slot (α : Type) where
  name : String
  absence : Absence
  read : Nat → Tree → Except Fault (α → α)

/-- A slot from the reader of a field's value and the function that stores it. -/
def Slot.of {α β : Type} (name : String) (absence : Absence) (r : Reader β) (set : β → α → α) :
    Slot α where
  name := name
  absence := absence
  read depth t := (r depth t).map set

/-- A record type: the record before any field is read, and the fields in their declared order. -/
structure Record (α : Type) where
  blank : α
  slots : List (Slot α)

namespace Record

variable {α : Type}

/-- Reads fields in the order of the text into `a`. -/
def readFields (r : Record α) (depth : Nat) (ending : Ending) (a : α) (seen : List String) :
    List (Option String × Tree) → Except Fault α
  | [] => do
    ending.check
    if r.slots.all fun s ↦ s.absence != .required || seen.contains s.name then pure a
    else .error .mismatched
  | (none, _) :: _ => .error .malformed
  | (some k, t) :: fs =>
    match r.slots.find? fun s ↦ s.name == k with
    | none => do
      t.skip
      readFields r depth ending a seen fs
    | some s =>
      if seen.contains k then .error .mismatched
      else do
        let set ← s.read depth t
        readFields r depth ending (set a) (k :: seen) fs

/-- Reads items in the declared order of the fields into `a`. -/
def readItems (depth : Nat) (ending : Ending) (a : α) : List (Slot α) → List Tree → Except Fault α
  | [], [] => do
    ending.check
    pure a
  | [], _ :: _ => .error .malformed
  | s :: ss, [] => do
    ending.check
    if s.absence = .defaulted then readItems depth ending a ss [] else .error .mismatched
  | s :: ss, t :: ts => do
    let set ← s.read depth t
    readItems depth ending (set a) ss ts

/-- Reads a record from either of its forms. -/
def read (r : Record α) : Reader α := fun depth t ↦
  match t with
  | .object fs ending => enter depth fun depth ↦ r.readFields depth ending r.blank [] fs
  | .array ts ending => enter depth fun depth ↦ readItems depth ending r.blank r.slots ts
  | t => .error t.unexpected

end Record

end CitedAnswers.Json
