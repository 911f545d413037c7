import CitedAnswers.Numeric.Binary

/-!
# TOML tables

A `Value` is what a TOML text describes, together with how its tables came to be: what may still be
added to a table depends on that. `assign` enters a value under a dotted key, `openTable` begins the
table of a header, and `openElement` begins a further element of an array of tables. Each fails
where something would be defined twice.
-/

namespace CitedAnswers.Toml

/-- How a table came to be. -/
inductive Origin where
  /-- By a header of its own. -/
  | header
  /-- By the header of a table inside it. -/
  | implied
  /-- By a dotted key. -/
  | dotted
  /-- In one piece, between braces. -/
  | closed
deriving DecidableEq, Repr

/-- What a TOML text describes. -/
inductive Value where
  | text (s : String)
  | integer (i : Int)
  | float (x : Binary)
  | bool (b : Bool)
  /-- A date, a time, or both. -/
  | moment (s : String)
  | array (items : List Value)
  | table (origin : Origin) (entries : List (String × Value))
  /-- An array of tables that each have a header, last first. -/
  | tables (elements : List (List (String × Value)))
deriving Repr, Inhabited

/-- The entries of a table. -/
abbrev Entries := List (String × Value)

/-- Changes the value of a key, of which there may be none before. -/
def change (f : Option Value → Option Value) (k : String) : Entries → Option Entries
  | [] => (f none).map fun v ↦ [(k, v)]
  | (l, v) :: es =>
    if l = k then (f (some v)).map fun w ↦ (l, w) :: es
    else (change f k es).map ((l, v) :: ·)

/-- Enters a value under a dotted key. On the way, tables come to be as they are needed; a table
with a header or in one piece takes no dotted keys from outside, and the innermost table of a dotted
key takes further keys only if dotted keys made it. -/
def assign (v : Value) : List String → Entries → Option Entries
  | [], _ => none
  | [k], es => change (fun
      | none => some v
      | some _ => none) k es
  | k :: ks, es => change (fun
      | none => (assign v ks []).map (.table .dotted)
      | some (.table .dotted inner) => (assign v ks inner).map (.table .dotted)
      | some (.table .implied inner) =>
        if ks.length = 1 then none else (assign v ks inner).map (.table .implied)
      | some (.tables (last :: before)) =>
        if ks.length = 1 then none else (assign v ks last).map fun l ↦ .tables (l :: before)
      | some _ => none) k es

/-- Changes the table that a path of headers leads to. An array of tables stands for its last
element. -/
def descend (f : Entries → Option Entries) : List String → Entries → Option Entries
  | [], es => f es
  | k :: ks, es => change (fun
      | none => (descend f ks []).map (.table .implied)
      | some (.table .closed _) => none
      | some (.table origin inner) => (descend f ks inner).map (.table origin)
      | some (.tables (last :: before)) => (descend f ks last).map fun l ↦ .tables (l :: before)
      | some _ => none) k es

/-- Begins the table of a header, which may have been implied before. -/
def openTable (path : List String) (es : Entries) : Option Entries := do
  let k ← path.getLast?
  descend (change (fun
    | none => some (.table .header [])
    | some (.table .implied inner) => some (.table .header inner)
    | some _ => none) k) path.dropLast es

/-- Begins a further element of an array of tables. -/
def openElement (path : List String) (es : Entries) : Option Entries := do
  let k ← path.getLast?
  descend (change (fun
    | none => some (.tables [[]])
    | some (.tables elements) => some (.tables ([] :: elements))
    | some _ => none) k) path.dropLast es

end CitedAnswers.Toml
