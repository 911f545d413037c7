import CitedAnswers.Toml.Literal
import CitedAnswers.Toml.Table

/-!
# TOML documents

A document is a list of statements, one a line: the header of a table, the header of a further
element of an array of tables, or a key with a value. `Document.read?` gives the entries of the
outermost table.
-/

namespace CitedAnswers.Toml

open Scanner

/-! ### Keys and values -/

/-- The deepest nesting of arrays and tables within a value, and the longest dotted key. -/
def depthLimit : Nat := 79

/-- A part of a key that needs no quotes. -/
def bareKey : Scanner (List Char) :=
  spanSome fun c ↦ c.isAlphanum || c == '-' || c == '_'

/-- A part of a key, with blanks around it. -/
def keyPart : Scanner String := do
  blanks
  let cs ← bareKey <|> quoted <|> literal
  blanks
  pure (String.ofList cs)

/-- A key of one or more parts with dots between. -/
def key : Scanner (List String) := do
  let ks ← separated keyPart (char '.')
  require (decide (ks.length ≤ depthLimit))
  pure ks

/-- A value without others inside. -/
def scalar : Scanner Value :=
  (do pure (.text (← string))) <|> (do pure (.moment (← moment))) <|>
    (do pure (.float (← float))) <|> (do pure (.integer (← integer))) <|>
    (do pure (.bool (← bool)))

/-- An array of values, with blanks, line ends and comments between and perhaps a comma at its
end. -/
def array (value : Scanner Value) : Scanner Value := do
  let item : Scanner Value := do
    let v ← value
    gap
    pure v
  let comma : Scanner Unit := do
    char ','
    gap
  char '['
  gap
  let items ← option (separated item comma)
  if items.isSome then
    let _ ← option comma
  char ']'
  pure (.array (items.getD []))

/-- A key and its value. -/
def entry (value : Scanner Value) : Scanner (List String × Value) := do
  let k ← key
  char '='
  blanks
  let v ← value
  blanks
  pure (k, v)

/-- A table in one piece: entries with commas between, all on one line. -/
def closedTable (value : Scanner Value) : Scanner Value := do
  char '{'
  blanks
  let pairs ← option (separated (entry value) (char ','))
  char '}'
  match (pairs.getD []).foldlM (fun es (k, v) ↦ assign v k es) [] with
  | some es => pure (.table .closed es)
  | none => fun _ ↦ none

/-- A value with others inside up to a depth. -/
def value : Nat → Scanner Value
  | 0 => scalar
  | depth + 1 => scalar <|> array (value depth) <|> closedTable (value depth)

/-! ### Statements -/

/-- A statement of a document. -/
inductive Statement where
  /-- The entries that follow belong to the table of this path. -/
  | table (path : List String)
  /-- The entries that follow belong to a further element of the array of tables of this path. -/
  | element (path : List String)
  | entry (path : List String) (v : Value)

/-- A statement. -/
def statement : Scanner Statement :=
  (do
    word ['[', '[']
    let path ← key
    word [']', ']']
    pure (.element path)) <|>
  (do
    char '['
    let path ← key
    char ']'
    pure (.table path)) <|> do
  let (path, v) ← entry (value depthLimit)
  pure (.entry path v)

/-- A line, with or without a statement and a comment. -/
def line : Scanner (Option Statement) := do
  blanks
  let s ← option statement
  blanks
  let _ ← option comment
  pure s

/-- The statements of a document, which may start with a byte order mark. -/
def statements : Scanner (List (Option Statement)) := do
  let _ ← option (char '\ufeff')
  separated line lineEnd

/-! ### Documents -/

/-- A document as far as it is read: the outermost table and the path of the table that takes the
next entries. -/
structure Document where
  root : Entries := []
  path : List String := []

namespace Document

/-- Carries out a statement. -/
def step (d : Document) : Statement → Option Document
  | .table path => (openTable path d.root).map fun es ↦ ⟨es, path⟩
  | .element path => (openElement path d.root).map fun es ↦ ⟨es, path⟩
  | .entry path v => (descend (assign v path) d.path d.root).map fun es ↦ ⟨es, d.path⟩

/-- The entries of the outermost table of a text. -/
def read? (text : String) : Option Entries := do
  let lines ← statements.readAll? text.toList
  let d ← (lines.filterMap id).foldlM step {}
  pure d.root

end Document

end CitedAnswers.Toml
