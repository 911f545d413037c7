import CitedAnswers.Settings.Basic
import CitedAnswers.Settings.Value

/-!
# Layers of settings

A `Layer` is what one source of settings says: values under keys, where a key may be a path into
tables. `Settings.ofLayers` lays all layers over one another, the last on top, and the result over
the usual settings; then it reads the settings off and refuses those that an engine cannot be built
with.
-/

namespace CitedAnswers

/-- What one source of settings says, in its order. -/
abbrev Layer := List (String × Setting)

/-! ### Keys -/

/-- Where a value goes: under a name in each of some tables. A path with a subscript leads into a
list. -/
structure Setting.Path where
  names : List String
  intoList : Bool
deriving DecidableEq, Repr

namespace Setting.Path

open Scanner

/-- A name in a path. -/
def name : Scanner String := do
  let cs ← spanSome fun c ↦ c.isAlphanum || c == ' ' || c == '_' || c == '-'
  pure (String.ofList cs)

/-- A subscript: an integer of 64 bits between brackets. -/
def subscript : Scanner Unit := do
  char '['
  let _ ← option (char '-')
  let ds ← spanSome Char.isDigit
  require (decide (Nat.ofDigitChars 10 ds 0 < Size.half))
  char ']'

/-- A further name or a subscript. -/
def step : Scanner (Option String) :=
  (do
    char '.'
    pure (some (← name))) <|> do
  subscript
  pure none

/-- A path of names with dots between, and subscripts. -/
def scanner : Scanner Path := do
  let first ← name
  let steps ← many step
  pure ⟨first :: (steps.takeWhile Option.isSome).filterMap id, steps.any Option.isNone⟩

/-- The path of a key. A key that is no path is a name as it stands. -/
def ofKey (k : String) : Path := (scanner.readAll? k.toList).getD ⟨[k], false⟩

/-- A value inside of tables. -/
def enclose (v : Setting) : List String → Setting
  | [] => v
  | n :: ns => .table [(n, enclose v ns)]

end Setting.Path

/-- What the value of a key says, as a table from the outermost name on. -/
def Setting.ofEntry (k : String) (v : Setting) : Setting :=
  let p := Path.ofKey (lower k)
  Path.enclose (if p.intoList then .list else v) p.names

/-- Lays a layer over a value. -/
def Layer.layOn (l : Layer) (s : Setting) : Setting :=
  l.foldl (fun s (k, v) ↦ s.lay (.ofEntry k v)) s

/-- Lays layers over one another, the last on top. -/
def Layer.merge (ls : List Layer) : Setting := ls.foldl (fun s l ↦ l.layOn s) (.table [])

/-! ### Settings -/

namespace Settings

/-- A sizing as a setting. -/
def ofSizing (s : Sizing) : Setting :=
  .table
    [("chunk_size", .integer s.size),
      ("chunk_overlap", .integer s.overlap),
      ("measure", .text s.measure.name)]

/-- Settings as a layer below all others. -/
def toSetting (s : Settings) : Setting :=
  .table
    [("source", ofSizing s.source),
      ("citation", ofSizing s.citation),
      ("synthesis", .table
        [("response_mode", .text s.synthesis.mode.name),
          ("max_context_chars", .integer s.synthesis.budget)]),
      ("observability", .table
        [("log_level", .text s.reporting.level),
          ("json_logging", .bool s.reporting.structured),
          ("service_name", .text s.reporting.service)])]

/-- The value of a name in a section. -/
def read {α : Type} (s : Setting) (section_ name : String) (f : Setting → Option α) :
    Except Failure α :=
  match ((s.get? section_).bind (·.get? name)).bind f with
  | some a => .ok a
  | none => .error (.settings ("no usable value for " ++ section_ ++ "." ++ name))

/-- The sizing of a section. -/
def readSizing (s : Setting) (section_ : String) : Except Failure Sizing := do
  let size ← read s section_ "chunk_size" Setting.toSize?
  let overlap ← read s section_ "chunk_overlap" Setting.toSize?
  let measure ← read s section_ "measure" (Setting.toName? Measure.ofName?)
  pure ⟨size, overlap, measure⟩

/-- The settings that a value stands for. -/
def ofSetting (s : Setting) : Except Failure Settings := do
  let source ← readSizing s "source"
  let citation ← readSizing s "citation"
  let mode ← read s "synthesis" "response_mode" (Setting.toName? Synthesis.Mode.ofName?)
  let budget ← read s "synthesis" "max_context_chars" Setting.toSize?
  let level ← read s "observability" "log_level" Setting.toText?
  let structured ← read s "observability" "json_logging" Setting.toBool?
  let service ← read s "observability" "service_name" Setting.toText?
  pure ⟨source, citation, ⟨mode, budget⟩, ⟨level, structured, service⟩⟩

/-- The settings of some layers over the usual settings, the last layer on top. -/
def ofLayers (ls : List Layer) : Except Failure Settings := do
  let s ← ofSetting (standard.toSetting.lay (Layer.merge ls))
  s.check
  pure s

end Settings

end CitedAnswers
