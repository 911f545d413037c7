import CitedAnswers.Settings.Environment

/-!
# Loading settings

Settings are loaded from files and from environment variables, each a layer over those before. How
the text of a file is got is left to the caller, so that files may be anywhere, and so is which
formats there are. TOML and JSON are two of them.
-/

namespace CitedAnswers

/-- Gets the text of the file at a path, if there is one. -/
abbrev FileAccess (m : Type → Type) := String → m (Option String)

namespace Settings

/-! ### Formats -/

/-- A format of settings files. -/
structure Format where
  /-- The extensions of files in the format. -/
  extensions : List (List Char)
  /-- What a text in the format says, if it is well-formed. -/
  layer? : String → Option Layer

/-- The text after a byte order mark at its start. -/
def withoutMark (s : String) : String :=
  match s.toList with
  | '\ufeff' :: cs => String.ofList cs
  | cs => String.ofList cs

/-- Settings files in TOML. -/
def Format.toml : Format where
  extensions := [['t', 'o', 'm', 'l']]
  layer? text := (Toml.Document.read? (withoutMark text)).map Setting.entriesOfToml

/-- Settings files in JSON. The outermost value has to be an object. -/
def Format.json : Format where
  extensions := [['j', 's', 'o', 'n']]
  layer? text :=
    match Json.Reader.value.run (withoutMark text) with
    | .ok (.object fields) => some (Setting.entriesOfJson fields)
    | _ => none

/-- The formats with each of their extensions. -/
def Format.alternatives (fs : List Format) : List (Format × List Char) :=
  fs.flatMap fun f ↦ f.extensions.map fun ext ↦ (f, ext)

/-! ### Names -/

/-- The last part of a path. -/
def lastPart (path : List Char) : List Char := (path.reverse.takeWhile (· != '/')).reverse

/-- The extension of the last part of a path: what follows its last dot, unless the part begins with
that dot. -/
def extension (path : List Char) : List Char :=
  let part := (lastPart path).reverse
  let ext := part.takeWhile (· != '.')
  if ext.length + 1 < part.length then ext.reverse else []

/-- A path without slashes, and dots of no meaning, at its end, last character first. -/
def trimEnd : List Char → List Char
  | '/' :: cs => trimEnd cs
  | '.' :: '/' :: cs => trimEnd cs
  | cs => cs

/-- The path of the file that stands for a name without an extension. A name whose last part is no
name of a file has none. -/
def candidate? (name ext : List Char) : Option String :=
  let path := (trimEnd name.reverse).reverse
  let part := lastPart path
  if part.isEmpty || part == ['.'] || part == ['.', '.'] then none
  else some (String.ofList (path ++ '.' :: ext))

/-! ### Files -/

variable {m : Type → Type} [Monad m]

/-- The first file of a name with an extension, and its format. -/
def findCandidate (access : FileAccess m) (name : List Char) :
    List (Format × List Char) → m (Option (Format × String))
  | [] => pure none
  | (f, ext) :: fs => do
    match candidate? name ext with
    | none => findCandidate access name fs
    | some path =>
      match ← access path with
      | some text => pure (some (f, text))
      | none => findCandidate access name fs

variable (formats : List Format)

/-- The file of a name and its format. A file of exactly that name decides, and has to have an
extension of a format. -/
def find (access : FileAccess m) (name : String) : m (Option (Format × String)) := do
  match ← access name with
  | some text =>
    let f := formats.find? fun f ↦ f.extensions.contains (extension name.toList)
    pure (f.map fun f ↦ (f, text))
  | none => findCandidate access name.toList (Format.alternatives formats)

/-- What a file says. One that is not found says nothing, unless it is required. -/
def fileLayer (access : FileAccess m) (required : Bool) (name : String) :
    m (Except Failure Layer) := do
  match ← find formats access name with
  | some (f, text) =>
    match f.layer? text with
    | some l => pure (.ok l)
    | none => pure (.error (.settings ("malformed settings in " ++ name)))
  | none =>
    if required then pure (.error (.settings ("no settings file " ++ name))) else pure (.ok [])

/-- What several files say, none of them required. -/
def fileLayers (access : FileAccess m) : List String → m (Except Failure (List Layer))
  | [] => pure (.ok [])
  | n :: ns => do
    match ← fileLayer formats access false n with
    | .error f => pure (.error f)
    | .ok l =>
      match ← fileLayers access ns with
      | .error f => pure (.error f)
      | .ok ls => pure (.ok (l :: ls))

/-- The names of the settings files: the usual ones, those of the kind of environment, and those of
this place. -/
def fileNames (env : Environment) : List String :=
  ["config/default", "config/" ++ (env.lookup "APP_ENV").getD "development", "config/local"]

/-- Loads the settings from the files with fixed names and from the environment. -/
def load (access : FileAccess m) (env : Environment) : m (Except Failure Settings) := do
  let ls ← fileLayers formats access (fileNames env)
  pure (ls.bind fun ls ↦ ofLayers (ls ++ [env.layer]))

/-- Loads the settings from one file and from the environment. -/
def loadFile (access : FileAccess m) (env : Environment) (name : String) :
    m (Except Failure Settings) := do
  let l ← fileLayer formats access true name
  pure (l.bind fun l ↦ ofLayers [l, env.layer])

end Settings

end CitedAnswers
