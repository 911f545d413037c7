import CitedAnswers.Numeric.Size

/-!
# Arguments of the command

The command takes a question, a file with passages or a document, and options. An option is written
`--name value` or `--name=value`; none is abbreviated or repeated, and after `--` there are none.
Arguments are read from left to right, and the first that is wrong, or that asks for something else
than an answer, decides.
-/

namespace CitedAnswers.Command

/-- Options with a value. -/
inductive ValueOption where
  | passages
  | document
  | limit
  | settings
deriving DecidableEq, Repr

/-- The option of a name. -/
def ValueOption.ofName? (s : String) : Option ValueOption :=
  [("passages", ValueOption.passages), ("document", .document), ("top-k", .limit),
    ("config", .settings)].lookup s

/-- What the arguments say. -/
structure Arguments where
  passages : Option String := none
  document : Option String := none
  /-- How many passages are used. -/
  limit : Option Nat := none
  /-- Whether the query is polled rather than waited for. -/
  polled : Bool := false
  settings : Option String := none
  question : Option String := none
deriving DecidableEq, Repr

/-- Why arguments lead to no answer. -/
inductive Detour where
  | version
  | help
  | misuse
deriving DecidableEq, Repr

/-- Where the answer is taken from. -/
inductive Origin where
  /-- A file with passages in JSON. -/
  | passages (path : String)
  /-- A document in plain text. -/
  | document (path : String)
deriving DecidableEq, Repr

/-- What is asked of the command. -/
structure Request where
  origin : Origin
  limit : Option Nat
  polled : Bool
  settings : Option String
  question : String
deriving DecidableEq, Repr

/-- An argument by its form. -/
inductive Argument where
  /-- The end of the options. -/
  | separator
  | long (name : String) (value : Option String)
  | short (letter : Char)
  | plain (s : String)
deriving DecidableEq, Repr

namespace Argument

/-- The part of an argument before an equals sign, and the part after it. -/
def cutAtEquals (cs : List Char) : List Char × Option (List Char) :=
  let name := cs.takeWhile (· != '=')
  match cs.dropWhile (· != '=') with
  | _ :: value => (name, some value)
  | [] => (name, none)

/-- The form of an argument. A single dash is a plain one. -/
def ofString (s : String) : Argument :=
  match s.toList with
  | ['-', '-'] => separator
  | '-' :: '-' :: cs =>
    let (name, value) := cutAtEquals cs
    long (String.ofList name) (value.map String.ofList)
  | '-' :: c :: _ => short c
  | _ => plain s

end Argument

namespace Arguments

/-- A file name, which is not empty and not given before. -/
def path (before : Option String) (s : String) : Except Detour (Option String) :=
  if before.isSome || s.isEmpty then .error .misuse else .ok (some s)

/-- Takes the value of an option. -/
def set (a : Arguments) (o : ValueOption) (s : String) : Except Detour Arguments :=
  match o with
  | .passages => (path a.passages s).map fun p ↦ { a with passages := p }
  | .document => (path a.document s).map fun p ↦ { a with document := p }
  | .limit =>
    match a.limit, Size.read? s.toList with
    | none, some n => .ok { a with limit := some n }
    | _, _ => .error .misuse
  | .settings => if a.settings.isSome then .error .misuse else .ok { a with settings := some s }

/-- Takes the question, of which there is one. -/
def ask (a : Arguments) (s : String) : Except Detour Arguments :=
  if a.question.isSome then .error .misuse else .ok { a with question := some s }

/-- Takes an option without a value. -/
def setFlag (a : Arguments) (name : String) : Except Detour Arguments :=
  if name == "async" then if a.polled then .error .misuse else .ok { a with polled := true }
  else if name == "version" then .error .version
  else if name == "help" then .error .help
  else .error .misuse

/-- What a single letter stands for. -/
def ofLetter (c : Char) : Detour :=
  if c = 'V' then .version else if c = 'h' then .help else .misuse

/-- Takes arguments after the end of the options. -/
def addPlain (a : Arguments) : List String → Except Detour Arguments
  | [] => .ok a
  | s :: ss => do addPlain (← a.ask s) ss

/-- Takes arguments. -/
def add (a : Arguments) : List String → Except Detour Arguments
  | [] => .ok a
  | s :: ss =>
    match Argument.ofString s with
    | .separator => a.addPlain ss
    | .plain s => do add (← a.ask s) ss
    | .short c => .error (ofLetter c)
    | .long name value =>
      match ValueOption.ofName? name, value with
      | some o, some v => do add (← a.set o v) ss
      | some o, none =>
        match ss with
        | [] => .error .misuse
        | v :: ss =>
          match Argument.ofString v with
          | .plain v => do add (← a.set o v) ss
          | _ => .error .misuse
      | none, none => do add (← a.setFlag name) ss
      | none, some _ => .error .misuse

/-- The request that arguments stand for: there is a question, and either passages or a document. -/
def request (a : Arguments) : Except Detour Request :=
  match a.question, a.passages, a.document with
  | some q, some p, none => .ok ⟨.passages p, a.limit, a.polled, a.settings, q⟩
  | some q, none, some d => .ok ⟨.document d, a.limit, a.polled, a.settings, q⟩
  | _, _, _ => .error .misuse

end Arguments

/-- The request of a command line. -/
def Request.ofArguments (args : List String) : Except Detour Request := do
  (← Arguments.add {} args).request

end CitedAnswers.Command
