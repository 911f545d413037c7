/-!
# Log entries

What the engine does is reported in log entries: a level, a message and named fields. An entry says
which event it belongs to by the number of the event; how a reader of the log tells events apart is
up to whoever writes the entry out.
-/

namespace CitedAnswers.Log

/-- How much an entry matters. -/
inductive Level where
  | debug
  | info
  | warn
deriving DecidableEq, Repr

/-- The name of a level. -/
def Level.name : Level → String
  | debug => "DEBUG"
  | info => "INFO"
  | warn => "WARN"

/-- The value of a field. -/
inductive Field where
  | text (s : String)
  | number (n : Nat)
  /-- The number of an event. -/
  | event (id : Nat)
deriving DecidableEq, Repr

/-- A log entry. -/
structure Entry where
  level : Level
  message : String
  fields : List (String × Field)
deriving DecidableEq, Repr

/-- The text of a field, given the text that stands for an event. -/
def Field.render (ofEvent : Nat → String) : Field → String
  | text s => s
  | number n => toString n
  | event id => ofEvent id

end CitedAnswers.Log
