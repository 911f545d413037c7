import CitedAnswers.Numeric.Reading
import CitedAnswers.Scanner

/-!
# Literals of TOML text

Scanners for blanks and comments, strings, numbers, and dates and times. A scanner takes the longest
literal it can; what may stand after a literal is for the grammar around it to say.
-/

namespace CitedAnswers.Toml

open Scanner

/-! ### Blanks, line ends and comments -/

/-- The blanks within a line. -/
def isBlank (c : Char) : Bool := c == ' ' || c == '\t'

/-- The characters that may stand unescaped: a tab and all but the control characters. -/
def isPlain (c : Char) : Bool := c == '\t' || (0x20 ≤ c.toNat && c.toNat != 0x7f)

/-- Blanks within a line. -/
def blanks : Scanner Unit := skip isBlank

/-- A line end, with or without a carriage return. -/
def lineEnd : Scanner Unit :=
  char '\n' <|> do
    char '\r'
    char '\n'

/-- A comment, up to its line end. -/
def comment : Scanner Unit := do
  char '#'
  skip isPlain

/-- Blanks, line ends and comments. -/
def gap : Scanner Unit := do
  let _ ← many ((do let _ ← spanSome isBlank) <|> lineEnd <|> comment)

/-! ### Strings -/

/-- The value of a hexadecimal digit. -/
def hexValue (c : Char) : Nat :=
  if c.isDigit then c.toNat - '0'.toNat else c.toLower.toNat - 'a'.toNat + 10

/-- A hexadecimal digit. -/
def isHexDigit (c : Char) : Bool :=
  c.isDigit || ('a'.toNat ≤ c.toLower.toNat && c.toLower.toNat ≤ 'f'.toNat)

/-- The number of some digits. -/
def ofDigits (base : Nat) (ds : List Char) : Nat := ds.foldl (fun n c ↦ n * base + hexValue c) 0

/-- A character given by its code point in hexadecimal digits. -/
def codePoint (digits : Nat) : Scanner Char := do
  let n := ofDigits 16 (← times isHexDigit digits)
  require (decide n.isValidChar)
  pure (Char.ofNat n)

/-- An escape, after its backslash. -/
def escape : Scanner Char := do
  match ← charOf fun _ ↦ true with
  | 'b' => pure '\x08'
  | 't' => pure '\t'
  | 'n' => pure '\n'
  | 'f' => pure '\x0c'
  | 'r' => pure '\r'
  | '"' => pure '"'
  | '\\' => pure '\\'
  | 'u' => codePoint 4
  | 'U' => codePoint 8
  | _ => fun _ ↦ none

/-- A backslash and its escape. -/
def escaped : Scanner Char := do
  char '\\'
  escape

/-- A string of one line in double quotes. -/
def quoted : Scanner (List Char) := do
  char '"'
  let cs ← many (charOf (fun c ↦ isPlain c && c != '"' && c != '\\') <|> escaped)
  char '"'
  pure cs

/-- A string of one line in single quotes, which takes every character as it stands. -/
def literal : Scanner (List Char) := do
  char '\''
  let cs ← span fun c ↦ isPlain c && c != '\''
  char '\''
  pure cs

/-- One or two quotes within a string whose end is three of them. -/
def innerQuotes (quote : Char) : Scanner (List Char) := do
  let qs ← spanSome (· == quote)
  require (decide (qs.length < 3))
  pure qs

/-- The end of a string of several lines: three quotes, with up to two that still belong to it. -/
def closingQuotes (quote : Char) : Scanner (List Char) := fun cs ↦
  let n := min 5 (cs.takeWhile (· == quote)).length
  if 3 ≤ n then some (List.replicate (n - 3) quote, cs.drop n) else none

/-- A line end within a string, which is a line feed. -/
def innerLineEnd : Scanner (List Char) := do
  lineEnd
  pure ['\n']

/-- A backslash at the end of a line takes all blanks and line ends after it. -/
def continuation : Scanner (List Char) := do
  char '\\'
  blanks
  lineEnd
  let _ ← many ((do let _ ← spanSome isBlank) <|> lineEnd)
  pure []

/-- A string of several lines, of the given parts. A line end at its very start is left out. -/
def multiline (quote : Char) (part : Scanner (List Char)) : Scanner (List Char) := do
  word [quote, quote, quote]
  let _ ← option lineEnd
  let parts ← many (innerQuotes quote <|> innerLineEnd <|> part)
  let last ← closingQuotes quote
  pure (parts.flatten ++ last)

/-- A string of several lines in double quotes. -/
def quotedLines : Scanner (List Char) :=
  multiline '"' (continuation <|> spanSome (fun c ↦ isPlain c && c != '"' && c != '\\') <|> do
    let c ← escaped
    pure [c])

/-- A string of several lines in single quotes. -/
def literalLines : Scanner (List Char) :=
  multiline '\'' (spanSome fun c ↦ isPlain c && c != '\'')

/-- A string. -/
def string : Scanner String := do
  let cs ← quotedLines <|> quoted <|> literalLines <|> literal
  pure (String.ofList cs)

/-! ### Numbers -/

/-- Whether underscores stand between digits only; `afterDigit` says what stands before. -/
def isGrouped (afterDigit : Bool) : List Char → Bool
  | [] => afterDigit
  | c :: cs => if c = '_' then afterDigit && isGrouped false cs else isGrouped true cs

/-- Digits of a kind with single underscores between them, which are left out. -/
def digits (p : Char → Bool) : Scanner (List Char) := do
  let run ← span fun c ↦ p c || c == '_'
  require (isGrouped false run)
  pure (run.filter (· != '_'))

/-- A sign, if there is one; `true` for a minus. -/
def sign : Scanner Bool := fun cs ↦ some (takeSign cs)

/-- The digits of a decimal integer, without leading zeros. -/
def wholeDigits : Scanner (List Char) := do
  let ds ← digits Char.isDigit
  require (ds.length == 1 || ds.head? != some '0')
  pure ds

/-- An integer with the given letter after a zero as the mark of its base. -/
def basedInteger (mark : Char) (base : Nat) (p : Char → Bool) : Scanner Int := do
  char '0'
  char mark
  let n := ofDigits base (← digits p)
  require (decide (n < Size.half))
  pure n

/-- A decimal integer. -/
def decimalInteger : Scanner Int := do
  let negative ← sign
  let n := ofDigits 10 (← wholeDigits)
  require (if negative then decide (n ≤ Size.half) else decide (n < Size.half))
  pure (if negative then -(n : Int) else n)

/-- An integer of 64 bits. -/
def integer : Scanner Int :=
  basedInteger 'x' 16 isHexDigit <|>
    basedInteger 'o' 8 (fun c ↦ c.isDigit && c != '8' && c != '9') <|>
    basedInteger 'b' 2 (fun c ↦ c == '0' || c == '1') <|>
    decimalInteger

/-- The fraction of a number. -/
def fraction : Scanner (List Char) := do
  char '.'
  digits Char.isDigit

/-- The exponent of a number. -/
def exponent : Scanner Int := do
  let _ ← charOf fun c ↦ c == 'e' || c == 'E'
  let negative ← sign
  let n := ofDigits 10 (← digits Char.isDigit)
  pure (if negative then -(n : Int) else n)

/-- A number with a fraction or an exponent. One too large for 64 bits is refused, unless it is
negative. -/
def decimalFloat : Scanner Binary := do
  let negative ← sign
  let whole ← wholeDigits
  let part ← option fraction
  let power ← option exponent
  require (part.isSome || power.isSome)
  let x := Binary.Format.double.ofDecimal negative
    (.ofParts whole (part.getD []) (power.getD 0))
  require (x != .infinite false)
  pure x

/-- An infinity, or what is no number. -/
def specialFloat : Scanner Binary := do
  let negative ← sign
  (do word ['i', 'n', 'f']; pure (.infinite negative)) <|>
    (do word ['n', 'a', 'n']; pure .nan)

/-- A floating-point number. -/
def float : Scanner Binary := decimalFloat <|> specialFloat

/-- A truth value. -/
def bool : Scanner Bool :=
  (do word ['t', 'r', 'u', 'e']; pure true) <|> (do word ['f', 'a', 'l', 's', 'e']; pure false)

/-! ### Dates and times

They are kept as text in one form: `T` between date and time, `Z` for no offset, a fraction of a
second without zeros at its end. -/

/-- Two digits of a number between two bounds. -/
def twoDigits (low high : Nat) : Scanner (List Char) := do
  let ds ← times Char.isDigit 2
  require (decide (low ≤ ofDigits 10 ds ∧ ofDigits 10 ds ≤ high))
  pure ds

/-- The number of days of a month. -/
def daysOfMonth (year month : Nat) : Nat :=
  if month = 2 then if year % 4 = 0 ∧ (year % 100 ≠ 0 ∨ year % 400 = 0) then 29 else 28
  else if month = 4 ∨ month = 6 ∨ month = 9 ∨ month = 11 then 30
  else 31

/-- A date. -/
def date : Scanner (List Char) := do
  let year ← times Char.isDigit 4
  char '-'
  let month ← twoDigits 1 12
  char '-'
  let day ← twoDigits 1 (daysOfMonth (ofDigits 10 year) (ofDigits 10 month))
  pure (year ++ '-' :: month ++ '-' :: day)

/-- The fraction of a second, to nine digits. -/
def secondFraction : Scanner (List Char) := do
  char '.'
  let ds ← spanSome Char.isDigit
  let ds := ((ds.take 9).reverse.dropWhile (· == '0')).reverse
  pure (if ds.isEmpty then [] else '.' :: ds)

/-- A time. -/
def time : Scanner (List Char) := do
  let hour ← twoDigits 0 23
  char ':'
  let minute ← twoDigits 0 59
  char ':'
  let second ← twoDigits 0 60
  let part ← option secondFraction
  pure (hour ++ ':' :: minute ++ ':' :: second ++ part.getD [])

/-- An offset from universal time. -/
def offset : Scanner (List Char) :=
  (do
    let _ ← charOf fun c ↦ c == 'Z' || c == 'z'
    pure ['Z']) <|> do
    let mark ← charOf fun c ↦ c == '+' || c == '-'
    let hour ← twoDigits 0 23
    char ':'
    let minute ← twoDigits 0 59
    let mark := if ofDigits 10 (hour ++ minute) = 0 then '+' else mark
    pure (mark :: hour ++ ':' :: minute)

/-- What follows the date in a date with a time. -/
def timeOfDate : Scanner (List Char) := do
  let _ ← charOf fun c ↦ c == 'T' || c == 't' || c == ' '
  let t ← time
  let shift ← option offset
  pure ('T' :: t ++ shift.getD [])

/-- A date, a time, or both. -/
def moment : Scanner String := do
  let cs ← (do
    let d ← date
    let t ← option timeOfDate
    pure (d ++ t.getD [])) <|> time
  pure (String.ofList cs)

end CitedAnswers.Toml
