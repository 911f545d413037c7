import CitedAnswers.Command.Basic
import CitedAnswers.Token.Standard

/-!
# The program

Runs the command with the files, the environment and the arguments of the process. Settings files
are in TOML or JSON.
-/

namespace CitedAnswers.Main

/-- The text of a file. -/
def readFile (path : String) : IO (Option String) := do
  try
    pure (some (← IO.FS.readFile path))
  catch _ => pure none

/-- The environment of the process, from the list that the operating system keeps of it. -/
def environment : IO Environment := do
  let text := (← readFile "/proc/self/environ").getD ""
  pure ((text.splitOn "\x00").filterMap fun line ↦
    match (Command.Argument.cutAtEquals line.toList) with
    | (name, some value) => some (String.ofList name, String.ofList value)
    | (_, none) => none)

end CitedAnswers.Main

/-- Runs the command and exits with its status. -/
def main (args : List String) : IO UInt32 := do
  let outcome ← CitedAnswers.Command.run .standard [.toml, .json] CitedAnswers.Main.readFile
    (← CitedAnswers.Main.environment) args
  (← IO.getStdout).putStr outcome.output
  if let some message := outcome.error then
    (← IO.getStderr).putStrLn ("Error: " ++ message)
  if outcome.status = 2 then
    (← IO.getStderr).putStr CitedAnswers.Command.usage
  pure (UInt32.ofNat outcome.status)
