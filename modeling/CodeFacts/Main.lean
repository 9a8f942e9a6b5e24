import CodeFacts.CommandLine.Run
import CodeFacts.Snapshot

/-!
# The program

Reads the arguments, and a snapshot of the project from the standard input; prints what the run
leaves behind.
-/

namespace CodeFacts

/-- What is printed if nothing is run. -/
def CommandLine.Stop.message : CommandLine.Stop → String
  | help => "usage: codelens [OPTIONS] (circular | dead-code | symbols | calls) ARGUMENTS"
  | version => "codelens " ++ Report.version
  | noArguments => "error: arguments are missing"
  | missingCommand => "error: a command is missing"
  | unknownCommand => "error: unknown command"
  | missingOperand => "error: an argument is missing"
  | unknownArgument => "error: unexpected argument"
  | invalidValue => "error: a value is missing or invalid"
  | notNumber => "error: a value is not a number"
  | repeatedSwitch => "error: an option is given more than once"
  | surplusValue => "error: an option takes no value"

/-- Reads the lines of a stream to its end. -/
partial def readLines (stream : IO.FS.Stream) (lines : List String) : IO (List String) := do
  let line ← stream.getLine
  if line.isEmpty then
    return lines.reverse
  let chars := line.toList
  let text := if chars.getLast? == some '\n' then chars.dropLast else chars
  readLines stream (String.ofList text :: lines)

end CodeFacts

open CodeFacts in
/-- Runs the program. -/
def main (arguments : List String) : IO UInt32 := do
  match CommandLine.Invocation.ofArguments arguments with
  | .error stop =>
    if stop.exitCode == 0 then
      IO.println stop.message
    else
      IO.eprintln stop.message
    return stop.exitCode.toUInt32
  | .ok invocation =>
    let files := Snapshot.ofLines (← readLines (← IO.getStdin) [])
    let terminal : Report.Terminal := ⟨← (← IO.getStdout).isTty⟩
    match invocation.run files terminal with
    | .error .overflow =>
      IO.eprintln "attempt to add with overflow"
      return 101
    | .ok outcome =>
      IO.print outcome.output
      IO.eprint outcome.errors
      return outcome.exitCode.toUInt32
