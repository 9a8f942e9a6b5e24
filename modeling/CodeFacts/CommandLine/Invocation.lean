import CodeFacts.Calls.Lookup
import CodeFacts.CommandLine.Reading
import CodeFacts.Path.Basic

/-!
# Invocations

What a user asks for, read from the arguments. Switches about the format, the configuration and
logging may stand before the command or after it; those after it win.
-/

namespace CodeFacts.CommandLine

/-- The form of the output. -/
inductive Format where
  | pretty
  | json
deriving DecidableEq, Repr, Inhabited

namespace Format

/-- The name of a format. -/
def id : Format → String
  | pretty => "pretty"
  | json => "json"

/-- The format with a name. -/
def ofId? (text : String) : Option Format :=
  [pretty, json].find? fun format => format.id == text

end Format

/-- A check for import cycles. -/
structure CyclesRequest where
  target : Path
  maxLength : Option UInt64
  maxCycles : Option UInt64
  exclude : List String
deriving DecidableEq, Repr, Inhabited

/-- A check for unused symbols. -/
structure UnusedRequest where
  target : Path
  exclude : List String
  noParameters : Bool
  noLocals : Bool
  noFields : Bool
deriving DecidableEq, Repr, Inhabited

/-- A list of the symbols of a file. -/
structure SymbolsRequest where
  file : Path
  root : Option Path
deriving DecidableEq, Repr, Inhabited

/-- A question about calls. -/
structure CallsRequest where
  file : Path
  position : Calls.Position
  root : Option Path
  direction : Calls.Direction
  preload : Bool
deriving DecidableEq, Repr, Inhabited

/-- What is to be done. -/
inductive Request where
  | cycles (request : CyclesRequest)
  | unused (request : UnusedRequest)
  | symbols (request : SymbolsRequest)
  | calls (request : CallsRequest)
deriving DecidableEq, Repr, Inhabited

/-- What is to be done, and how it is shown. -/
structure Invocation where
  request : Request
  format : Format
  config : Option Path
  verbosity : Nat
  jsonLogs : Bool
deriving DecidableEq, Repr, Inhabited

/-- The level of logging for a verbosity. -/
def logLevel (verbosity : Nat) : String :=
  match verbosity with
  | 0 => "warn"
  | 1 => "info"
  | 2 => "debug"
  | _ => "trace"

/-- The switches that every command has. -/
def sharedSwitches : List Switch :=
  [⟨"format", some 'f', .value (.choice [Format.pretty.id, Format.json.id]) false⟩,
    ⟨"config", some 'c', .value .path false⟩, ⟨"verbose", some 'v', .count⟩,
    ⟨"json-logs", none, .flag⟩, ⟨"help", some 'h', .help⟩]

/-- The switch for patterns to leave out. -/
def excludeSwitch : Switch :=
  ⟨"exclude", some 'e', .value .text true⟩

/-- The switch for the root of a project. -/
def rootSwitch : Switch :=
  ⟨"root", none, .value .path false⟩

/-- The switch for what is asked about a position. -/
def directionSwitch : Switch :=
  ⟨"direction", some 'd', .value (.choice (Calls.Direction.all.map Calls.Direction.id)) false⟩

/-- The commands. -/
inductive Command where
  | circular
  | deadCode
  | symbols
  | calls
deriving DecidableEq, Repr, Inhabited

namespace Command

/-- The command with a name; there are two names for the first. -/
def ofName? : String → Option Command
  | "circular" | "cycles" => some circular
  | "dead-code" => some deadCode
  | "symbols" => some symbols
  | "calls" => some calls
  | _ => none

/-- The grammar of a command. -/
def grammar : Command → Grammar
  | circular =>
    { switches := sharedSwitches ++ [excludeSwitch,
        ⟨"max-cycle-length", none, .value .number false⟩,
        ⟨"max-cycles", none, .value .number false⟩]
      operands := [⟨"path", .path, true⟩]
      commands := [] }
  | deadCode =>
    { switches := sharedSwitches ++ [excludeSwitch, ⟨"no-parameters", none, .flag⟩,
        ⟨"no-locals", none, .flag⟩, ⟨"no-fields", none, .flag⟩]
      operands := [⟨"path", .path, true⟩]
      commands := [] }
  | symbols =>
    { switches := sharedSwitches ++ [rootSwitch]
      operands := [⟨"file", .path, true⟩]
      commands := [] }
  | calls =>
    { switches := sharedSwitches ++ [rootSwitch, directionSwitch, ⟨"preload", none, .flag⟩]
      operands := [⟨"file", .path, true⟩, ⟨"line", .number, true⟩, ⟨"column", .number, false⟩]
      commands := [] }

end Command

/-- The names of commands, the one for help among them. -/
def commandNames : List String :=
  ["circular", "cycles", "dead-code", "symbols", "calls", "help"]

/-- The grammar before the command. -/
def mainGrammar : Grammar where
  switches := sharedSwitches ++ [⟨"version", some 'V', .version⟩]
  operands := []
  commands := commandNames

namespace Reading

/-- The first value given for a name. -/
def value? (reading : Reading) (name : String) : Option String :=
  (reading.values name).head?

/-- The path given for a name. -/
def path? (reading : Reading) (name : String) : Option Path :=
  (reading.value? name).map Path.mk

/-- The number given for a name. -/
def numberFor? (reading : Reading) (name : String) : Option Nat :=
  (reading.value? name).bind number?

/-- What a command with its arguments asks for. -/
def request (reading : Reading) : Command → Request
  | .circular => .cycles
    { target := (reading.path? "path").getD default
      maxLength := (reading.numberFor? "max-cycle-length").map UInt64.ofNat
      maxCycles := (reading.numberFor? "max-cycles").map UInt64.ofNat
      exclude := reading.values "exclude" }
  | .deadCode => .unused
    { target := (reading.path? "path").getD default
      exclude := reading.values "exclude"
      noParameters := reading.isGiven "no-parameters"
      noLocals := reading.isGiven "no-locals"
      noFields := reading.isGiven "no-fields" }
  | .symbols => .symbols
    { file := (reading.path? "file").getD default
      root := reading.path? "root" }
  | .calls => .calls
    { file := (reading.path? "file").getD default
      position := ⟨(reading.numberFor? "line").getD 1, (reading.numberFor? "column").getD 1⟩
      root := reading.path? "root"
      direction := ((reading.value? "direction").bind Calls.Direction.ofId?).getD .incoming
      preload := reading.isGiven "preload" }

end Reading

/-- How the command for help ends: it takes the name of one command at most. -/
def helpStop : List String → Stop
  | [] => .help
  | [name] => if commandNames.contains name then .help else .unknownCommand
  | _ => .unknownCommand

namespace Invocation

/-- The invocation of a command, from what was read before it and after it. -/
def ofReadings (command : Command) (before after : Reading) : Invocation where
  request := after.request command
  format := (((after.value? "format").or (before.value? "format")).bind Format.ofId?).getD .pretty
  config := (after.path? "config").or (before.path? "config")
  verbosity :=
    let count := (after.values "verbose").length
    if count == 0 then (before.values "verbose").length else count
  jsonLogs := after.isGiven "json-logs" || before.isGiven "json-logs"

/-- Reads the arguments of the program. The arguments of a command are read to their end before
what stands before the command is settled. -/
def ofArguments (arguments : List String) : Except Stop Invocation := do
  let (before, command?) ← Reading.readWords mainGrammar {} arguments
  match command? with
  | none =>
    let before ← before.settle
    throw (if before.given.isEmpty then .noArguments else .missingCommand)
  | some (name, rest) =>
    match Command.ofName? name with
    | none => throw (helpStop rest)
    | some command =>
      let (after, _) ← Reading.readWords command.grammar {} rest
      let after ← after.finish command.grammar
      let before ← before.settle
      return ofReadings command before after

end Invocation

end CodeFacts.CommandLine
