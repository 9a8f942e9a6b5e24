/-!
# Grammars of command lines

A command takes switches, which are named by `--name` or a single letter, and operands, which are
known by their order. A `Grammar` lists both. A `Stop` is the reason why reading arguments ends
before there is anything to run.
-/

namespace CodeFacts.CommandLine

/-- Why nothing is run. -/
inductive Stop where
  | help
  | version
  /-- There are no arguments at all. -/
  | noArguments
  | missingCommand
  | unknownCommand
  | missingOperand
  | unknownArgument
  /-- A value is missing, empty or not among the choices. -/
  | invalidValue
  | notNumber
  | repeatedSwitch
  /-- A switch that takes no value is given one. -/
  | surplusValue
deriving DecidableEq, Repr, Inhabited

/-- The exit code of a stop; asking for help or the version is no mistake. -/
def Stop.exitCode : Stop → Nat
  | help | version => 0
  | _ => 2

/-- The number that a text writes in decimal; a plus sign may stand before it, and it has to fit
into a machine word. -/
def number? (text : String) : Option Nat :=
  let chars := text.toList
  let digits := if chars.head? == some '+' then chars.drop 1 else chars
  if !digits.isEmpty && digits.all Char.isDigit then
    let number := digits.foldl (fun number digit => number * 10 + (digit.toNat - '0'.toNat)) 0
    if number < UInt64.size then some number else none
  else none

/-- What a value has to be. -/
inductive ValueKind where
  | text
  | path
  | number
  | choice (options : List String)
deriving DecidableEq, Repr, Inhabited

/-- Refuses a value that is not of a kind. -/
def ValueKind.check (kind : ValueKind) (value : String) : Except Stop Unit :=
  match kind with
  | text => .ok ()
  | path => if value.isEmpty then .error .invalidValue else .ok ()
  | number => if (number? value).isSome then .ok () else .error .notNumber
  | choice options => if options.contains value then .ok () else .error .invalidValue

/-- What a switch does. -/
inductive Effect where
  | flag
  | count
  | value (kind : ValueKind) (repeatable : Bool)
  | help
  | version
deriving DecidableEq, Repr, Inhabited

/-- A switch. -/
structure Switch where
  name : String
  letter : Option Char
  effect : Effect
deriving DecidableEq, Repr, Inhabited

/-- An operand. -/
structure Operand where
  name : String
  kind : ValueKind
  required : Bool
deriving DecidableEq, Repr, Inhabited

/-- The switches and operands of a command, and the commands below it. -/
structure Grammar where
  switches : List Switch
  operands : List Operand
  commands : List String
deriving DecidableEq, Repr, Inhabited

namespace Grammar

/-- The switch with a name. -/
def switchNamed? (grammar : Grammar) (name : String) : Option Switch :=
  grammar.switches.find? fun switch => switch.name == name

/-- The switch with a letter. -/
def switchLettered? (grammar : Grammar) (letter : Char) : Option Switch :=
  grammar.switches.find? fun switch => switch.letter == some letter

end Grammar

end CodeFacts.CommandLine
