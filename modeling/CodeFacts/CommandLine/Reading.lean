import CodeFacts.CommandLine.Grammar

/-!
# Reading arguments

Arguments are read from left to right. The value of a switch or operand is not checked when it is
met but when the next switch or operand is, or at the end; a word that nothing accounts for is
reported first. A value cannot start with a dash, unless it is attached to its switch or follows
`--`.
-/

namespace CodeFacts.CommandLine

/-- A switch or operand whose value is not checked yet, or not even met. -/
structure Unsettled where
  name : String
  kind : ValueKind
  repeatable : Bool
  value : Option String
deriving DecidableEq, Repr, Inhabited

/-- How far the arguments of a command have been read. -/
structure Reading where
  /-- The names of switches and operands with their values, in order. -/
  given : List (String × String) := []
  unsettled : Option Unsettled := none
  /-- Whether the next word is the value of a switch. -/
  awaiting : Bool := false
  operandCount : Nat := 0
  /-- Whether only operands may follow. -/
  operandsOnly : Bool := false
deriving DecidableEq, Repr, Inhabited

namespace Reading

/-- Whether a name has been given. -/
def isGiven (reading : Reading) (name : String) : Bool :=
  reading.given.any (·.1 == name)

/-- The values given for a name, in order. -/
def values (reading : Reading) (name : String) : List String :=
  (reading.given.filter (·.1 == name)).map Prod.snd

/-- Adds a name with its value. -/
def add (reading : Reading) (name value : String) : Reading :=
  { reading with given := reading.given ++ [(name, value)] }

/-- Takes a value for a name: it has to be there, to be the first unless several are allowed, and
to be of its kind. -/
def take (reading : Reading) (entry : Unsettled) : Except Stop Reading :=
  match entry.value with
  | none => .error .invalidValue
  | some value =>
    if !entry.repeatable && reading.isGiven entry.name then .error .repeatedSwitch
    else do
      entry.kind.check value
      return reading.add entry.name value

/-- Checks what is not checked yet. -/
def settle (reading : Reading) : Except Stop Reading :=
  match reading.unsettled with
  | none => .ok reading
  | some entry => { reading with unsettled := none }.take entry

/-- Meets a switch, perhaps with a value attached. -/
def meetSwitch (reading : Reading) (switch : Switch) (attached : Option String) :
    Except Stop Reading := do
  let reading := { ← reading.settle with awaiting := false }
  match switch.effect with
  | .help => throw .help
  | .version => throw .version
  | .count => return reading.add switch.name ""
  | .flag =>
    if reading.isGiven switch.name then throw .repeatedSwitch
    else return reading.add switch.name ""
  | .value kind repeatable =>
    let entry : Unsettled := ⟨switch.name, kind, repeatable, attached⟩
    if attached.isSome then reading.take entry
    else return { reading with unsettled := some entry, awaiting := true }

/-- Whether a switch takes a value. -/
def takesValue (switch : Switch) : Bool :=
  match switch.effect with
  | .value _ _ => true
  | _ => false

/-- Reads `--name` or `--name=value`, behind the dashes. -/
def readNamed (grammar : Grammar) (reading : Reading) (chars : List Char) :
    Except Stop Reading :=
  let name := chars.takeWhile (· != '=')
  let attached := match chars.dropWhile (· != '=') with
    | [] => none
    | _ :: value => some (String.ofList value)
  match grammar.switchNamed? (String.ofList name) with
  | none => .error .unknownArgument
  | some switch =>
    if attached.isSome && !takesValue switch then .error .surplusValue
    else reading.meetSwitch switch attached

/-- Reads letters of switches, behind the dash. What follows a letter that takes a value is its
value; an equals sign between them is left out. -/
def readLetters (grammar : Grammar) : Reading → List Char → Except Stop Reading
  | reading, [] => .ok reading
  | reading, letter :: rest =>
    match grammar.switchLettered? letter with
    | none => .error .unknownArgument
    | some switch =>
      if takesValue switch then
        let attached := match rest with
          | [] => none
          | '=' :: value => some (String.ofList value)
          | value => some (String.ofList value)
        reading.meetSwitch switch attached
      else do
        readLetters grammar (← reading.meetSwitch switch none) rest

/-- Reads an operand. A word for which there is none should be a command, where there are
commands; a command behind `--` is not recognised as one. -/
def readOperand (grammar : Grammar) (reading : Reading) (word : String) : Except Stop Reading :=
  match grammar.operands[reading.operandCount]? with
  | some operand => do
    let reading ← reading.settle
    return { reading with
      unsettled := some ⟨operand.name, operand.kind, false, some word⟩
      awaiting := false
      operandCount := reading.operandCount + 1 }
  | none =>
    if grammar.commands.isEmpty || (reading.operandsOnly && grammar.commands.contains word) then
      .error .unknownArgument
    else .error .unknownCommand

/-- Reads a word. -/
def readWord (grammar : Grammar) (reading : Reading) (word : String) : Except Stop Reading :=
  if reading.operandsOnly then reading.readOperand grammar word
  else
    match word.toList with
    | ['-', '-'] => .ok { reading with operandsOnly := true }
    | '-' :: '-' :: chars => reading.readNamed grammar chars
    | '-' :: letter :: letters => readLetters grammar reading (letter :: letters)
    | _ =>
      match reading.awaiting, reading.unsettled with
      | true, some entry =>
        .ok { reading with unsettled := some { entry with value := some word }, awaiting := false }
      | _, _ => reading.readOperand grammar word

/-- Whether a word is the name of a command where it stands. -/
def isCommand (grammar : Grammar) (reading : Reading) (word : String) : Bool :=
  !reading.operandsOnly && !reading.awaiting && grammar.commands.contains word

/-- Reads words up to the name of a command, which is given back with the words behind it. -/
def readWords (grammar : Grammar) :
    Reading → List String → Except Stop (Reading × Option (String × List String))
  | reading, [] => .ok (reading, none)
  | reading, word :: words =>
    if reading.isCommand grammar word then .ok (reading, some (word, words))
    else do readWords grammar (← reading.readWord grammar word) words

/-- Ends the reading: the last value is checked, and every operand that is required has to be
there. -/
def finish (grammar : Grammar) (reading : Reading) : Except Stop Reading := do
  let reading ← reading.settle
  if grammar.operands.any fun operand => operand.required && !reading.isGiven operand.name then
    throw .missingOperand
  return reading

end Reading

end CodeFacts.CommandLine
