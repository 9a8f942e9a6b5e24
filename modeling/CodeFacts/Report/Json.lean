/-!
# JSON text

Values and how they are written: two spaces of indentation, one item or field on a line, fields in
the order in which they are given. Only quotes, backslashes and control characters are escaped.
-/

namespace CodeFacts.Report

/-- A value to be written. All numbers in reports are natural. -/
inductive Json where
  | null
  | bool (value : Bool)
  | number (value : Nat)
  | text (value : String)
  | list (items : List Json)
  | record (fields : List (String × Json))
deriving Repr, Inhabited

namespace Json

/-- The digit of a value below sixteen. -/
def hexDigit (value : Nat) : Char :=
  if value < 10 then Char.ofNat ('0'.toNat + value) else Char.ofNat ('a'.toNat + value - 10)

/-- A character as it is written within quotes. -/
def escapeChar (char : Char) : List Char :=
  match char with
  | '"' => ['\\', '"']
  | '\\' => ['\\', '\\']
  | '\n' => ['\\', 'n']
  | '\r' => ['\\', 'r']
  | '\t' => ['\\', 't']
  | _ =>
    if char.toNat == 8 then ['\\', 'b']
    else if char.toNat == 12 then ['\\', 'f']
    else if char.toNat < 32 then
      ['\\', 'u', '0', '0', hexDigit (char.toNat / 16), hexDigit (char.toNat % 16)]
    else [char]

/-- A text in quotes. -/
def quote (text : String) : String :=
  String.ofList ('"' :: text.toList.flatMap escapeChar ++ ['"'])

/-- The start of a line at a depth. -/
def indentation (depth : Nat) : String :=
  String.ofList (List.replicate (2 * depth) ' ')

/-- Lines between two brackets, each but the last with a comma behind it. -/
def enclose (left right : String) (depth : Nat) (lines : List String) : String :=
  if lines.isEmpty then left ++ right
  else
    left ++ "\n" ++ ",\n".intercalate (lines.map (indentation (depth + 1) ++ ·)) ++ "\n" ++
      indentation depth ++ right

mutual

/-- A value as it is written at a depth. -/
def renderAt (depth : Nat) : Json → String
  | null => "null"
  | bool true => "true"
  | bool false => "false"
  | number value => toString value
  | text value => quote value
  | list items => enclose "[" "]" depth (renderItems (depth + 1) items)
  | record fields => enclose "\x7b" "\x7d" depth (renderFields (depth + 1) fields)

/-- The items of a list. -/
def renderItems (depth : Nat) : List Json → List String
  | [] => []
  | item :: items => renderAt depth item :: renderItems depth items

/-- The fields of a record. -/
def renderFields (depth : Nat) : List (String × Json) → List String
  | [] => []
  | (key, value) :: fields =>
    (quote key ++ ": " ++ renderAt depth value) :: renderFields depth fields

end

/-- A value as it is written. -/
def render (value : Json) : String :=
  renderAt 0 value

/-- A list of texts. -/
def texts (values : List String) : Json :=
  list (values.map text)

/-- A field that is left out if there is no value. -/
def optionalField (key : String) (value : Option Json) : List (String × Json) :=
  (value.map fun present => (key, present)).toList

end Json

end CodeFacts.Report
