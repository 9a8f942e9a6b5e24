import CodeFacts.Yaml.Node

/-!
# Reading values out of a document

What the nodes of a document mean where a mapping, a list, a number or a flag is wanted. A node
that is left out is an empty mapping and an empty list; the word `null` is neither.
-/

namespace CodeFacts.Yaml

/-- The digit that a character is in a base. -/
def digit? (base : Nat) (char : Char) : Option Nat :=
  (hexDigit? char).filter (· < base)

/-- The number that digits write in a base; there has to be a digit. -/
def digits? (base : Nat) : List Char → Option Nat
  | [] => none
  | digits => digits.foldl (fun number? char => do
      let number ← number?
      let digit ← digit? base char
      return number * base + digit) (some 0)

/-- The natural number that a text writes: in decimal without leading zeros, or in another base
behind a mark. One plus sign may stand before it. -/
def natural? (text : String) : Option Nat :=
  let chars := text.toList
  let unsigned := if chars.head? == some '+' then chars.drop 1 else chars
  match unsigned with
  | '0' :: 'x' :: digits => digits? 16 digits
  | '0' :: 'o' :: digits => digits? 8 digits
  | '0' :: 'b' :: digits => digits? 2 digits
  | '0' :: _ :: _ => none
  | digits => digits? 10 digits

/-- The truth value that a word writes. -/
def flag? (text : String) : Option Bool :=
  if ["true", "True", "TRUE"].contains text then some true
  else if ["false", "False", "FALSE"].contains text then some false
  else none

namespace Document

/-- The text of a scalar that may be a number or a flag: a plain one, or a literal block with the
tag of the type that is wanted. -/
def typedText? (document : Document) (tag : String) (node : Node) : Option String :=
  match document.resolve node with
  | .scalar _ _ text .plain => some text
  | .scalar _ (some given) text .literal => if given == tag then some text else none
  | _ => none

/-- Reads a number of a machine word. -/
def readNumber (document : Document) (node : Node) : Except Fault UInt64 :=
  match (document.typedText? "tag:yaml.org,2002:int" node).bind natural? with
  | some number =>
    if number < UInt64.size then .ok (UInt64.ofNat number) else .error (.unexpected "a number")
  | none => .error (.unexpected "a number")

/-- Reads a flag. -/
def readFlag (document : Document) (node : Node) : Except Fault Bool :=
  match (document.typedText? "tag:yaml.org,2002:bool" node).bind flag? with
  | some flag => .ok flag
  | none => .error (.unexpected "a boolean")

/-- Reads a text, which any scalar is. -/
def readText (document : Document) (node : Node) : Except Fault String :=
  match document.resolve node with
  | .scalar _ _ text _ => .ok text
  | _ => .error (.unexpected "a string")

/-- Reads a list of texts. -/
def readTexts (document : Document) (node : Node) : Except Fault (List String) :=
  match document.resolve node with
  | .sequence _ items => items.mapM document.readText
  | .scalar _ _ "" .plain => .ok []
  | _ => .error (.unexpected "a sequence")

/-- Reads a mapping whose keys are texts. -/
def readEntries (document : Document) (node : Node) : Except Fault (List (String × Node)) :=
  match document.resolve node with
  | .mapping _ entries => entries.mapM fun (key, value) => do
    return (← document.readText key, value)
  | .scalar _ _ "" .plain => .ok []
  | _ => .error (.unexpected "a mapping")

end Document

/-- Reads the value of a key, which may be missing but not repeated. -/
def readField {α : Type} (entries : List (String × Node)) (key : String) (fallback : α)
    (read : Node → Except Fault α) : Except Fault α :=
  match entries.filter (·.1 == key) with
  | [] => .ok fallback
  | [(_, value)] => read value
  | _ => .error (.repeatedKey key)

end CodeFacts.Yaml
