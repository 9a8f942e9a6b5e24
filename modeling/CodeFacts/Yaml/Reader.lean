/-!
# Reading YAML text

A `Reader` is the rest of a text with the place that it has reached. Besides the newline and the
carriage return there are three more line breaks; a pair of carriage return and newline is one.
-/

namespace CodeFacts.Yaml

/-- Why a text is no document, or not the document that was wanted. -/
inductive Fault where
  /-- The text is not well formed; the line is counted from zero. -/
  | malformed (line : Nat)
  | severalDocuments
  | unknownAnchor (name : String)
  | unexpected (expected : String)
  | unknownKey (key : String)
  | repeatedKey (key : String)
deriving DecidableEq, Repr, Inhabited

/-- The cause in words. -/
def Fault.message : Fault → String
  | malformed line => s!"malformed document at line {line + 1}"
  | severalDocuments => "more than one document"
  | unknownAnchor name => "unknown anchor " ++ name
  | unexpected expected => "invalid type, expected " ++ expected
  | unknownKey key => "unknown field " ++ key
  | repeatedKey key => "duplicate field " ++ key

/-- The rest of a text and the place that has been reached in it. -/
structure Reader where
  rest : List Char
  /-- The number of bytes before the place. -/
  index : Nat
  line : Nat
  /-- The number of characters of the line before the place. -/
  column : Nat
deriving DecidableEq, Repr, Inhabited

/-- Whether a character is a space or a tab. -/
def isSpacing (char : Char) : Bool :=
  char == ' ' || char == '\t'

/-- Whether a character breaks a line. -/
def isBreak (char : Char) : Bool :=
  char == '\n' || char == '\r' || char.toNat == 0x85 || char.toNat == 0x2028 ||
    char.toNat == 0x2029

/-- Whether a character is the byte-order mark. -/
def isByteOrderMark (char : Char) : Bool :=
  char.toNat == 0xfeff

/-- Whether a character may stand in a document. -/
def isAllowed (char : Char) : Bool :=
  let code := char.toNat
  code == 0x9 || code == 0xa || code == 0xd || (decide (0x20 ≤ code) && decide (code ≤ 0x7e)) ||
    code == 0x85 || (decide (0xa0 ≤ code) && decide (code ≤ 0xfffd)) || decide (0x10000 ≤ code)

/-- Whether a character may stand in the name of an anchor or of a tag handle. -/
def isNameChar (char : Char) : Bool :=
  char.isAlphanum || char == '_' || char == '-'

namespace Reader

/-- The reader at the start of a text. -/
def ofString (text : String) : Reader :=
  ⟨text.toList, 0, 0, 0⟩

/-- The next character. -/
def peek? (reader : Reader) : Option Char :=
  reader.rest.head?

/-- A character further on. -/
def peekAt? (reader : Reader) (offset : Nat) : Option Char :=
  reader.rest[offset]?

/-- Whether a given character comes next. -/
def isAt (reader : Reader) (char : Char) : Bool :=
  reader.peek? == some char

/-- Whether the text is at its end. -/
def atEnd (reader : Reader) : Bool :=
  reader.rest.isEmpty

/-- Whether a space or tab comes next. -/
def atSpacing (reader : Reader) : Bool :=
  reader.peek?.any isSpacing

/-- Whether a line break comes next. -/
def atBreak (reader : Reader) : Bool :=
  reader.peek?.any isBreak

/-- Whether there is a space, a tab, a line break or the end of the text at an offset. -/
def separatesAt (reader : Reader) (offset : Nat) : Bool :=
  match reader.peekAt? offset with
  | none => true
  | some char => isSpacing char || isBreak char

/-- Whether a byte-order mark starts the line here. -/
def atByteOrderMark (reader : Reader) : Bool :=
  reader.column == 0 && reader.peek?.any isByteOrderMark

/-- Whether a line break or the end of the text comes next. -/
def atLineEnd (reader : Reader) : Bool :=
  reader.atEnd || reader.atBreak

/-- The reader behind the next character of a line. -/
def skip (reader : Reader) : Reader :=
  match reader.rest with
  | [] => reader
  | char :: rest => ⟨rest, reader.index + char.utf8Size, reader.line, reader.column + 1⟩

/-- The reader behind a number of characters of a line. -/
def skipMany (reader : Reader) (count : Nat) : Reader :=
  let bytes := (reader.rest.take count).foldl (fun size char => size + char.utf8Size) 0
  ⟨reader.rest.drop count, reader.index + bytes, reader.line, reader.column + count⟩

/-- The reader behind a line break. -/
def skipBreak (reader : Reader) : Reader :=
  match reader.rest with
  | '\r' :: '\n' :: rest => ⟨rest, reader.index + 2, reader.line + 1, 0⟩
  | char :: rest =>
    if isBreak char then ⟨rest, reader.index + char.utf8Size, reader.line + 1, 0⟩ else reader
  | [] => reader

/-- What a line break stands for in a scalar: a newline, unless it is a Unicode separator. -/
def breakText (reader : Reader) : List Char :=
  match reader.rest with
  | char :: _ =>
    if char.toNat == 0x2028 || char.toNat == 0x2029 then [char]
    else if isBreak char then ['\n']
    else []
  | [] => []

/-- The reader behind the characters of the line that satisfy a test. -/
def skipWhile (reader : Reader) (test : Char → Bool) : Reader :=
  reader.skipMany (reader.rest.takeWhile test).length

/-- The characters that come next and satisfy a test. -/
def takeWhile (reader : Reader) (test : Char → Bool) : List Char :=
  reader.rest.takeWhile test

/-- Whether a marker of a document boundary stands here at the start of a line. -/
def atMarker (reader : Reader) (marker : List Char) : Bool :=
  reader.column == 0 && marker.isPrefixOf reader.rest && reader.separatesAt 3

/-- Whether a document starts or ends here. -/
def atBoundary (reader : Reader) : Bool :=
  reader.atMarker ['-', '-', '-'] || reader.atMarker ['.', '.', '.']

/-- That the text is not well formed here. -/
def fault (reader : Reader) : Fault :=
  .malformed reader.line

end Reader

end CodeFacts.Yaml
