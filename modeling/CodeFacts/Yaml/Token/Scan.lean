import CodeFacts.Yaml.Token.Property
import CodeFacts.Yaml.Token.Scalar

/-!
# The tokens of a text

Tokens are read from left to right. Two things are known only later. That a node is a key shows at
the colon behind it, so the place of each possible key is kept, and the key token is put there when
the colon is met. That a block collection has ended shows at the indentation of what follows, so
the columns of the open collections are kept.

A key without a question mark has to stand on one line, and the colon within 1024 bytes.
-/

namespace CodeFacts.Yaml

/-- A node that is a key if a colon follows. -/
structure PossibleKey where
  /-- Whether it can be nothing else, for it stands at the column of an open block mapping. -/
  required : Bool
  /-- The number of tokens before it. -/
  position : Nat
  index : Nat
  line : Nat
  column : Nat
deriving DecidableEq, Repr, Inhabited

/-- How far the tokens of a text have been read. -/
structure Scan where
  reader : Reader
  tokens : Array Token
  /-- The column of the innermost block collection; `-1` if there is none. -/
  indent : Int
  /-- The columns of the block collections around it. -/
  outerIndents : List Int
  possibleKey : Option PossibleKey
  /-- The possible keys of the collections around, one for each open flow collection. -/
  outerKeys : List (Option PossibleKey)
  /-- Whether a key without a question mark may start here. -/
  keyAllowed : Bool
deriving Repr, Inhabited

namespace Scan

/-- The start of a text. -/
def start (reader : Reader) : Scan :=
  ⟨reader, #[], -1, [], none, [], true⟩

/-- Whether the place is within brackets or braces. -/
def inFlow (scan : Scan) : Bool :=
  !scan.outerKeys.isEmpty

/-- One more token. -/
def push (scan : Scan) (token : Token) : Scan :=
  { scan with tokens := scan.tokens.push token }

/-- One more token, and the reader behind it. -/
def pushAt (scan : Scan) (reader : Reader) (token : Token) : Scan :=
  { scan with reader := reader, tokens := scan.tokens.push token }

/-- Passes over white space, comments and line breaks. A tab is white space only where it cannot be
indentation. A byte-order mark may start any line; it takes up a column of it. -/
def skipToToken : Nat → Scan → Scan
  | 0, scan => scan
  | fuel + 1, scan =>
    let reader := if scan.reader.atByteOrderMark then scan.reader.skip else scan.reader
    let reader := reader.skipWhile fun char =>
      char == ' ' || ((scan.inFlow || !scan.keyAllowed) && char == '\t')
    let reader := if reader.isAt '#' then reader.skipWhile fun char => !isBreak char else reader
    if reader.atBreak then
      skipToToken fuel
        { scan with reader := reader.skipBreak, keyAllowed := scan.keyAllowed || !scan.inFlow }
    else { scan with reader := reader }

/-- Whether a possible key is too far behind to be one. -/
def isStale (reader : Reader) (key : PossibleKey) : Bool :=
  key.line < reader.line || key.index + 1024 < reader.index

/-- Gives up a possible key that is too far behind. -/
def dropIfStale (reader : Reader) (key? : Option PossibleKey) :
    Except Fault (Option PossibleKey) :=
  match key? with
  | none => .ok none
  | some key =>
    if isStale reader key then
      if key.required then .error reader.fault else .ok none
    else .ok (some key)

/-- Gives up the possible keys that are too far behind. -/
def dropStaleKeys (scan : Scan) : Except Fault Scan := do
  let possibleKey ← dropIfStale scan.reader scan.possibleKey
  let outerKeys ← scan.outerKeys.mapM (dropIfStale scan.reader)
  return { scan with possibleKey := possibleKey, outerKeys := outerKeys }

/-- Gives up the possible key. -/
def dropKey (scan : Scan) : Except Fault Scan :=
  if scan.possibleKey.any (·.required) then .error scan.reader.fault
  else .ok { scan with possibleKey := none }

/-- Notes that the next token may start a key, where that is allowed. -/
def noteKey (scan : Scan) : Except Fault Scan :=
  if scan.keyAllowed then do
    let reader := scan.reader
    let required := !scan.inFlow && scan.indent == reader.column
    let key := PossibleKey.mk required scan.tokens.size reader.index reader.line reader.column
    let scan ← scan.dropKey
    return { scan with possibleKey := some key }
  else .ok scan

/-- Closes the block collections that are indented deeper than a column. -/
def closeBlocks (column : Int) : List Int → Scan → Scan
  | [], scan => scan
  | outer :: rest, scan =>
    if scan.indent > column then
      closeBlocks column rest
        { scan with indent := outer, outerIndents := rest, tokens := scan.tokens.push .blockEnd }
    else scan

/-- Closes the block collections that end before a column; within brackets indentation does not
count. -/
def closeBlocksTo (scan : Scan) (column : Int) : Scan :=
  if scan.inFlow then scan else closeBlocks column scan.outerIndents scan

/-- Opens a block collection at a column, if that is deeper than the collections that are open. -/
def openBlock (scan : Scan) (column position : Nat) (token : Token) : Scan :=
  if !scan.inFlow && scan.indent < (column : Int) then
    { scan with
      indent := column
      outerIndents := scan.indent :: scan.outerIndents
      tokens := scan.tokens.insertIdxIfInBounds position token }
  else scan

/-- Opens a block collection here, where a block entry or key may stand. -/
def openBlockHere (scan : Scan) (token : Token) : Except Fault Scan :=
  if scan.inFlow then .ok scan
  else if scan.keyAllowed then
    .ok (scan.openBlock scan.reader.column scan.tokens.size token)
  else .error scan.reader.fault

/-- Reads the end of the text. -/
def readEnd (scan : Scan) : Except Fault Scan := do
  let scan ← (scan.closeBlocksTo (-1)).dropKey
  return scan.push .streamEnd

/-- Reads a directive. -/
def readDirectiveLine (scan : Scan) : Except Fault Scan := do
  let scan ← (scan.closeBlocksTo (-1)).dropKey
  let (reader, token) ← readDirective scan.reader.skip
  return { scan with keyAllowed := false }.pushAt reader token

/-- Reads the marker of a document boundary. -/
def readMarker (scan : Scan) (token : Token) : Except Fault Scan := do
  let scan ← (scan.closeBlocksTo (-1)).dropKey
  return { scan with keyAllowed := false }.pushAt (scan.reader.skipMany 3) token

/-- Reads an opening bracket or brace. -/
def readOpening (scan : Scan) (token : Token) : Except Fault Scan := do
  let scan ← scan.noteKey
  let scan := scan.pushAt scan.reader.skip token
  return { scan with
    possibleKey := none
    outerKeys := scan.possibleKey :: scan.outerKeys
    keyAllowed := true }

/-- Reads a closing bracket or brace. -/
def readClosing (scan : Scan) (token : Token) : Except Fault Scan := do
  let scan ← scan.dropKey
  let scan := { scan with keyAllowed := false }.pushAt scan.reader.skip token
  match scan.outerKeys with
  | [] => return scan
  | key :: rest => return { scan with possibleKey := key, outerKeys := rest }

/-- Reads a comma between the entries of a flow collection. -/
def readComma (scan : Scan) : Except Fault Scan := do
  let scan ← scan.dropKey
  return { scan with keyAllowed := true }.pushAt scan.reader.skip .flowEntry

/-- Reads the dash before an item of a block sequence. -/
def readDash (scan : Scan) : Except Fault Scan := do
  let scan ← scan.openBlockHere .blockSequenceStart
  let scan ← scan.dropKey
  return { scan with keyAllowed := true }.pushAt scan.reader.skip .blockEntry

/-- Reads the question mark before a key. -/
def readQuestionMark (scan : Scan) : Except Fault Scan := do
  let scan ← scan.openBlockHere .blockMappingStart
  let scan ← scan.dropKey
  return { scan with keyAllowed := !scan.inFlow }.pushAt scan.reader.skip .key

/-- Reads the colon before a value. The possible key before it becomes a key. -/
def readColon (scan : Scan) : Except Fault Scan :=
  match scan.possibleKey with
  | some key =>
    let scan := { scan with
      tokens := scan.tokens.insertIdxIfInBounds key.position .key
      possibleKey := none
      keyAllowed := false }
    let scan := scan.openBlock key.column key.position .blockMappingStart
    .ok (scan.pushAt scan.reader.skip .value)
  | none => do
    let scan ← scan.openBlockHere .blockMappingStart
    return { scan with keyAllowed := !scan.inFlow }.pushAt scan.reader.skip .value

/-- Reads an alias. -/
def readAlias (scan : Scan) : Except Fault Scan := do
  let scan ← scan.noteKey
  let (reader, name) ← readAnchorName scan.reader.skip
  return { scan with keyAllowed := false }.pushAt reader (.alias name)

/-- Reads an anchor. -/
def readAnchor (scan : Scan) : Except Fault Scan := do
  let scan ← scan.noteKey
  let (reader, name) ← readAnchorName scan.reader.skip
  return { scan with keyAllowed := false }.pushAt reader (.anchor name)

/-- Reads the tag of a node. -/
def readTagHere (scan : Scan) : Except Fault Scan := do
  let scan ← scan.noteKey
  let (reader, token) ← readTag scan.inFlow scan.reader
  return { scan with keyAllowed := false }.pushAt reader token

/-- Reads a block scalar. -/
def readBlock (bound : Nat) (scan : Scan) (folded : Bool) : Except Fault Scan := do
  let scan ← scan.dropKey
  let (reader, text) ← readBlockScalar bound folded scan.indent scan.reader.skip
  let style : ScalarStyle := if folded then .folded else .literal
  return { scan with keyAllowed := true }.pushAt reader (.scalar (String.ofList text) style)

/-- Reads a scalar in quotes. -/
def readQuotes (bound : Nat) (scan : Scan) (single : Bool) : Except Fault Scan := do
  let scan ← scan.noteKey
  let (reader, text) ← readQuoted single bound scan.reader.skip []
  return { scan with keyAllowed := false }.pushAt reader (.scalar (String.ofList text) .quoted)

/-- Reads a plain scalar. A key may start behind it if it ended with its line. -/
def readPlainHere (bound : Nat) (scan : Scan) : Except Fault Scan := do
  let scan ← scan.noteKey
  let (reader, text, broken) ←
    readPlain scan.inFlow (scan.indent + 1).toNat bound scan.reader Gap.none []
  return { scan with keyAllowed := broken }.pushAt reader (.scalar (String.ofList text) .plain)

/-- Whether a character has a meaning of its own at the start of a node. -/
def isIndicator (char : Char) : Bool :=
  ['-', '?', ':', ',', '[', ']', '\x7b', '\x7d', '#', '&', '*', '!', '|', '>', '\'', '"', '%', '@',
    '\x60'].contains char

/-- Whether a plain scalar may start here. -/
def startsPlain (scan : Scan) (char : Char) : Bool :=
  (!scan.reader.separatesAt 0 && !isIndicator char) ||
    (char == '-' && !scan.reader.skip.atSpacing) ||
    (!scan.inFlow && (char == '?' || char == ':') && !scan.reader.separatesAt 1)

/-- Reads the token that starts with a character. The bound is for the length of a scalar. -/
def readToken (bound : Nat) (scan : Scan) (char : Char) : Except Fault Scan :=
  let reader := scan.reader
  let separated := reader.separatesAt 1
  if reader.column == 0 && char == '%' then scan.readDirectiveLine
  else if reader.atMarker ['-', '-', '-'] then scan.readMarker .documentStart
  else if reader.atMarker ['.', '.', '.'] then scan.readMarker .documentEnd
  else if char == '[' then scan.readOpening .flowSequenceStart
  else if char == '\x7b' then scan.readOpening .flowMappingStart
  else if char == ']' then scan.readClosing .flowSequenceEnd
  else if char == '\x7d' then scan.readClosing .flowMappingEnd
  else if char == ',' then scan.readComma
  else if char == '-' && separated then scan.readDash
  else if char == '?' && (scan.inFlow || separated) then scan.readQuestionMark
  else if char == ':' && (scan.inFlow || separated) then scan.readColon
  else if char == '*' then scan.readAlias
  else if char == '&' then scan.readAnchor
  else if char == '!' then scan.readTagHere
  else if char == '|' && !scan.inFlow then scan.readBlock bound false
  else if char == '>' && !scan.inFlow then scan.readBlock bound true
  else if char == '\'' then scan.readQuotes bound true
  else if char == '"' then scan.readQuotes bound false
  else if scan.startsPlain char then scan.readPlainHere bound
  else .error reader.fault

/-- Reads all tokens. Every step but the last passes over a character, so the number of steps left
also bounds the text left. -/
def readAll : Nat → Scan → Except Fault Scan
  | 0, scan => .error scan.reader.fault
  | fuel + 1, scan => do
    let scan ← (skipToToken (fuel + 2) scan).dropStaleKeys
    let scan := scan.closeBlocksTo scan.reader.column
    match scan.reader.peek? with
    | none => scan.readEnd
    | some char => readAll fuel (← scan.readToken (fuel + 2) char)

end Scan

/-- The tokens of a text. -/
def tokens (text : String) : Except Fault (List Token) := do
  let reader := Reader.ofString text
  if !reader.rest.all isAllowed then throw reader.fault
  let scan ← Scan.readAll (reader.rest.length + 1) (Scan.start reader)
  return scan.tokens.toList

end CodeFacts.Yaml
