import CodeFacts.Yaml.Reader
import CodeFacts.Yaml.Token

/-!
# Scalars of YAML

Plain, quoted and block scalars. Line breaks within plain and quoted scalars are folded: one break
is a space, and of several all but the first remain. Block scalars keep their breaks (`|`) or fold
those between lines that start with no blank (`>`).

Every loop is bounded by the length of the rest of the text, and the loops within it by the same
bound. Texts are gathered in reverse.
-/

namespace CodeFacts.Yaml

/-- White space and line breaks between two words of a scalar. -/
structure Gap where
  /-- Spaces and tabs in reverse, if there is no line break. -/
  spacing : List Char
  /-- The first line break. -/
  firstBreak : List Char
  /-- The line breaks after the first, in reverse. -/
  moreBreaks : List Char
  /-- Whether a line break was passed. -/
  broken : Bool
deriving DecidableEq, Repr, Inhabited

namespace Gap

/-- No white space at all. -/
def none : Gap :=
  ⟨[], [], [], false⟩

/-- What a gap stands for between two words, in reverse. -/
def fold (gap : Gap) : List Char :=
  if gap.broken then
    if gap.firstBreak == ['\n'] then
      if gap.moreBreaks.isEmpty then [' '] else gap.moreBreaks
    else gap.moreBreaks ++ gap.firstBreak
  else gap.spacing

/-- The gap with one more line break. -/
def addBreak (gap : Gap) (text : List Char) : Gap :=
  if gap.broken then { gap with moreBreaks := text ++ gap.moreBreaks }
  else { gap with spacing := [], firstBreak := text, broken := true }

/-- The gap with one more space or tab; those at the start of a line do not count. -/
def addSpacing (gap : Gap) (char : Char) : Gap :=
  if gap.broken then gap else { gap with spacing := char :: gap.spacing }

end Gap

/-- Passes over white space and line breaks. Where `minColumn` is given, a tab before that column
of a new line is refused. -/
def readGap (minColumn : Option Nat) : Nat → Reader → Gap → Except Fault (Reader × Gap)
  | 0, reader, gap => .ok (reader, gap)
  | fuel + 1, reader, gap =>
    match reader.peek? with
    | none => .ok (reader, gap)
    | some char =>
      if isSpacing char then
        if char == '\t' && gap.broken && (minColumn.any fun column => reader.column < column) then
          .error reader.fault
        else
          readGap minColumn fuel reader.skip (gap.addSpacing char)
      else if isBreak char then
        readGap minColumn fuel reader.skipBreak (gap.addBreak reader.breakText)
      else
        .ok (reader, gap)

/-- Whether a character is an indicator of flow collections. -/
def isFlowIndicator (char : Char) : Bool :=
  char == ',' || char == '[' || char == ']' || char == '\x7b' || char == '\x7d'

/-- Reads a word of a plain scalar; the answer is in reverse. -/
def readPlainWord (inFlow : Bool) : Nat → Reader → List Char → Except Fault (Reader × List Char)
  | 0, reader, word => .ok (reader, word)
  | fuel + 1, reader, word =>
    match reader.rest with
    | [] => .ok (reader, word)
    | char :: rest =>
      if reader.separatesAt 0 then .ok (reader, word)
      else if inFlow && char == ':' &&
          (rest.head?.any fun next => isFlowIndicator next || next == '?') then
        .error reader.fault
      else if char == ':' && reader.separatesAt 1 then .ok (reader, word)
      else if inFlow && isFlowIndicator char then .ok (reader, word)
      else readPlainWord inFlow fuel reader.skip (char :: word)

/-- Reads the words of a plain scalar behind those that were read. The answer also tells whether a
line break was passed after the last word. -/
def readPlain (inFlow : Bool) (minColumn : Nat) :
    Nat → Reader → Gap → List Char → Except Fault (Reader × List Char × Bool)
  | 0, reader, gap, text => .ok (reader, text.reverse, gap.broken)
  | fuel + 1, reader, gap, text =>
    if reader.atBoundary || reader.isAt '#' then .ok (reader, text.reverse, gap.broken)
    else do
      let (reader, word) ← readPlainWord inFlow (fuel + 1) reader []
      let (text, gap) :=
        if word.isEmpty then (text, gap) else (word ++ (gap.fold ++ text), Gap.none)
      if reader.atSpacing || reader.atBreak then
        let (reader, gap) ← readGap (some minColumn) (fuel + 1) reader gap
        if !inFlow && reader.column < minColumn then .ok (reader, text.reverse, gap.broken)
        else readPlain inFlow minColumn fuel reader gap text
      else .ok (reader, text.reverse, gap.broken)

/-- The value of a hexadecimal digit. -/
def hexDigit? (char : Char) : Option Nat :=
  if '0' ≤ char ∧ char ≤ '9' then some (char.toNat - '0'.toNat)
  else if 'a' ≤ char ∧ char ≤ 'f' then some (char.toNat - 'a'.toNat + 10)
  else if 'A' ≤ char ∧ char ≤ 'F' then some (char.toNat - 'A'.toNat + 10)
  else none

/-- The number that hexadecimal digits write. -/
def hexNumber? (digits : List Char) : Option Nat :=
  digits.foldl (fun number? char => do
    let number ← number?
    let digit ← hexDigit? char
    return number * 16 + digit) (some 0)

/-- The character that an escape of one character stands for. -/
def simpleEscape? (char : Char) : Option Char :=
  match char with
  | '0' => some (Char.ofNat 0)
  | 'a' => some (Char.ofNat 7)
  | 'b' => some (Char.ofNat 8)
  | 't' => some '\t'
  | '\t' => some '\t'
  | 'n' => some '\n'
  | 'v' => some (Char.ofNat 11)
  | 'f' => some (Char.ofNat 12)
  | 'r' => some '\r'
  | 'e' => some (Char.ofNat 27)
  | ' ' => some ' '
  | '"' => some '"'
  | '/' => some '/'
  | '\\' => some '\\'
  | 'N' => some (Char.ofNat 0x85)
  | '_' => some (Char.ofNat 0xa0)
  | 'L' => some (Char.ofNat 0x2028)
  | 'P' => some (Char.ofNat 0x2029)
  | _ => none

/-- The number of digits of an escape by code point. -/
def escapeLength? (char : Char) : Option Nat :=
  match char with
  | 'x' => some 2
  | 'u' => some 4
  | 'U' => some 8
  | _ => none

/-- Reads the escape that follows a backslash. -/
def readEscape (reader : Reader) : Except Fault (Reader × Char) :=
  match reader.peek? with
  | none => .error reader.fault
  | some mark =>
    match simpleEscape? mark with
    | some char => .ok (reader.skip, char)
    | none =>
      match escapeLength? mark with
      | none => .error reader.fault
      | some length =>
        let digits := (reader.rest.drop 1).take length
        match hexNumber? digits with
        | none => .error reader.fault
        | some code =>
          if digits.length == length && code.isValidChar then
            .ok (reader.skipMany (length + 1), Char.ofNat code)
          else .error reader.fault

/-- Reads a word of a quoted scalar; the answer is in reverse. It also tells whether the word ended
in an escaped line break. -/
def readQuotedWord (single : Bool) :
    Nat → Reader → List Char → Except Fault (Reader × List Char × Bool)
  | 0, reader, word => .ok (reader, word, false)
  | fuel + 1, reader, word =>
    if reader.separatesAt 0 then .ok (reader, word, false)
    else
      match reader.rest with
      | [] => .ok (reader, word, false)
      | char :: _ =>
        if single then
          if char == '\'' then
            if reader.peekAt? 1 == some '\'' then
              readQuotedWord single fuel (reader.skipMany 2) ('\'' :: word)
            else .ok (reader, word, false)
          else readQuotedWord single fuel reader.skip (char :: word)
        else if char == '"' then .ok (reader, word, false)
        else if char == '\\' then
          if reader.skip.atBreak then .ok (reader.skip.skipBreak, word, true)
          else do
            let (reader, escaped) ← readEscape reader.skip
            readQuotedWord single fuel reader (escaped :: word)
        else readQuotedWord single fuel reader.skip (char :: word)

/-- Reads a quoted scalar up to the closing quote, behind what was read. -/
def readQuoted (single : Bool) : Nat → Reader → List Char → Except Fault (Reader × List Char)
  | 0, reader, _ => .error reader.fault
  | fuel + 1, reader, text =>
    if reader.atBoundary || reader.atEnd then .error reader.fault
    else do
      let (reader, word, escapedBreak) ← readQuotedWord single (fuel + 1) reader []
      if reader.isAt (if single then '\'' else '"') then
        .ok (reader.skip, (word ++ text).reverse)
      else
        let start := if escapedBreak then { Gap.none with broken := true } else Gap.none
        let (reader, gap) ← readGap none (fuel + 1) reader start
        readQuoted single fuel reader (gap.fold ++ (word ++ text))

/-- What becomes of the line breaks at the end of a block scalar. -/
inductive Chomping where
  | strip
  | clip
  | keep
deriving DecidableEq, Repr, Inhabited

/-- The chomping that an indicator asks for. -/
def chomping? (char : Char) : Option Chomping :=
  if char == '+' then some .keep else if char == '-' then some .strip else none

/-- Reads an indentation indicator; zero is refused. -/
def readIncrement (reader : Reader) : Except Fault (Reader × Nat) :=
  match reader.peek? with
  | none => .ok (reader, 0)
  | some char =>
    if char.isDigit then
      if char == '0' then .error reader.fault else .ok (reader.skip, char.toNat - '0'.toNat)
    else .ok (reader, 0)

/-- Reads the chomping and indentation indicators of a block scalar, in either order. -/
def readBlockHeader (reader : Reader) : Except Fault (Reader × Chomping × Nat) :=
  match reader.peek?.bind chomping? with
  | some chomping => do
    let (reader, increment) ← readIncrement reader.skip
    return (reader, chomping, increment)
  | none => do
    let (reader, increment) ← readIncrement reader
    if increment == 0 then return (reader, .clip, 0)
    else
      match reader.peek?.bind chomping? with
      | some chomping => return (reader.skip, chomping, increment)
      | none => return (reader, .clip, increment)

/-- Passes over empty lines and the indentation of the next line that is not empty; the breaks are
gathered in reverse. With an indentation of zero, all spaces are passed, and the answer holds the
deepest column reached. -/
def readBlockBreaks (indent : Nat) :
    Nat → Reader → List Char → Nat → Except Fault (Reader × List Char × Nat)
  | 0, reader, breaks, deepest => .ok (reader, breaks, deepest)
  | fuel + 1, reader, breaks, deepest =>
    let spaces := (reader.takeWhile (· == ' ')).length
    let reader := reader.skipMany
      (if indent == 0 then spaces else min spaces (indent - reader.column))
    let deepest := max deepest reader.column
    if (indent == 0 || reader.column < indent) && reader.isAt '\t' then .error reader.fault
    else if reader.atBreak then
      readBlockBreaks indent fuel reader.skipBreak (reader.breakText ++ breaks) deepest
    else .ok (reader, breaks, deepest)

/-- What has been read of a block scalar, in reverse. -/
structure BlockText where
  text : List Char
  /-- The break at the end of the last line. -/
  lastBreak : List Char
  /-- The breaks of the empty lines after it. -/
  moreBreaks : List Char
  /-- Whether the last line started with a blank. -/
  blankStart : Bool
deriving DecidableEq, Repr, Inhabited

/-- Reads the lines of a block scalar. -/
def readBlockLines (folded : Bool) (indent : Nat) :
    Nat → Reader → BlockText → Except Fault (Reader × BlockText)
  | 0, reader, block => .ok (reader, block)
  | fuel + 1, reader, block =>
    if reader.column == indent && !reader.atEnd then do
      let blankStart := reader.atSpacing
      let joint :=
        if folded && block.lastBreak == ['\n'] && !block.blankStart && !blankStart then
          if block.moreBreaks.isEmpty then [' '] else []
        else block.lastBreak
      let line := reader.takeWhile fun char => !isBreak char
      let reader := reader.skipMany line.length
      let lastBreak := reader.breakText
      let (reader, moreBreaks, _) ←
        readBlockBreaks indent (fuel + 1) reader.skipBreak [] 0
      let text := line.reverse ++ (block.moreBreaks ++ (joint ++ block.text))
      readBlockLines folded indent fuel reader ⟨text, lastBreak, moreBreaks, blankStart⟩
    else .ok (reader, block)

/-- Reads a block scalar behind its `|` or `>`. The indentation of the parent is `-1` at the top
level; the bound is for the lines that may follow. -/
def readBlockScalar (bound : Nat) (folded : Bool) (parentIndent : Int) (reader : Reader) :
    Except Fault (Reader × List Char) := do
  let (reader, chomping, increment) ← readBlockHeader reader
  let reader := reader.skipWhile isSpacing
  let reader := if reader.isAt '#' then reader.skipWhile fun char => !isBreak char else reader
  if !reader.atLineEnd then
    throw reader.fault
  let reader := reader.skipBreak
  let parent := (parentIndent + 1).toNat
  let given := if increment == 0 then 0 else (max parentIndent 0).toNat + increment
  let (reader, breaks, deepest) ← readBlockBreaks given bound reader [] 0
  let indent := if given == 0 then max (max deepest parent) 1 else given
  let (reader, block) ←
    readBlockLines folded indent bound reader ⟨[], [], breaks, false⟩
  let kept := match chomping with
    | .strip => []
    | .clip => block.lastBreak
    | .keep => block.moreBreaks ++ block.lastBreak
  return (reader, (kept ++ block.text).reverse)

end CodeFacts.Yaml
