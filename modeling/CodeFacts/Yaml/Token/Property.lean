import CodeFacts.Yaml.Reader
import CodeFacts.Yaml.Token
import CodeFacts.Yaml.Token.Scalar
import CodeFacts.Text.Utf8

/-!
# Directives, anchors and tags

The parts of a YAML text that say something about a node or a document, and are no content.
-/

namespace CodeFacts.Yaml

/-- Reads the name of an anchor or an alias, behind its `&` or `*`. -/
def readAnchorName (reader : Reader) : Except Fault (Reader × String) :=
  let name := reader.takeWhile isNameChar
  let after := reader.skipMany name.length
  let closed := after.separatesAt 0 || after.peek?.any fun char =>
    ['?', ':', ',', ']', '\x7d', '%', '@', '\x60'].contains char
  if name.isEmpty || !closed then .error after.fault else .ok (after, String.ofList name)

/-- Reads a tag handle: an exclamation mark, or a name between two. The second mark may be missing,
and then what was read is the start of a suffix. -/
def readTagHandle (reader : Reader) : Except Fault (Reader × List Char) :=
  if reader.isAt '!' then
    let name := reader.skip.takeWhile isNameChar
    let after := reader.skip.skipMany name.length
    if after.isAt '!' then .ok (after.skip, '!' :: name ++ ['!']) else .ok (after, '!' :: name)
  else .error reader.fault

/-- Characters besides those of names that may stand in any tag. -/
def tagMarks : List Char :=
  [';', '/', '?', ':', '@', '&', '=', '+', '$', '.', '!', '~', '*', '\'', '(', ')']

/-- Whether a character may stand in a tag as it is. Commas and brackets may do so only where the
end of the tag is marked. -/
def isTagChar (delimited : Bool) (char : Char) : Bool :=
  isNameChar char || tagMarks.contains char || (delimited && [',', '[', ']'].contains char)

/-- The number of bytes of a character whose first byte is given. -/
def encodedLength? (first : Nat) : Option Nat :=
  if first < 0x80 then some 1
  else if 0xc0 ≤ first ∧ first < 0xe0 then some 2
  else if 0xe0 ≤ first ∧ first < 0xf0 then some 3
  else if 0xf0 ≤ first ∧ first < 0xf8 then some 4
  else none

/-- Reads a number of bytes written as a percent sign and two hexadecimal digits. -/
def readEscapedBytes : Nat → Reader → Except Fault (Reader × List UInt8)
  | 0, reader => .ok (reader, [])
  | count + 1, reader =>
    match reader.rest with
    | '%' :: high :: low :: _ =>
      match hexNumber? [high, low] with
      | some byte => do
        let (after, bytes) ← readEscapedBytes count (reader.skipMany 3)
        return (after, byte.toUInt8 :: bytes)
      | none => .error reader.fault
    | _ => .error reader.fault

/-- Reads a character of a tag that is written by its bytes. -/
def readEscapedChar (reader : Reader) : Except Fault (Reader × List UInt8) := do
  let (_, first) ← readEscapedBytes 1 reader
  match first.head?.bind fun byte => encodedLength? byte.toNat with
  | none => .error reader.fault
  | some length =>
    let (after, bytes) ← readEscapedBytes length reader
    if (bytes.drop 1).all fun byte => byte.toNat / 64 == 2 then .ok (after, bytes)
    else .error reader.fault

/-- Reads the characters of a tag behind those already read. -/
def readTagChars (delimited : Bool) :
    Nat → Reader → List Char → Except Fault (Reader × List Char)
  | 0, reader, text => .ok (reader, text)
  | fuel + 1, reader, text =>
    match reader.peek? with
    | none => .ok (reader, text)
    | some char =>
      if char == '%' then do
        let (after, bytes) ← readEscapedChar reader
        readTagChars delimited fuel after (text ++ Text.decodeLossy bytes)
      else if isTagChar delimited char then
        readTagChars delimited fuel reader.skip (text ++ [char])
      else .ok (reader, text)

/-- Reads a tag behind the part that was read along with its handle; some character has to be
there. The tag ends before the first null character, which can only be there as an escape. -/
def readTagText (delimited : Bool) (handle : List Char) (reader : Reader) :
    Except Fault (Reader × List Char) := do
  let (after, text) ← readTagChars delimited (reader.rest.length + 1) reader (handle.drop 1)
  if handle.isEmpty && text.isEmpty then throw after.fault
  return (after, text.takeWhile (· != '\x00'))

/-- Reads a tag: verbatim between angle brackets, with a named handle, or with the handle `!`. -/
def readTag (inFlow : Bool) (reader : Reader) : Except Fault (Reader × Token) := do
  let (after, handle, suffix) ←
    if reader.peekAt? 1 == some '<' then do
      let (after, text) ← readTagText true [] (reader.skipMany 2)
      if after.isAt '>' then pure (after.skip, [], text) else throw after.fault
    else do
      let (after, handle) ← readTagHandle reader
      if handle.length > 1 && handle.getLast? == some '!' then do
        let (after, text) ← readTagText false [] after
        pure (after, handle, text)
      else do
        let (after, text) ← readTagText false handle after
        if text.isEmpty then pure (after, [], ['!']) else pure (after, ['!'], text)
  if after.separatesAt 0 || (inFlow && after.isAt ',') then
    return (after, .tag (String.ofList handle) (String.ofList suffix))
  else throw after.fault

/-- Reads a number of a version, of nine digits at most. -/
def readVersionNumber (reader : Reader) : Except Fault (Reader × Nat) :=
  let digits := reader.takeWhile Char.isDigit
  if digits.isEmpty || digits.length > 9 then .error reader.fault
  else .ok (reader.skipMany digits.length,
    digits.foldl (fun number digit => number * 10 + (digit.toNat - '0'.toNat)) 0)

/-- Reads the version of a version directive. -/
def readVersion (reader : Reader) : Except Fault (Reader × Token) := do
  let (reader, major) ← readVersionNumber reader
  if !reader.isAt '.' then throw reader.fault
  let (reader, minor) ← readVersionNumber reader.skip
  return (reader, .versionDirective major minor)

/-- Reads the handle of a tag directive and what it stands for. -/
def readTagDirective (reader : Reader) : Except Fault (Reader × Token) := do
  let (reader, handle) ← readTagHandle reader
  if handle.length > 1 && handle.getLast? != some '!' then throw reader.fault
  if !reader.atSpacing then throw reader.fault
  let (reader, expansion) ← readTagText true [] (reader.skipWhile isSpacing)
  if !reader.separatesAt 0 then throw reader.fault
  return (reader, .tagDirective (String.ofList handle) (String.ofList expansion))

/-- Passes over white space and a comment up to the end of the line, and over the line break. -/
def readLineEnd (reader : Reader) : Except Fault Reader :=
  let reader := reader.skipWhile isSpacing
  let reader := if reader.isAt '#' then reader.skipWhile fun char => !isBreak char else reader
  if reader.atLineEnd then .ok reader.skipBreak else .error reader.fault

/-- Reads a directive behind its percent sign; there are two kinds. -/
def readDirective (reader : Reader) : Except Fault (Reader × Token) := do
  let name := reader.takeWhile isNameChar
  let after := reader.skipMany name.length
  if !after.separatesAt 0 then throw after.fault
  let value := after.skipWhile isSpacing
  let (after, token) ←
    match String.ofList name with
    | "YAML" => readVersion value
    | "TAG" => readTagDirective value
    | _ => throw reader.fault
  return (← readLineEnd after, token)

end CodeFacts.Yaml
