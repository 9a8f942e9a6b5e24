import CodeFacts.Glob.Pattern

/-!
# Byte expressions

What a pattern means is an expression over bytes: single bytes, classes, runs, and groups of
branches. A branch of braces with nothing in it is left out, and so are braces without a branch
that is left.

An expression has a text in the common notation, and a depth. The depth counts what stands around
the innermost part: sequences and choices of more than one part, groups, repetitions and classes.
A pattern whose expression is too deep is well formed, but cannot be compiled.
-/

namespace CodeFacts.Glob

/-- A part of an expression over bytes. -/
inductive Expression where
  | byte (value : UInt8)
  | anyByte
  /-- Any run of bytes, also across slashes. -/
  | anyRun
  /-- A given byte or nothing. -/
  | optional (value : UInt8)
  /-- One byte in one of the ranges, or in none of them if negated. -/
  | oneOf (negated : Bool) (ranges : List (UInt8 × UInt8))
  /-- One of several sequences. -/
  | group (branches : List (List Expression))
deriving Repr, Inhabited

/-- The bytes of a character. -/
def charBytes (char : Char) : List UInt8 :=
  char.toString.toUTF8.toList

/-- The byte ranges of a range of characters. Ends beyond ASCII contribute their bytes one by one:
the range runs from the last byte of the lower end to the first byte of the upper end. -/
def byteRanges (range : Char × Char) : List (UInt8 × UInt8) :=
  let low := charBytes range.1
  let high := charBytes range.2
  let single (value : UInt8) := (value, value)
  if range.1 = range.2 then low.map single
  else
    match low.getLast?, high with
    | some last, first :: rest => low.dropLast.map single ++ (last, first) :: rest.map single
    | _, _ => []

/-- The byte of a slash. -/
def slashByte : UInt8 :=
  47

mutual

/-- The sequence that a part of a pattern stands for. -/
def Token.expressions : Token → List Expression
  | .literal char => (charBytes char).map .byte
  | .any => [.anyByte]
  | .zeroOrMore => [.anyRun]
  | .leadingDirectories => [.group [[.optional slashByte], [.anyRun, .byte slashByte]]]
  | .trailingDirectories => [.byte slashByte, .anyRun]
  | .innerDirectories =>
    [.group [[.byte slashByte], [.byte slashByte, .anyRun, .byte slashByte]]]
  | .charClass negated ranges => [.oneOf negated (ranges.flatMap byteRanges)]
  | .alternates branches =>
    match branchExpressions branches with
    | [] => []
    | filled => [.group filled]

/-- The sequence that the parts of a pattern stand for. -/
def tokenExpressions : List Token → List Expression
  | [] => []
  | token :: rest => token.expressions ++ tokenExpressions rest

/-- The sequences of the branches that are not empty. -/
def branchExpressions : List (List Token) → List (List Expression)
  | [] => []
  | branch :: rest =>
    match tokenExpressions branch with
    | [] => branchExpressions rest
    | sequence => sequence :: branchExpressions rest

end

/-- The expression of a pattern. A pattern that is only `**` matches everything. -/
def expressionsOf (tokens : List Token) : List Expression :=
  match tokens with
  | [.leadingDirectories] => [.anyRun]
  | _ => tokenExpressions tokens

/-- One level if something has more than one part. -/
def levelIfMany (parts : Nat) : Nat :=
  if 1 < parts then 1 else 0

mutual

/-- How deep a part of an expression is nested. -/
def Expression.depth : Expression → Nat
  | .byte _ => 0
  | .anyByte => 0
  | .anyRun => 1
  | .optional _ => 1
  | .oneOf _ ranges => 1 + levelIfMany ranges.length
  | .group branches => 1 + levelIfMany branches.length + branchesDepth branches

/-- How deep the deepest part of a sequence is nested. -/
def partsDepth : List Expression → Nat
  | [] => 0
  | part :: rest => max part.depth (partsDepth rest)

/-- How deep the deepest of several sequences is nested. -/
def branchesDepth : List (List Expression) → Nat
  | [] => 0
  | branch :: rest => max (levelIfMany branch.length + partsDepth branch) (branchesDepth rest)

end

/-- The depth of the expression of a whole pattern, which is a sequence with its two ends. -/
def patternDepth (expressions : List Expression) : Nat :=
  1 + partsDepth expressions

/-- The depth up to which an expression can be compiled. -/
def depthLimit : Nat :=
  250

/-- The characters that have a meaning of their own in the text of an expression. -/
def metaCharacters : List Char :=
  ['\\', '.', '+', '*', '?', '(', ')', '|', '[', ']', '\x7b', '\x7d', '^', '$', '#', '&', '-', '~']

/-- The text of one byte. -/
def byteText (value : UInt8) : String :=
  if value < 128 then
    let char := Char.ofNat value.toNat
    if metaCharacters.contains char then "\\" ++ char.toString else char.toString
  else "\\x" ++ String.ofList (Nat.toDigits 16 value.toNat)

/-- The text of a range of bytes. -/
def rangeText (range : UInt8 × UInt8) : String :=
  if range.1 = range.2 then byteText range.1 else byteText range.1 ++ "-" ++ byteText range.2

mutual

/-- The text of a part of an expression. -/
def Expression.text : Expression → String
  | .byte value => byteText value
  | .anyByte => "."
  | .anyRun => ".*"
  | .optional value => byteText value ++ "?"
  | .oneOf negated ranges =>
    "[" ++ (if negated then "^" else "") ++ String.join (ranges.map rangeText) ++ "]"
  | .group branches => "(?:" ++ "|".intercalate (branchTexts branches) ++ ")"

/-- The text of a sequence. -/
def sequenceText : List Expression → String
  | [] => ""
  | part :: rest => part.text ++ sequenceText rest

/-- The texts of several sequences. -/
def branchTexts : List (List Expression) → List String
  | [] => []
  | branch :: rest => sequenceText branch :: branchTexts rest

end

/-- The text of the expression of a whole pattern. -/
def patternText (expressions : List Expression) : String :=
  "(?-u)^" ++ sequenceText expressions ++ "$"

/-- Which pattern of a list is nested too deep. -/
inductive NestingFault where
  /-- One that is compiled by itself, with the text of its expression. -/
  | alone (expression : String)
  /-- The one at a position among those that are compiled together. -/
  | among (position : Nat)
deriving DecidableEq, Repr, Inhabited

/-- The fault in words. -/
def NestingFault.message : NestingFault → String
  | alone expression => "error parsing glob '" ++ expression ++ "': error parsing pattern 0"
  | among position => s!"error parsing pattern {position}"

end CodeFacts.Glob
