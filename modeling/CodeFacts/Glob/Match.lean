import CodeFacts.Glob.Criterion
import CodeFacts.Glob.Expression

/-!
# Matching paths

The expression of a pattern is matched against the bytes of the whole path. What has been matched
so far may end at several places of the path, so a set of places is moved on from part to part: each
part turns the places where it may start into the places where it may end. The path matches if its
end is among the last places. The work grows with the length of the pattern times the length of the
path, for alternatives are followed side by side and their places joined.

A pattern that goes by the name of the file matches no path that ends in `..`.
-/

namespace CodeFacts.Glob

/-- A set of places in a text: a mark for the place before each byte, and one for the end. -/
abbrev Places := List Bool

namespace Places

/-- The start of a text. -/
def start (bytes : List UInt8) : Places :=
  true :: bytes.map fun _ => false

/-- The places of either set. -/
def union (first second : Places) : Places :=
  List.zipWith (· || ·) first second

/-- The places behind one byte that passes a test. -/
def afterByte (bytes : List UInt8) (test : UInt8 → Bool) (places : Places) : Places :=
  false :: List.zipWith (fun place byte => place && test byte) places bytes

/-- The places behind any run of bytes, also across slashes. -/
def afterRun : Places → Places
  | [] => []
  | true :: rest => true :: rest.map fun _ => true
  | false :: rest => false :: afterRun rest

/-- Whether the end of the text is among the places. -/
def hasEnd (places : Places) : Bool :=
  places.getLastD false

end Places

/-- Whether a byte is in a class: in one of its ranges, or in none of them if it is negated. -/
def classHas (negated : Bool) (ranges : List (UInt8 × UInt8)) (value : UInt8) : Bool :=
  (ranges.any fun range => decide (range.1 ≤ value) && decide (value ≤ range.2)) != negated

mutual

/-- The places behind a part of an expression. -/
def Expression.advance (bytes : List UInt8) : Expression → Places → Places
  | .byte value, places => places.afterByte bytes (· == value)
  | .anyByte, places => places.afterByte bytes fun _ => true
  | .anyRun, places => places.afterRun
  | .optional value, places => places.union (places.afterByte bytes (· == value))
  | .oneOf negated ranges, places => places.afterByte bytes (classHas negated ranges)
  | .group branches, places => advanceBranches bytes branches places

/-- The places behind a sequence. -/
def advanceSequence (bytes : List UInt8) : List Expression → Places → Places
  | [], places => places
  | part :: rest, places => advanceSequence bytes rest (part.advance bytes places)

/-- The places behind any of several branches. -/
def advanceBranches (bytes : List UInt8) : List (List Expression) → Places → Places
  | [], places => places.map fun _ => false
  | branch :: rest, places =>
    (advanceSequence bytes branch places).union (advanceBranches bytes rest places)

end

/-- Whether a sequence matches a text from its start to its end. -/
def sequenceMatches (expressions : List Expression) (bytes : List UInt8) : Bool :=
  (advanceSequence bytes expressions (Places.start bytes)).hasEnd

/-- Whether a path ends in `..`, so that it names no file. -/
def endsInParent (bytes : List UInt8) : Bool :=
  bytes.reverse.takeWhile (· != slashByte) == [46, 46]

/-- A compiled pattern. -/
structure Matcher where
  expressions : List Expression
  criterion : Criterion
deriving Repr, Inhabited

namespace Matcher

/-- Compiles the parts of a pattern. -/
def ofTokens (tokens : List Token) : Matcher :=
  ⟨expressionsOf tokens, Criterion.ofTokens tokens⟩

/-- Compiles a pattern. -/
def compile (pattern : String) : Except PatternError Matcher :=
  (parse pattern).map ofTokens

/-- Whether the pattern is nested too deep for a list. -/
def isTooDeep (matcher : Matcher) : Bool :=
  depthLimit < patternDepth matcher.expressions

/-- Whether the pattern matches a path. -/
def matchesPath (matcher : Matcher) (path : String) : Bool :=
  let bytes := path.toUTF8.toList
  !(matcher.criterion.needsFileName && endsInParent bytes) &&
    sequenceMatches matcher.expressions bytes

end Matcher

end CodeFacts.Glob
