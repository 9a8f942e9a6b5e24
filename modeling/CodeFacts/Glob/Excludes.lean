import CodeFacts.Failure
import CodeFacts.Glob.Match

/-!
# Exclude lists

A list of patterns excludes a path that any of them matches. One bad pattern makes the whole list
unusable, and so does one that is nested too deep. The patterns that go by the extension first are
compiled one by one, and after them those that go by the whole path, all together; the others need
no compilation.
-/

namespace CodeFacts.Glob

/-- A compiled list of exclude patterns. -/
structure Excludes where
  matchers : List Matcher
deriving Inhabited

namespace Excludes

/-- The pattern that is nested too deep, if there is one. -/
def nestingFault? (matchers : List Matcher) : Option NestingFault :=
  match matchers.find? fun matcher => matcher.criterion == .extension && matcher.isTooDeep with
  | some matcher => some (.alone (patternText matcher.expressions))
  | none =>
    ((matchers.filter fun matcher => matcher.criterion == .path).findIdx? Matcher.isTooDeep).map
      .among

/-- Compiles a list of patterns, or fails with the first bad one. -/
def compile (patterns : List String) : Except Failure Excludes := do
  let matchers ← patterns.mapM fun pattern =>
    match Matcher.compile pattern with
    | .ok matcher => Except.ok matcher
    | .error fault => .error (Failure.invalidPattern pattern fault)
  match nestingFault? matchers with
  | some fault => throw (.nestedPatterns patterns fault)
  | none => return ⟨matchers⟩

/-- Whether some pattern matches a path. -/
def excludes (excluded : Excludes) (path : Path) : Bool :=
  excluded.matchers.any fun matcher => matcher.matchesPath path.text

end Excludes

end CodeFacts.Glob
