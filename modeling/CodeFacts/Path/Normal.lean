import CodeFacts.Path.Basic

/-!
# Normalized paths

Normalization removes `.` and lets every `..` remove the component before it, by the text alone.
Where there is nothing to remove, at the start of a relative path and at the root, the `..` stays
as a component of its own, and a later `..` removes it like any other.
-/

namespace CodeFacts.Path

/-- Puts one component at the end of those kept so far. -/
def normalizeStep (kept : List Component) : Component → List Component
  | .current => kept
  | .parent => if kept = [] ∨ kept = [.root] then kept ++ [.parent] else kept.dropLast
  | component => kept ++ [component]

/-- The components that normalization keeps. -/
def normalizeComponents (components : List Component) : List Component :=
  components.foldl normalizeStep []

/-- The path whose components are given. -/
def ofComponents : List Component → Path
  | [] => ⟨"."⟩
  | .root :: rest => ofParts ⟨some .root, rest.map fun component => component.text.toList⟩
  | components => ofParts ⟨none, components.map fun component => component.text.toList⟩

/-- The path without `.` and without `..` that have something to remove; a path of which nothing
is left becomes `.`. -/
def normalize (path : Path) : Path :=
  ofComponents (normalizeComponents path.components)

/-- The normalized path below a working directory, or the path itself if it is absolute. -/
def absolute (workingDirectory path : Path) : Path :=
  normalize (workingDirectory.join path)

end CodeFacts.Path
