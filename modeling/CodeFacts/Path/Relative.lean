import CodeFacts.Path.Basic

/-!
# Relative paths

What a path looks like from a directory above it, for display. The text between the components
that remain is kept.
-/

namespace CodeFacts.Path

/-- Removes segments from the front until a number of components has gone, and the idle segments
after them. -/
def dropComponents : Nat → List (List Char) → List (List Char)
  | 0, segments => segments.dropWhile isIdle
  | _ + 1, [] => []
  | count + 1, segment :: rest =>
    if isIdle segment then dropComponents (count + 1) rest else dropComponents count rest

/-- The path as seen from a directory whose components it starts with. -/
def stripDirectory? (path directory : Path) : Option Path :=
  let consumed := directory.components
  if consumed.isPrefixOf path.components then
    let parts := path.parts
    match consumed, parts.lead with
    | [], _ => some (ofParts ⟨parts.lead, trimEnd parts.body⟩)
    | _ :: others, some _ =>
      some (ofParts ⟨none, trimEnd (dropComponents others.length parts.body)⟩)
    | consumed, none => some (ofParts ⟨none, trimEnd (dropComponents consumed.length parts.body)⟩)
  else
    none

/-- A text with every backslash turned into a slash. -/
def withSlashes (text : String) : String :=
  String.ofList (text.toList.map fun char => if char = '\\' then '/' else char)

/-- How a path below a root is displayed; other paths are displayed in full. -/
def display (root path : Path) : String :=
  withSlashes ((path.stripDirectory? root).getD path).text

/-- How a file is displayed in the report for a base: the base itself by its name alone, files
below it by the rest of their path, others in full. -/
def displayIn (base file : Path) : String :=
  if base.text.isEmpty then file.text
  else if file.same base then file.fileName?.getD file.text
  else
    match file.stripDirectory? base with
    | some rest => withSlashes rest.text
    | none => file.text

end CodeFacts.Path
