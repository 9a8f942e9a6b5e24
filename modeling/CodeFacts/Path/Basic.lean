/-!
# Paths

A path is kept as it was written, and means the list of its components: the root, a leading `.`,
parents and names. Empty segments and later `.` segments mean nothing, so `/p//a`, `/p/./a/` and
`/p/a` are different texts for one path. Equality and order of paths are those of the component
lists; names are ordered by code points.

The text is a list of segments between slashes. Every operation works on these segments and
leaves the text between the segments it keeps as it was.
-/

namespace CodeFacts

/-- A step of a path. -/
inductive Component where
  | root
  | current
  | parent
  | name (text : String)
deriving DecidableEq, Repr, Inhabited

namespace Component

/-- The root comes first, then `.`, then `..`, then names. -/
def rank : Component → Nat
  | root => 0
  | current => 1
  | parent => 2
  | name _ => 3

/-- The order of components; names by code points. -/
def compare : Component → Component → Ordering
  | name first, name second => Ord.compare first second
  | first, second => Ord.compare first.rank second.rank

/-- How a component is written. -/
def text : Component → String
  | root => "/"
  | current => "."
  | parent => ".."
  | name text => text

end Component

/-- A path as it was written. -/
structure Path where
  text : String
deriving DecidableEq, Repr, Inhabited

namespace Path

/-- The segments between the slashes of a text. -/
def splitSlashes : List Char → List (List Char)
  | [] => [[]]
  | char :: rest =>
    match splitSlashes rest with
    | [] => [[char]]
    | segment :: segments =>
      if char = '/' then [] :: segment :: segments else (char :: segment) :: segments

/-- The text whose segments are given. -/
def joinSlashes : List (List Char) → List Char
  | [] => []
  | [segment] => segment
  | segment :: rest => segment ++ '/' :: joinSlashes rest

/-- The segments of the text of a path. -/
def segments (path : Path) : List (List Char) :=
  splitSlashes path.text.toList

/-- The segments of a path as texts. -/
def segmentTexts (path : Path) : List String :=
  path.segments.map String.ofList

/-- Segments that mean nothing within a path: the empty one and `.`. -/
def isIdle (segment : List Char) : Bool :=
  segment == [] || segment == ['.']

/-- A path taken apart: the root or the `.` with which it starts, and the segments after that. -/
structure Parts where
  lead : Option Component
  body : List (List Char)
deriving DecidableEq, Repr, Inhabited

/-- Takes a path apart. -/
def parts (path : Path) : Parts :=
  match path.segments with
  | [] :: next :: rest => ⟨some .root, next :: rest⟩
  | ['.'] :: rest => ⟨some .current, rest⟩
  | segments => ⟨none, segments⟩

/-- Puts a path together. -/
def ofParts (parts : Parts) : Path :=
  match parts.lead, parts.body with
  | some .root, body => ⟨String.ofList ('/' :: joinSlashes body)⟩
  | some .current, [] => ⟨"."⟩
  | some .current, body => ⟨String.ofList ('.' :: '/' :: joinSlashes body)⟩
  | _, body => ⟨String.ofList (joinSlashes body)⟩

/-- What a segment means, unless it means nothing. -/
def segmentComponent? (segment : List Char) : Option Component :=
  if isIdle segment then none
  else if segment == ['.', '.'] then some .parent
  else some (.name (String.ofList segment))

/-- The components of a path that was taken apart. -/
def Parts.components (parts : Parts) : List Component :=
  parts.lead.toList ++ parts.body.filterMap segmentComponent?

/-- The components of a path. -/
def components (path : Path) : List Component :=
  path.parts.components

/-- Whether two texts mean the same path. -/
def same (first second : Path) : Bool :=
  first.components == second.components

/-- The order of component lists, a list before its extensions. -/
def compareComponents : List Component → List Component → Ordering
  | [], [] => .eq
  | [], _ :: _ => .lt
  | _ :: _, [] => .gt
  | first :: firsts, second :: seconds =>
    match first.compare second with
    | .eq => compareComponents firsts seconds
    | order => order

/-- The order of paths. -/
def compare (first second : Path) : Ordering :=
  compareComponents first.components second.components

/-- Whether a path comes before another or means the same. -/
def le (first second : Path) : Bool :=
  first.compare second != .gt

/-- Whether a path starts at the root. -/
def isAbsolute (path : Path) : Bool :=
  path.text.toList.head? == some '/'

/-- A text that can name an entry of a directory. -/
def IsName (text : String) : Prop :=
  text ≠ "" ∧ text ≠ "." ∧ text ≠ ".." ∧ '/' ∉ text.toList

instance (text : String) : Decidable (IsName text) :=
  inferInstanceAs (Decidable (_ ∧ _))

/-- A path below a directory. An absolute path replaces the directory; otherwise a slash is
written between the two unless the directory is empty or ends in one. -/
def join (directory path : Path) : Path :=
  if path.isAbsolute then path
  else if directory.text.isEmpty || directory.text.toList.getLast? == some '/' then
    ⟨directory.text ++ path.text⟩
  else
    ⟨directory.text ++ "/" ++ path.text⟩

/-- Segments without idle ones at the end. -/
def trimEnd (segments : List (List Char)) : List (List Char) :=
  (segments.reverse.dropWhile isIdle).reverse

/-- The path without its last component; the root and the empty path have no parent. -/
def parent? (path : Path) : Option Path :=
  let parts := path.parts
  match trimEnd parts.body with
  | [] => if parts.lead = some .current then some ⟨""⟩ else none
  | body => some (ofParts ⟨parts.lead, trimEnd body.dropLast⟩)

/-- The last component of a path, if it is a name. -/
def fileName? (path : Path) : Option String :=
  match path.components.getLast? with
  | some (.name text) => some text
  | _ => none

/-- The characters of a file name before and after its last dot. A name without a dot, or with
only a leading one, has no extension. -/
def splitExtension? (name : List Char) : Option (List Char × List Char) :=
  let extension := (name.reverse.takeWhile (· != '.')).reverse
  let stem := (name.reverse.dropWhile (· != '.')).drop 1 |>.reverse
  if name.contains '.' && !stem.isEmpty then some (stem, extension) else none

/-- What follows the last dot of the file name. -/
def extension? (path : Path) : Option String :=
  match path.fileName? with
  | none => none
  | some name => (splitExtension? name.toList).map fun split => String.ofList split.2

/-- The path with the extension of its file name and all that follows it cut off. -/
def withoutExtension (path : Path) : Path :=
  match path.fileName? with
  | none => path
  | some name =>
    match splitExtension? name.toList with
    | none => path
    | some (stem, _) =>
      let parts := path.parts
      ofParts ⟨parts.lead, (trimEnd parts.body).dropLast ++ [stem]⟩

/-- The path with a suffix written after its text. -/
def append (path : Path) (suffix : String) : Path :=
  ⟨path.text ++ suffix⟩

end Path

end CodeFacts
