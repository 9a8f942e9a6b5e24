import CodeFacts.Tree.Node

/-!
# Preorder listings of trees

A parser hands a tree over as a flat list of its nodes in preorder, each with the number of its
children. `Listing.toNode?` folds such a list from the right: the subtrees to the right of an
entry are already built, and the entry takes as many of them as it has children.

Spans and texts are read off the source once, here. A line is counted by the newline bytes before
an offset, a column by the bytes since the last newline; a stretch that is not valid UTF-8 has
empty text.
-/

namespace CodeFacts

/-- One node of a preorder listing. -/
structure ListingEntry where
  kind : String
  named : Bool
  startByte : Nat
  endByte : Nat
  childCount : Nat
  field : Option String
deriving DecidableEq, Repr, Inhabited

/-- Newline bytes, and bytes since the last newline, before an offset, both counted from zero. -/
def rowAndColumn (source : ByteArray) (offset : Nat) : Nat × Nat :=
  ((source.extract 0 offset).toList).foldl
    (fun position byte => if byte = 10 then (position.1 + 1, 0) else (position.1, position.2 + 1))
    (0, 0)

/-- The span between two offsets of a source. -/
def Span.ofOffsets (source : ByteArray) (startByte endByte : Nat) : Span :=
  let start := rowAndColumn source startByte
  let stop := rowAndColumn source endByte
  { startByte
    endByte
    startLine := start.1 + 1
    startColumn := start.2 + 1
    endLine := stop.1 + 1
    endColumn := stop.2 + 1 }

namespace ListingEntry

/-- The node that an entry describes, given its children. -/
def toNode (source : ByteArray) (entry : ListingEntry) (children : List Node) : Node where
  kind := entry.kind
  named := entry.named
  field := entry.field
  span := Span.ofOffsets source entry.startByte entry.endByte
  text := (String.fromUTF8? (source.extract entry.startByte entry.endByte)).getD ""
  children := children

/-- Puts an entry in front of the trees built from what follows it. -/
def attach? (source : ByteArray) (entry : ListingEntry) (built : Option (List Node)) :
    Option (List Node) := do
  let nodes ← built
  if entry.childCount ≤ nodes.length then
    some (entry.toNode source (nodes.take entry.childCount) :: nodes.drop entry.childCount)
  else
    none

end ListingEntry

/-- The trees that a preorder listing describes, if its child counts fit together. -/
def Listing.toForest? (source : ByteArray) (entries : List ListingEntry) : Option (List Node) :=
  entries.foldr (ListingEntry.attach? source) (some [])

/-- The tree that a preorder listing describes, if its child counts describe exactly one. -/
def Listing.toNode? (source : ByteArray) (entries : List ListingEntry) : Option Node :=
  match toForest? source entries with
  | some [node] => some node
  | _ => none

end CodeFacts
