import CodeFacts.Path.Order

/-!
# Maps from paths

A map holds one value for each of some paths, and paths that mean the same are one path. The entries
are kept in the order of their paths. A value that is stored under a path which is there already
takes the place of the old one, and the path stays written as it was.
-/

namespace CodeFacts

namespace PathMap

/-- The order of entries is that of their paths. -/
def compareKeys {α : Type} (first second : Path × α) : Ordering :=
  first.1.compare second.1

instance {α : Type} : Std.TransCmp (compareKeys : Path × α → Path × α → Ordering) where
  eq_swap := by
    intro first second
    change first.1.compare second.1 = _
    exact Std.OrientedCmp.eq_swap
  isLE_trans := by
    intro first second third before after
    change (first.1.compare third.1).isLE = true
    exact Std.TransCmp.isLE_trans before after

end PathMap

/-- Values that are stored under paths, in the order of the paths. -/
structure PathMap (α : Type) where
  entries : List (Path × α)
  ordered : OrderedList.Increasing PathMap.compareKeys entries
deriving DecidableEq, Repr

namespace PathMap

variable {α : Type}

/-- The map that holds nothing. -/
def empty : PathMap α :=
  ⟨[], OrderedList.increasing_nil⟩

instance : Inhabited (PathMap α) := ⟨empty⟩

/-- The entry of a path, under the path as it is written in the map. -/
def slot? (map : PathMap α) (path : Path) : Option (Path × α) :=
  map.entries.find? fun entry => entry.1.same path

/-- The value that is stored under a path. -/
def get? (map : PathMap α) (path : Path) : Option α :=
  (map.slot? path).map Prod.snd

/-- The map with a value stored under a path. -/
def insert (map : PathMap α) (path : Path) (value : α) : PathMap α :=
  let key := (map.slot? path).elim path Prod.fst
  ⟨OrderedList.insertOver compareKeys (key, value) map.entries,
    map.ordered.insertOver (key, value)⟩

/-- The paths under which values are stored, in order. -/
def keys (map : PathMap α) : List Path :=
  map.entries.map Prod.fst

/-- The number of values. -/
def size (map : PathMap α) : Nat :=
  map.entries.length

end PathMap

end CodeFacts
