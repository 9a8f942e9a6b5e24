import CodeFacts.Path.Map
import CodeFacts.Proofs.OrderedList
import Mathlib.Data.List.Nodup

/-!
# What a map from paths holds

A value is found under all spellings of its path. Storing a value changes what is found under its
own path only, and a map is determined by its entries. Changing all values by one function commutes
with everything else.
-/

namespace CodeFacts.PathMap

variable {α β : Type} {map : PathMap α}

/-- The place for which an entry stands. -/
def place (entry : Path × α) : List Component :=
  entry.1.components

theorem isKey_place : OrderedList.IsKey compareKeys (place (α := α)) :=
  fun first second => Path.isKey_components first.1 second.1

theorem nodup_place (map : PathMap α) : (map.entries.map place).Nodup :=
  map.ordered.nodup_keys isKey_place

theorem increasing_keys (map : PathMap α) : OrderedList.Increasing Path.compare map.keys :=
  List.pairwise_map.mpr map.ordered

theorem ext_entries {first second : PathMap α} (same : first.entries = second.entries) :
    first = second := by
  cases first
  cases second
  simp_all

@[simp]
theorem get?_empty (path : Path) : (empty : PathMap α).get? path = none :=
  rfl

theorem slot?_eq_some_iff {path : Path} {entry : Path × α} :
    map.slot? path = some entry ↔ entry ∈ map.entries ∧ entry.1.same path = true := by
  constructor
  · intro found
    have here := List.find?_some found
    exact ⟨List.mem_of_find?_eq_some found, here⟩
  · rintro ⟨entry_mem, same⟩
    cases found : map.slot? path with
    | none => exact absurd same (List.find?_eq_none.mp found entry entry_mem)
    | some other =>
        have here := List.find?_some found
        have place_eq : place other = place entry := (eq_of_beq here).trans (eq_of_beq same).symm
        exact congrArg some (List.inj_on_of_nodup_map map.nodup_place
          (List.mem_of_find?_eq_some found) entry_mem place_eq)

theorem get?_eq_some_iff {path : Path} {value : α} :
    map.get? path = some value ↔
      ∃ key, (key, value) ∈ map.entries ∧ key.same path = true := by
  simp [get?, slot?_eq_some_iff]

theorem slot?_eq_none_iff {path : Path} :
    map.slot? path = none ↔ path.components ∉ map.entries.map place := by
  rw [slot?, List.find?_eq_none]
  constructor
  · intro differ path_mem
    rcases List.mem_map.mp path_mem with ⟨entry, entry_mem, same⟩
    exact differ entry entry_mem (beq_iff_eq.mpr same)
  · intro absent entry entry_mem same
    exact absent (List.mem_map.mpr ⟨entry, entry_mem, eq_of_beq same⟩)

theorem exists_key_iff {path : Path} :
    (∃ key ∈ map.keys, key.same path = true) ↔ (map.get? path).isSome = true := by
  rw [Option.isSome_iff_exists]
  constructor
  · rintro ⟨key, key_mem, same⟩
    rcases List.mem_map.mp key_mem with ⟨entry, entry_mem, rfl⟩
    exact ⟨entry.2, get?_eq_some_iff.mpr ⟨entry.1, entry_mem, same⟩⟩
  · rintro ⟨value, found⟩
    rcases get?_eq_some_iff.mp found with ⟨key, entry_mem, same⟩
    exact ⟨key, List.mem_map_of_mem entry_mem, same⟩

/-- All spellings of a path lead to one value. -/
theorem get?_congr (map : PathMap α) {first second : Path} (same : first.same second = true) :
    map.get? first = map.get? second := by
  simp only [get?, slot?, Path.same, eq_of_beq same]

/-- A value is stored under the path as it was written first. -/
theorem exists_entries_insert (map : PathMap α) (path : Path) (value : α) :
    ∃ key, key.same path = true ∧
      (map.insert path value).entries =
        OrderedList.insertOver compareKeys (key, value) map.entries := by
  refine ⟨(map.slot? path).elim path Prod.fst, ?_, rfl⟩
  cases found : map.slot? path with
  | none => simp [Path.same]
  | some entry => exact (slot?_eq_some_iff.mp found).2

/-- Storing a value changes what is found under its own path. -/
theorem get?_insert (map : PathMap α) (path : Path) (value : α) (wanted : Path) :
    (map.insert path value).get? wanted =
      if path.same wanted then some value else map.get? wanted := by
  rcases map.exists_entries_insert path value with ⟨key, same, entries⟩
  have found := OrderedList.find?_insertOver isKey_place (key, value) map.entries wanted.components
  rw [← entries] at found
  change (map.insert path value).slot? wanted =
    if key.components == wanted.components then _ else map.slot? wanted at found
  rw [get?, found, eq_of_beq same]
  change (if path.same wanted then _ else _ : Option (Path × α)).map _ = _
  cases path.same wanted <;> rfl

theorem entries_insert_of_fresh {path : Path} (fresh : map.get? path = none) (value : α) :
    (map.insert path value).entries =
      OrderedList.insertOver compareKeys (path, value) map.entries := by
  have absent : map.slot? path = none := by simpa [get?] using fresh
  simp [insert, absent]

/-- What is stored under a new path is added to the entries. -/
theorem mem_insert_iff {path : Path} (fresh : map.get? path = none) (value : α)
    (entry : Path × α) :
    entry ∈ (map.insert path value).entries ↔ entry = (path, value) ∨ entry ∈ map.entries := by
  have new : place (path, value) ∉ map.entries.map place := by
    refine slot?_eq_none_iff.mp ?_
    simpa [get?] using fresh
  rw [entries_insert_of_fresh fresh, (OrderedList.insertOver_perm isKey_place new).mem_iff,
    List.mem_cons]

/-- The map with all values changed by a function. -/
def mapValues (change : α → β) (map : PathMap α) : PathMap β where
  entries := map.entries.map fun entry => (entry.1, change entry.2)
  ordered := map.ordered.map fun _ _ _ _ => by simp only [compareKeys]

variable (change : α → β)

theorem entries_mapValues (map : PathMap α) :
    (map.mapValues change).entries = map.entries.map fun entry => (entry.1, change entry.2) :=
  rfl

@[simp]
theorem keys_mapValues (map : PathMap α) : (map.mapValues change).keys = map.keys := by
  simp [keys, mapValues]

@[simp]
theorem get?_mapValues (map : PathMap α) (path : Path) :
    (map.mapValues change).get? path = (map.get? path).map change := by
  simp only [get?, slot?, mapValues, List.find?_map, Option.map_map]
  rfl

theorem mapValues_insert {path : Path} (fresh : map.get? path = none) (value : α) :
    (map.insert path value).mapValues change =
      (map.mapValues change).insert path (change value) := by
  apply ext_entries
  have fresh_too : (map.mapValues change).get? path = none := by simp [fresh]
  rw [entries_insert_of_fresh fresh_too, entries_mapValues, entries_mapValues,
    entries_insert_of_fresh fresh]
  exact (OrderedList.insertOver_map fun other _ => by simp only [compareKeys]).symm

end CodeFacts.PathMap
