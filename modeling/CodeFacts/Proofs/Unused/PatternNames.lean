import CodeFacts.Proofs.Tree.Walks
import CodeFacts.Proofs.Unused.DeclarationSites
import Mathlib.Data.List.Flatten

/-!
# The names that a pattern binds

Patterns mix places that bind with places that hold expressions: property keys, default values,
indices. A `PatternGrammar` says of a language which kinds of nodes are names, which are patterns in
all their named children and which in the child under one field. From it follows which names a
pattern binds, without any list of pending patterns. The two tables of patterns describe such
grammars, and what is collected by them is exactly what the grammars bind, in document order.
-/

namespace CodeFacts.Unused

/-- The kinds of nodes of which patterns are made. -/
structure PatternGrammar where
  /-- Names. -/
  names : List String
  /-- Patterns whose named children are patterns. -/
  compounds : List String
  /-- Patterns with one part, each with the field that holds it. -/
  holders : List (String × String)

namespace PatternGrammar

variable (grammar : PatternGrammar)

/-- A node is a part of the pattern above it: a named child of a compound, or what a holder holds
under its field. -/
def IsPart (above part : Cursor) : Prop :=
  above.kind ∈ grammar.compounds ∧ part ∈ above.namedChildren ∨
    ∃ field, (above.kind, field) ∈ grammar.holders ∧ above.childByField? field = some part

/-- A pattern binds itself if it is a name, and whatever its parts bind. -/
inductive Binds : Cursor → Cursor → Prop
  | name {site : Cursor} (isName : site.kind ∈ grammar.names) : Binds site site
  | part {pattern part site : Cursor} (isPart : grammar.IsPart pattern part)
      (binds : Binds part site) : Binds pattern site

/-- A table gives each kind its place in the grammar. -/
structure DescribedBy (table : String → PatternPart) : Prop where
  names : ∀ kind, table kind = .binding ↔ kind ∈ grammar.names
  compounds : ∀ kind, table kind = .namedChildren ↔ kind ∈ grammar.compounds
  holders : ∀ kind field, table kind = .field field ↔ (kind, field) ∈ grammar.holders

variable {grammar} {table : String → PatternPart}

theorem IsPart.mem_children {above part : Cursor} (isPart : grammar.IsPart above part) :
    part ∈ above.children := by
  rcases isPart with ⟨-, part_mem⟩ | ⟨field, -, found⟩
  · exact List.mem_of_mem_filter part_mem
  · exact List.mem_of_find?_eq_some found

theorem Binds.contains {pattern site : Cursor} (binds : grammar.Binds pattern site) :
    pattern.Contains site := by
  induction binds with
  | name => exact Cursor.contains_self _
  | part isPart _ ih => exact ih.of_child isPart.mem_children

/-- Nothing is bound below a child that is no part of the node above it. -/
theorem Binds.isPart_of_between {pattern holder child site : Cursor}
    (binds : grammar.Binds pattern site) (inside : pattern.Contains holder)
    (child_mem : child ∈ holder.children) (below : child.Contains site) :
    grammar.IsPart holder child := by
  induction binds with
  | name =>
      exact absurd (below.trans inside) (Cursor.not_contains_of_mem_children child_mem)
  | @part pattern part site isPart binds ih =>
      rcases inside.cases with rfl | ⟨other, other_mem, inside'⟩
      · obtain rfl := Cursor.eq_of_contains_of_mem_children child_mem isPart.mem_children below
          binds.contains
        exact isPart
      · obtain rfl := Cursor.eq_of_contains_of_mem_children other_mem isPart.mem_children
          (inside'.trans (below.of_child child_mem)) binds.contains
        exact ih inside' below

theorem DescribedBy.isPatternPart_iff (described : grammar.DescribedBy table)
    {above part : Cursor} : IsPatternPart table above part ↔ grammar.IsPart above part := by
  simp only [IsPatternPart, IsPart, ← described.compounds, ← described.holders]
  cases table above.kind <;> simp [PatternPart.parts]

theorem DescribedBy.binds_iff (described : grammar.DescribedBy table) {pattern site : Cursor} :
    grammar.Binds pattern site ↔
      table site.kind = .binding ∧ Relation.ReflTransGen (IsPatternPart table) pattern site := by
  constructor
  · intro binds
    induction binds with
    | name isName => exact ⟨(described.names _).mpr isName, .refl⟩
    | part isPart _ ih => exact ⟨ih.1, ih.2.head (described.isPatternPart_iff.mpr isPart)⟩
  · rintro ⟨isBinding, way⟩
    induction way using Relation.ReflTransGen.head_induction_on with
    | refl => exact .name ((described.names _).mp isBinding)
    | head step _ ih => exact .part (described.isPatternPart_iff.mp step) ih

end PatternGrammar

theorem mem_patternBindingsPending_iff {table : String → PatternPart} {pending : List Cursor}
    {site : Cursor} :
    site ∈ patternBindingsPending table pending ↔
      table site.kind = .binding ∧
        ∃ pattern ∈ pending, Relation.ReflTransGen (IsPatternPart table) pattern site := by
  refine ⟨exists_way_of_mem_patternBindingsPending, ?_⟩
  rintro ⟨isBinding, pattern, pattern_mem, way⟩
  fun_induction patternBindingsPending table pending generalizing pattern with
  | case1 => simp at pattern_mem
  | case2 cursor rest bound ih =>
      rcases List.mem_cons.mp pattern_mem with rfl | later
      · -- A name has no parts, so the way ends where it starts.
        rcases way.cases_head with rfl | ⟨next, step, -⟩
        · exact List.mem_cons_self
        · simp [IsPatternPart, bound, PatternPart.parts] at step
      · exact List.mem_cons_of_mem _ (ih pattern later way)
  | case3 cursor rest unbound ih =>
      rcases List.mem_cons.mp pattern_mem with rfl | later
      · rcases way.cases_head with rfl | ⟨next, step, way⟩
        · exact absurd isBinding unbound
        · exact ih next (List.mem_append_left _ step) way
      · exact ih pattern (List.mem_append_right _ later) way

/-- Names are collected in the order of the preorders of the pending patterns. -/
theorem patternBindingsPending_sublist (table : String → PatternPart) (pending : List Cursor) :
    (patternBindingsPending table pending).Sublist
      (pending.flatMap (Cursor.preorder fun _ => true)) := by
  fun_induction patternBindingsPending table pending with
  | case1 => simp
  | case2 cursor rest _ ih =>
      rw [List.flatMap_cons, Cursor.preorder_eq, List.cons_append]
      exact (ih.trans (List.sublist_append_right _ _)).cons_cons cursor
  | case3 cursor rest _ ih =>
      have below := ((table cursor.kind).parts_sublist cursor).flatMap
        (Cursor.preorder fun _ => true)
      rw [List.flatMap_append] at ih
      rw [List.flatMap_cons, Cursor.preorder_eq, List.cons_append]
      exact (ih.trans (below.append_right _)).cons cursor

/-- What is collected by a table that describes a grammar is what the grammar binds. -/
theorem PatternGrammar.DescribedBy.enumerates {grammar : PatternGrammar}
    {table : String → PatternPart} (described : grammar.DescribedBy table) (pattern : Cursor) :
    Cursor.Enumerates (patternBindings table pattern) (grammar.Binds pattern) where
  mem_iff site := by simp [patternBindings, mem_patternBindingsPending_iff, described.binds_iff]
  inOrder := by
    have sublist := patternBindingsPending_sublist table [pattern]
    rw [List.flatMap_singleton] at sublist
    exact (Cursor.pairwise_path_preorder _ pattern).sublist sublist

/-- Destructuring patterns: objects, arrays and rests are patterns in all their parts, a pair in its
value and a default in its left side. -/
def Ecma.patternGrammar : PatternGrammar where
  names := ["identifier", "shorthand_property_identifier_pattern"]
  compounds := ["object_pattern", "array_pattern", "rest_pattern"]
  holders := [("pair_pattern", "value"), ("assignment_pattern", "left"),
    ("object_assignment_pattern", "left")]

theorem Ecma.patternTable_describes : patternGrammar.DescribedBy patternTable where
  names kind := by unfold patternTable; split <;> simp_all [patternGrammar]
  compounds kind := by unfold patternTable; split <;> simp_all [patternGrammar]
  holders kind field := by unfold patternTable; split <;> simp_all [patternGrammar, eq_comm]

/-- Assignment targets: lists, tuples and splats are patterns in all their parts. -/
def Python.targetGrammar : PatternGrammar where
  names := ["identifier"]
  compounds := ["pattern_list", "tuple_pattern", "list_pattern", "list_splat_pattern"]
  holders := []

theorem Python.targetTable_describes : targetGrammar.DescribedBy targetTable where
  names kind := by unfold targetTable; split_ifs <;> simp_all [targetGrammar]
  compounds kind := by unfold targetTable; split_ifs <;> simp_all [targetGrammar]
  holders kind field := by unfold targetTable; split_ifs <;> simp_all [targetGrammar]

/-- Where property keys and default values stand: the kind of a node with the field of a child. -/
def expressionPlaces : List (String × String) :=
  [("pair_pattern", "key"), ("assignment_pattern", "right"), ("object_assignment_pattern", "right"),
    ("pair", "key"), ("default_parameter", "value"), ("typed_default_parameter", "value")]

/-- A node is a property key or a default value in the node above it. -/
def IsKeyOrDefault (above child : Cursor) : Prop :=
  child ∈ above.children ∧
    ∃ field, (above.kind, field) ∈ expressionPlaces ∧ child.node.field = some field

/-- Where a grammar has no pattern at the places of keys and default values, nothing is bound in
the keys and default values that stand in a pattern. -/
theorem PatternGrammar.not_binds_in_keyOrDefault {grammar : PatternGrammar}
    (apart : ∀ place ∈ expressionPlaces, place.1 ∉ grammar.compounds ∧ place ∉ grammar.holders)
    {pattern above child site : Cursor} (inside : pattern.Contains above)
    (isExpression : IsKeyOrDefault above child) (below : child.Contains site) :
    ¬grammar.Binds pattern site := by
  intro binds
  rcases isExpression with ⟨child_mem, field, place, held⟩
  rcases binds.isPart_of_between inside child_mem below with ⟨compound, -⟩ | ⟨other, holder, found⟩
  · exact (apart _ place).1 compound
  · have heldByOther : child.node.field = some other := by
      simpa using List.find?_some found
    rw [held] at heldByOther
    obtain rfl := Option.some.inj heldByOther
    exact (apart _ place).2 holder

/-- Of every tree, a destructuring pattern and an assignment target bind exactly the names that
stand in binding places, each once and in document order, and none that stands in a property key or
a default value. -/
theorem patterns_bind_exactly_binding_places (pattern : Cursor) :
    Cursor.Enumerates (Ecma.patternNames pattern) (Ecma.patternGrammar.Binds pattern) ∧
      Cursor.Enumerates (Python.targets pattern) (Python.targetGrammar.Binds pattern) ∧
      ∀ above child site, pattern.Contains above → IsKeyOrDefault above child →
        child.Contains site → site ∉ Ecma.patternNames pattern ∧ site ∉ Python.targets pattern := by
  have names := Ecma.patternTable_describes.enumerates pattern
  have targets := Python.targetTable_describes.enumerates pattern
  refine ⟨names, targets, ?_⟩
  intro above child site inside isExpression below
  constructor
  · intro site_mem
    exact PatternGrammar.not_binds_in_keyOrDefault (by decide) inside isExpression below
      ((names.mem_iff site).mp site_mem)
  · intro site_mem
    exact PatternGrammar.not_binds_in_keyOrDefault (by decide) inside isExpression below
      ((targets.mem_iff site).mp site_mem)

/-- The name in the key of `{[k]: x = d}`, a pattern with an expression on either side of what it
binds. -/
def keyName : Node :=
  ⟨"identifier", true, none, ⟨2, 3, 1, 3, 1, 4⟩, "k", []⟩

/-- That key. -/
def computedKey : Node :=
  ⟨"computed_property_name", true, some "key", ⟨1, 4, 1, 2, 1, 5⟩, "[k]", [keyName]⟩

/-- The key with the name `x` and its default. -/
def computedPair : Node :=
  let name : Node := ⟨"identifier", true, some "left", ⟨6, 7, 1, 7, 1, 8⟩, "x", []⟩
  let default : Node := ⟨"identifier", true, some "right", ⟨10, 11, 1, 11, 1, 12⟩, "d", []⟩
  let value : Node :=
    ⟨"assignment_pattern", true, some "value", ⟨6, 11, 1, 7, 1, 12⟩, "x = d", [name, default]⟩
  ⟨"pair_pattern", true, none, ⟨1, 11, 1, 2, 1, 12⟩, "[k]: x = d", [computedKey, value]⟩

/-- The pattern `{[k]: x = d}` itself. -/
def computedPattern : Node :=
  ⟨"object_pattern", true, none, ⟨0, 12, 1, 1, 1, 13⟩, "\x7b[k]: x = d\x7d", [computedPair]⟩

theorem computedPattern_binds_value_only :
    (Ecma.patternNames (.ofRoot computedPattern)).map Cursor.text = ["x"] ∧
      ∃ above child site, (Cursor.ofRoot computedPattern).Contains above ∧
        IsKeyOrDefault above child ∧ child.Contains site ∧ site.kind = "identifier" ∧
        site ∉ Ecma.patternNames (.ofRoot computedPattern) := by
  let pair : Cursor := ⟨computedPair, [(computedPattern, 0)]⟩
  let key : Cursor := ⟨computedKey, (computedPair, 0) :: pair.ancestors⟩
  let name : Cursor := ⟨keyName, (computedKey, 0) :: key.ancestors⟩
  have pair_mem : pair ∈ (Cursor.ofRoot computedPattern).children := List.mem_cons_self
  have key_mem : key ∈ pair.children := List.mem_cons_self
  have name_mem : name ∈ key.children := List.mem_cons_self
  have isKey : IsKeyOrDefault pair key := ⟨key_mem, "key", by decide, rfl⟩
  refine ⟨?_, pair, key, name, Cursor.contains_child pair_mem, isKey,
    Cursor.contains_child name_mem, rfl, ?_⟩
  · simp [Ecma.patternNames, patternBindings, patternBindingsPending, computedPattern, computedPair,
      computedKey, Ecma.patternTable, PatternPart.parts, Cursor.namedChildren, Cursor.childByField?,
      Cursor.children, Cursor.ofRoot, Cursor.kind, Cursor.text]
  · exact ((patterns_bind_exactly_binding_places (.ofRoot computedPattern)).2.2 pair key name
      (Cursor.contains_child pair_mem) isKey (Cursor.contains_child name_mem)).1

end CodeFacts.Unused
