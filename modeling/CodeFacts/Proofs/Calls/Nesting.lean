import CodeFacts.Calls.Declaration
import CodeFacts.Proofs.Tree.DocumentOrder

/-!
# Declarations and the nesting of a tree

Declarations are collected with a list of pending nodes, each with the name of the class around it.
The list does not matter: the class around a node can be read off the way up to the root, and the
declarations are those of the named definitions in document order. Functions and named classes are
the nodes that decide what a declaration belongs to, and of those around it the nearest one does.
-/

namespace CodeFacts

namespace Cursor

/-- Of the nodes with a property that lie properly around a node, the nearest one. -/
structure IsNearestAround (property : Cursor → Prop) (outer inner : Cursor) : Prop where
  has : property outer
  contains : outer.Contains inner
  proper : outer ≠ inner
  nearest : ∀ other, property other → other.Contains inner → other ≠ inner → other.Contains outer

theorem ne_of_mem_children {cursor child : Cursor} (child_mem : child ∈ cursor.children) :
    cursor ≠ child := by
  rintro rfl
  exact not_contains_of_mem_children child_mem (contains_self cursor)

theorem eq_ofRoot_of_contains {tree : Node} {outer : Cursor}
    (contains : outer.Contains (ofRoot tree)) : outer = ofRoot tree := by
  rcases Relation.ReflTransGen.cases_tail contains with same | ⟨above, -, child_mem⟩
  · exact same.symm
  · rcases address_of_mem_children child_mem with ⟨index, address⟩
    exact absurd address (by simp [ofRoot, Cursor.address])

section Nearest

variable {property : Cursor → Prop} {outer parent child : Cursor}

theorem not_isNearestAround_ofRoot (tree : Node) :
    ¬IsNearestAround property outer (ofRoot tree) :=
  fun nearest => nearest.proper (eq_ofRoot_of_contains nearest.contains)

/-- A parent with the property is nearest. -/
theorem isNearestAround_iff_eq (child_mem : child ∈ parent.children) (has : property parent) :
    IsNearestAround property outer child ↔ outer = parent := by
  constructor
  · intro nearest
    have above := (nearest.contains.eq_or_parent child_mem).resolve_left nearest.proper
    exact above.antisymm
      (nearest.nearest parent has (contains_child child_mem) (ne_of_mem_children child_mem))
  · rintro rfl
    refine ⟨has, contains_child child_mem, ne_of_mem_children child_mem, ?_⟩
    intro other _ contains different
    exact (contains.eq_or_parent child_mem).resolve_left different

/-- A parent without the property is passed over. -/
theorem isNearestAround_iff_of_not (child_mem : child ∈ parent.children)
    (lacks : ¬property parent) :
    IsNearestAround property outer child ↔ IsNearestAround property outer parent := by
  have proper {other : Cursor} (above : other.Contains parent) : other ≠ child := by
    rintro rfl
    exact not_contains_of_mem_children child_mem above
  constructor
  · intro nearest
    refine ⟨nearest.has, (nearest.contains.eq_or_parent child_mem).resolve_left nearest.proper,
      fun same => lacks (same ▸ nearest.has), ?_⟩
    intro other has above _
    exact nearest.nearest other has (above.trans (contains_child child_mem)) (proper above)
  · intro nearest
    refine ⟨nearest.has, nearest.contains.trans (contains_child child_mem),
      proper nearest.contains, ?_⟩
    intro other has contains different
    exact nearest.nearest other has ((contains.eq_or_parent child_mem).resolve_left different)
      fun same => lacks (same ▸ has)

end Nearest

end Cursor

namespace Calls

/-- Whether a node is the definition of a function or class and has a name. -/
def isNamedDefinition (cursor : Cursor) : Bool :=
  ["function_definition", "class_definition"].contains cursor.kind &&
    (cursor.childByField? "name").isSome

/-- The named definitions of a tree in document order. -/
def definitionsOf (tree : Node) : List Cursor :=
  ((Cursor.ofRoot tree).preorder fun _ => true).filter isNamedDefinition

/-- A node that decides to which class the declarations below it belong. -/
def Delimits (cursor : Cursor) : Prop :=
  cursor.kind = "function_definition" ∨
    cursor.kind = "class_definition" ∧ (cursor.childByField? "name").isSome = true

/-- The class around a node, from the way up to the root. -/
def classAround : List (Node × Nat) → Option String
  | [] => none
  | (above, _) :: rest => innerClass ⟨above, rest⟩ (classAround rest)

theorem classAround_of_mem_children {parent child : Cursor} (child_mem : child ∈ parent.children) :
    classAround child.ancestors = innerClass parent (classAround parent.ancestors) := by
  rcases List.mem_map.mp child_mem with ⟨entry, -, rfl⟩
  rfl

/-- What a node declares where it stands. -/
def recordOf (node : Cursor) : Declaration :=
  (declaration? node (classAround node.ancestors)).getD default

section Declaration

variable {cursor : Cursor} {className : Option String} {declaration : Declaration}

theorem isSome_declaration? (cursor : Cursor) (className : Option String) :
    (declaration? cursor className).isSome = isNamedDefinition cursor := by
  unfold declaration? isNamedDefinition
  by_cases function : cursor.kind = "function_definition"
  · simp [function, functionDeclaration?]
  · by_cases isClass : cursor.kind = "class_definition"
    · simp [isClass, classDeclaration?]
    · simp [function, isClass]

/-- What a declaration tells of its name, of the class around it and of the kind of its node. -/
theorem fields_of_declaration? (declares : declaration? cursor className = some declaration) :
    (cursor.childByField? "name").map Cursor.text = some declaration.name ∧
      declaration.className = className ∧
      declaration.qualifiedName = qualify className declaration.name ∧
      declaration.kind =
        if cursor.kind = "class_definition" then .classDefinition
        else if className.isSome then .method else .function := by
  unfold declaration? at declares
  by_cases function : cursor.kind = "function_definition"
  · simp only [function, BEq.rfl, ↓reduceIte, functionDeclaration?] at declares
    rcases Option.map_eq_some_iff.mp declares with ⟨name, found, rfl⟩
    simp [function, found]
  · by_cases isClass : cursor.kind = "class_definition"
    · simp only [isClass, classDeclaration?] at declares
      rcases Option.map_eq_some_iff.mp declares with ⟨name, found, rfl⟩
      simp [isClass, found]
    · simp [function, isClass] at declares

end Declaration

theorem declaration?_recordOf {node : Cursor} (named : isNamedDefinition node = true) :
    declaration? node (classAround node.ancestors) = some (recordOf node) := by
  rw [← isSome_declaration? node (classAround node.ancestors)] at named
  rcases Option.isSome_iff_exists.mp named with ⟨declaration, declares⟩
  rw [recordOf, declares, Option.getD_some]

theorem name_recordOf {node : Cursor} (named : isNamedDefinition node = true) :
    (node.childByField? "name").map Cursor.text = some (recordOf node).name :=
  (fields_of_declaration? (declaration?_recordOf named)).1

theorem className_recordOf {node : Cursor} (named : isNamedDefinition node = true) :
    (recordOf node).className = classAround node.ancestors :=
  (fields_of_declaration? (declaration?_recordOf named)).2.1

theorem qualifiedName_recordOf {node : Cursor} (named : isNamedDefinition node = true) :
    (recordOf node).qualifiedName = qualify (classAround node.ancestors) (recordOf node).name :=
  (fields_of_declaration? (declaration?_recordOf named)).2.2.1

theorem kind_recordOf {node : Cursor} (named : isNamedDefinition node = true) :
    (recordOf node).kind =
      if node.kind = "class_definition" then .classDefinition
      else if (classAround node.ancestors).isSome then .method else .function :=
  (fields_of_declaration? (declaration?_recordOf named)).2.2.2

/-- What a node and all below it declare where they stand. -/
def declaredFrom (start : Cursor) : List Declaration :=
  (start.preorder fun _ => true).filterMap fun node =>
    declaration? node (classAround node.ancestors)

theorem declaredFrom_eq (start : Cursor) :
    declaredFrom start =
      (declaration? start (classAround start.ancestors)).toList ++
        start.children.flatMap declaredFrom := by
  unfold declaredFrom
  rw [Cursor.preorder_eq, if_pos rfl, List.filterMap_cons, List.filterMap_flatMap]
  cases declaration? start (classAround start.ancestors) <;> rfl

/-- Pending nodes that come with the classes around them give what they and all below them
declare. -/
theorem declarationsPending_eq_flatMap {pending : List (Cursor × Option String)}
    (known : ∀ entry ∈ pending, entry.2 = classAround entry.1.ancestors) :
    declarationsPending pending = pending.flatMap fun entry => declaredFrom entry.1 := by
  fun_induction declarationsPending pending with
  | case1 => rfl
  | case2 cursor className rest ih =>
      rcases List.forall_mem_cons.mp known with ⟨here, later⟩
      have children_known : ∀ entry ∈ (cursor.children.map fun child =>
          (child, innerClass cursor className)) ++ rest,
          entry.2 = classAround entry.1.ancestors := by
        intro entry entry_mem
        rcases List.mem_append.mp entry_mem with below | entry_mem
        · rcases List.mem_map.mp below with ⟨child, child_mem, rfl⟩
          rw [classAround_of_mem_children child_mem, ← here]
        · exact later entry entry_mem
      rw [ih children_known, List.flatMap_append, List.flatMap_map, List.flatMap_cons,
        declaredFrom_eq cursor, ← here, List.append_assoc]

/-- The declarations of a tree are the records of its named definitions. -/
theorem declarationsOf_eq_map (tree : Node) :
    declarationsOf tree = (definitionsOf tree).map recordOf := by
  have pending : declarationsOf tree = declaredFrom (Cursor.ofRoot tree) := by
    rw [declarationsOf, declarationsPending_eq_flatMap, List.flatMap_singleton]
    simp [Cursor.ofRoot, classAround]
  rw [pending, declaredFrom, definitionsOf, ← List.filterMap_eq_map, List.filterMap_filter]
  apply List.filterMap_congr
  intro node _
  cases named : isNamedDefinition node with
  | true => rw [declaration?_recordOf named]; rfl
  | false =>
      rw [← isSome_declaration? node (classAround node.ancestors)] at named
      simpa using named

section Owner

variable {tree : Node} {node owner : Cursor}

theorem mem_definitionsOf_iff :
    node ∈ definitionsOf tree ↔
      (Cursor.ofRoot tree).Contains node ∧ isNamedDefinition node = true := by
  rw [definitionsOf, List.mem_filter, ← Cursor.walk_eq_preorder]
  exact and_congr_left' (Cursor.mem_descendants_iff _ _)

theorem innerClass_of_not_delimits {cursor : Cursor} (passed : ¬Delimits cursor)
    (className : Option String) : innerClass cursor className = className := by
  simp only [Delimits, not_or, not_and] at passed
  rcases passed with ⟨function, unnamed⟩
  by_cases isClass : cursor.kind = "class_definition"
  · have nameless : cursor.childByField? "name" = none := by simpa using unnamed isClass
    simp [innerClass, isClass, classDeclaration?, nameless]
  · simp [innerClass, function, isClass]

/-- The children of a function belong to no class, those of a named class to it. -/
theorem innerClass_of_delimits {cursor : Cursor} (delimits : Delimits cursor) :
    innerClass cursor (classAround cursor.ancestors) =
      if cursor.kind = "class_definition" then some (recordOf cursor).qualifiedName else none := by
  rcases delimits with function | ⟨isClass, named⟩
  · simp [innerClass, function]
  · have isNamed : isNamedDefinition cursor = true := by simp [isNamedDefinition, isClass, named]
    have declared : classDeclaration? cursor (classAround cursor.ancestors) =
        some (recordOf cursor) := by
      simpa [declaration?, isClass] using declaration?_recordOf isNamed
    simp [innerClass, isClass, declared]

/-- The class around a node is the nearest of the nodes that decide, if that is a class. -/
theorem classAround_of_isNearestAround (inside : (Cursor.ofRoot tree).Contains node)
    (nearest : Cursor.IsNearestAround Delimits owner node) :
    classAround node.ancestors =
      if owner.kind = "class_definition" then some (recordOf owner).qualifiedName else none := by
  induction inside with
  | refl => exact absurd nearest (Cursor.not_isNearestAround_ofRoot tree)
  | @tail parent node _ child_mem ih =>
      rw [classAround_of_mem_children child_mem]
      by_cases delimits : Delimits parent
      · obtain rfl := (Cursor.isNearestAround_iff_eq child_mem delimits).mp nearest
        exact innerClass_of_delimits delimits
      · rw [innerClass_of_not_delimits delimits]
        exact ih ((Cursor.isNearestAround_iff_of_not child_mem delimits).mp nearest)

theorem exists_isNearestAround_of_classAround (inside : (Cursor.ofRoot tree).Contains node)
    {className : String} (around : classAround node.ancestors = some className) :
    ∃ owner, (Cursor.ofRoot tree).Contains owner ∧
      Cursor.IsNearestAround Delimits owner node := by
  induction inside with
  | refl => simp [Cursor.ofRoot, classAround] at around
  | @tail parent node above child_mem ih =>
      by_cases delimits : Delimits parent
      · exact ⟨parent, above, (Cursor.isNearestAround_iff_eq child_mem delimits).mpr rfl⟩
      · rw [classAround_of_mem_children child_mem, innerClass_of_not_delimits delimits] at around
        rcases ih around with ⟨owner, owner_inside, nearest⟩
        exact ⟨owner, owner_inside,
          (Cursor.isNearestAround_iff_of_not child_mem delimits).mpr nearest⟩

/-- A class around a node is a named definition, and its record has the name. -/
theorem exists_owner_of_classAround (inside : (Cursor.ofRoot tree).Contains node)
    {className : String} (around : classAround node.ancestors = some className) :
    ∃ owner ∈ definitionsOf tree, Cursor.IsNearestAround Delimits owner node ∧
      owner.kind = "class_definition" ∧ (recordOf owner).qualifiedName = className := by
  rcases exists_isNearestAround_of_classAround inside around with ⟨owner, owner_inside, nearest⟩
  rw [classAround_of_isNearestAround inside nearest] at around
  split at around
  · rename_i isClass
    have named : (owner.childByField? "name").isSome = true := by
      simpa [Delimits, isClass] using nearest.has
    have owner_mem : owner ∈ definitionsOf tree :=
      mem_definitionsOf_iff.mpr ⟨owner_inside, by simp [isNamedDefinition, isClass, named]⟩
    exact ⟨owner, owner_mem, nearest, isClass, Option.some.inj around⟩
  · contradiction

/-- A definition comes before those that it contains. -/
theorem sublist_definitionsOf (owner_mem : owner ∈ definitionsOf tree)
    (node_mem : node ∈ definitionsOf tree) (contains : owner.Contains node)
    (proper : owner ≠ node) : [owner, node].Sublist (definitionsOf tree) := by
  rcases List.mem_filter.mp owner_mem with ⟨owner_visited, owner_named⟩
  rcases List.mem_filter.mp node_mem with ⟨node_visited, node_named⟩
  have ordered := (Cursor.sublist_of_contains owner_visited node_visited contains proper).filter
    isNamedDefinition
  simpa [definitionsOf, owner_named, node_named] using ordered

end Owner

/-- Records mirror the nesting of their nodes: each has the name that its node is given, what stands
in a class is named after the record of the class, everything else by its own name, and methods are
the functions that stand in a class. -/
structure MirrorsNesting (nodes : List Cursor) (record : Cursor → Declaration) : Prop where
  name : ∀ node ∈ nodes, (node.childByField? "name").map Cursor.text = some (record node).name
  declares : ∀ node ∈ nodes, declaration? node (record node).className = some (record node)
  inClass : ∀ node ∈ nodes, ∀ owner, Cursor.IsNearestAround Delimits owner node →
    owner.kind = "class_definition" →
      (record node).className = some (record owner).qualifiedName ∧
        (record node).qualifiedName = (record owner).qualifiedName ++ "." ++ (record node).name
  outside : ∀ node ∈ nodes,
    (∀ owner, Cursor.IsNearestAround Delimits owner node → owner.kind ≠ "class_definition") →
      (record node).className = none ∧ (record node).qualifiedName = (record node).name
  method : ∀ node ∈ nodes, node.kind = "function_definition" →
    ((record node).kind = .method ↔ (record node).className.isSome = true)
  owned : ∀ node ∈ nodes, ∀ className, (record node).className = some className →
    ∃ owner, [owner, node].Sublist nodes ∧ owner.Contains node ∧
      (record owner).kind = .classDefinition ∧ (record owner).qualifiedName = className

/-- There is one record for each named definition, in document order, and the records mirror the
nesting of the definitions. -/
theorem declarationsOf_mirror_nesting (tree : Node) :
    declarationsOf tree = (definitionsOf tree).map recordOf ∧
      MirrorsNesting (definitionsOf tree) recordOf := by
  have within {node : Cursor} (node_mem : node ∈ definitionsOf tree) :
      (Cursor.ofRoot tree).Contains node ∧ isNamedDefinition node = true :=
    mem_definitionsOf_iff.mp node_mem
  refine ⟨declarationsOf_eq_map tree, ?_, ?_, ?_, ?_, ?_, ?_⟩
  · intro node node_mem
    exact name_recordOf (within node_mem).2
  · intro node node_mem
    rcases within node_mem with ⟨-, named⟩
    rw [className_recordOf named]
    exact declaration?_recordOf named
  · intro node node_mem owner nearest isClass
    rcases within node_mem with ⟨inside, named⟩
    have around := classAround_of_isNearestAround inside nearest
    rw [if_pos isClass] at around
    rw [className_recordOf named, qualifiedName_recordOf named, around]
    exact ⟨rfl, rfl⟩
  · intro node node_mem elsewhere
    rcases within node_mem with ⟨inside, named⟩
    have around : classAround node.ancestors = none := by
      apply Option.eq_none_iff_forall_ne_some.mpr
      intro className found
      rcases exists_owner_of_classAround inside found with ⟨owner, -, nearest, isClass, -⟩
      exact elsewhere owner nearest isClass
    rw [className_recordOf named, qualifiedName_recordOf named, around]
    exact ⟨rfl, rfl⟩
  · intro node node_mem function
    rcases within node_mem with ⟨-, named⟩
    rw [kind_recordOf named, className_recordOf named]
    cases classAround node.ancestors <;> simp [function]
  · intro node node_mem className found
    rcases within node_mem with ⟨inside, named⟩
    rw [className_recordOf named] at found
    rcases exists_owner_of_classAround inside found with
      ⟨owner, owner_mem, nearest, isClass, qualified⟩
    refine ⟨owner, sublist_definitionsOf owner_mem node_mem nearest.contains nearest.proper,
      nearest.contains, ?_, qualified⟩
    rw [kind_recordOf (within owner_mem).2, if_pos isClass]

end Calls

end CodeFacts
