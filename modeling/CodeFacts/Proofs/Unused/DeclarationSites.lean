import CodeFacts.Proofs.Unused.UnreadNames

/-!
# Where identifiers are declared

In every language the identifiers that declare the parameters of a function are nodes of that
function, and the identifiers that a node binds as local variables are nodes below it. So whatever
a nested function declares stands in the body of each function around it.
-/

namespace CodeFacts.Unused

/-- A node is one of the parts into which the table takes the pattern above it. -/
def IsPatternPart (table : String → PatternPart) (above part : Cursor) : Prop :=
  part ∈ (table above.kind).parts above

theorem exists_way_of_mem_patternBindingsPending {table : String → PatternPart}
    {pending : List Cursor} {site : Cursor}
    (site_mem : site ∈ patternBindingsPending table pending) :
    table site.kind = .binding ∧
      ∃ pattern ∈ pending, Relation.ReflTransGen (IsPatternPart table) pattern site := by
  fun_induction patternBindingsPending table pending with
  | case1 => simp at site_mem
  | case2 cursor rest isBinding ih =>
      rcases List.mem_cons.mp site_mem with rfl | later
      · exact ⟨isBinding, site, List.mem_cons_self, .refl⟩
      · rcases ih later with ⟨binds, pattern, pattern_mem, way⟩
        exact ⟨binds, pattern, List.mem_cons_of_mem _ pattern_mem, way⟩
  | case3 cursor rest noBinding ih =>
      rcases ih site_mem with ⟨binds, pattern, pattern_mem, way⟩
      refine ⟨binds, ?_⟩
      rcases List.mem_append.mp pattern_mem with part | later
      · exact ⟨cursor, List.mem_cons_self, way.head part⟩
      · exact ⟨pattern, List.mem_cons_of_mem _ later, way⟩

/-- A name that a pattern binds is reached from part to part. -/
theorem way_of_mem_patternBindings {table : String → PatternPart} {pattern site : Cursor}
    (site_mem : site ∈ patternBindings table pattern) :
    table site.kind = .binding ∧ Relation.ReflTransGen (IsPatternPart table) pattern site := by
  rcases exists_way_of_mem_patternBindingsPending site_mem with ⟨binds, _, pattern_mem, way⟩
  rw [List.mem_singleton.mp pattern_mem] at way
  exact ⟨binds, way⟩

theorem contains_of_mem_patternBindings {table : String → PatternPart} {pattern site : Cursor}
    (site_mem : site ∈ patternBindings table pattern) : pattern.Contains site := by
  refine Relation.ReflTransGen.mono ?_ _ _ (way_of_mem_patternBindings site_mem).2
  intro above part part_mem
  exact (PatternPart.parts_sublist _ above).mem part_mem

/-- What a policy takes for declarations lies below the nodes that declare. -/
structure Policy.DeclaresWithin (policy : Policy) : Prop where
  parameters : ∀ function, ∀ site ∈ policy.parameters function, function.Contains site
  localBindings : ∀ cursor, ∀ site ∈ policy.localBindings cursor, cursor.Contains site

namespace Ecma

theorem contains_of_mem_parameterNodes {function parameter : Cursor}
    (parameter_mem : parameter ∈ parameterNodes function) : function.Contains parameter := by
  unfold parameterNodes at parameter_mem
  split at parameter_mem
  · next single found =>
      rw [List.mem_singleton.mp parameter_mem]
      exact Cursor.contains_of_childByField? found
  · split at parameter_mem
    · simp at parameter_mem
    · next list found =>
        exact (Cursor.contains_of_childByField? found).trans
          (Cursor.contains_of_mem_namedChildren parameter_mem)

theorem contains_of_mem_namesUnder {cursor site : Cursor} {field : String}
    (site_mem : site ∈ namesUnder cursor field) : cursor.Contains site := by
  unfold namesUnder at site_mem
  split at site_mem
  · simp at site_mem
  · next pattern found =>
      exact (Cursor.contains_of_childByField? found).trans
        (contains_of_mem_patternBindings site_mem)

theorem contains_of_mem_localBindings {cursor site : Cursor}
    (site_mem : site ∈ localBindings cursor) : cursor.Contains site := by
  unfold localBindings at site_mem
  split at site_mem
  · exact contains_of_mem_namesUnder site_mem
  · split at site_mem
    · exact contains_of_mem_namesUnder site_mem
    · simp at site_mem

end Ecma

theorem JavaScript.declaresWithin : JavaScript.policy.DeclaresWithin where
  parameters := by
    intro function site site_mem
    rcases List.mem_flatMap.mp site_mem with ⟨parameter, parameter_mem, inside⟩
    exact (Ecma.contains_of_mem_parameterNodes parameter_mem).trans
      (contains_of_mem_patternBindings inside)
  localBindings := fun _ _ => Ecma.contains_of_mem_localBindings

theorem TypeScript.contains_of_parameterPattern? {parameter pattern : Cursor}
    (found : parameterPattern? parameter = some pattern) : parameter.Contains pattern := by
  unfold parameterPattern? at found
  split at found
  · split at found
    · simp at found
    · exact Cursor.contains_of_childByField? found
  · rw [Option.some.inj found]
    exact Cursor.contains_self pattern

theorem TypeScript.declaresWithin : TypeScript.policy.DeclaresWithin where
  parameters := by
    intro function site site_mem
    rcases List.mem_flatMap.mp site_mem with ⟨pattern, pattern_mem, inside⟩
    rcases List.mem_filterMap.mp pattern_mem with ⟨parameter, parameter_mem, found⟩
    exact ((Ecma.contains_of_mem_parameterNodes parameter_mem).trans
      (contains_of_parameterPattern? found)).trans (contains_of_mem_patternBindings inside)
  localBindings := fun _ _ => Ecma.contains_of_mem_localBindings

namespace Python

theorem contains_of_parameterName? {parameter name : Cursor}
    (found : parameterName? parameter = some name) : parameter.Contains name := by
  unfold parameterName? at found
  split at found
  · rw [Option.some.inj found]
    exact Cursor.contains_self name
  · exact Cursor.contains_of_childByField? found
  · exact Cursor.contains_of_childByField? found
  · exact Cursor.contains_of_mem_namedChildren (List.mem_of_head? found)
  · exact Cursor.contains_of_mem_namedChildren (List.mem_of_head? found)
  · rcases Option.bind_eq_some_iff.mp found with ⟨first, isFirst, unsplat⟩
    apply (Cursor.contains_of_mem_namedChildren (List.mem_of_head? isFirst)).trans
    unfold unsplat? at unsplat
    split at unsplat
    · exact Cursor.contains_of_mem_namedChildren (List.mem_of_head? unsplat)
    · rw [Option.some.inj unsplat]
      exact Cursor.contains_self name
  · simp at found

theorem contains_of_bindingTarget? {cursor target : Cursor}
    (found : bindingTarget? cursor = some target) : cursor.Contains target := by
  unfold bindingTarget? at found
  split at found
  · exact Cursor.contains_of_childByField? found
  · exact Cursor.contains_of_childByField? found
  · exact Cursor.contains_of_childByField? found
  · rcases Option.bind_eq_some_iff.mp found with ⟨aliased, isAlias, isFirst⟩
    exact (Cursor.contains_of_childByField? isAlias).trans
      (Cursor.contains_of_mem_namedChildren (List.mem_of_head? isFirst))
  · simp at found

theorem declaresWithin : policy.DeclaresWithin where
  parameters := by
    intro function site site_mem
    change site ∈ parameters function at site_mem
    unfold parameters at site_mem
    split at site_mem
    · simp at site_mem
    · next list found =>
        rcases List.mem_filterMap.mp (List.mem_of_mem_filter site_mem) with
          ⟨parameter, parameter_mem, named⟩
        exact ((Cursor.contains_of_childByField? found).trans
          (Cursor.contains_of_mem_namedChildren parameter_mem)).trans
            (contains_of_parameterName? named)
  localBindings := by
    intro cursor site site_mem
    change site ∈ localBindings cursor at site_mem
    unfold localBindings at site_mem
    split at site_mem
    · simp at site_mem
    · next target found =>
        exact (contains_of_bindingTarget? found).trans (contains_of_mem_patternBindings site_mem)

end Python

namespace Go

theorem contains_of_mem_leftIdentifiers {cursor site : Cursor}
    (site_mem : site ∈ leftIdentifiers cursor) : cursor.Contains site := by
  unfold leftIdentifiers at site_mem
  split at site_mem
  · simp at site_mem
  · next list found =>
      exact (Cursor.contains_of_childByField? found).trans
        (Cursor.contains_of_mem_namedChildren (List.mem_of_mem_filter site_mem))

theorem declaresWithin : policy.DeclaresWithin where
  parameters := by
    intro function site site_mem
    change site ∈ parameters function at site_mem
    unfold parameters at site_mem
    split at site_mem
    · simp at site_mem
    · next list found =>
        rcases List.mem_flatMap.mp site_mem with ⟨parameter, parameter_mem, named⟩
        exact ((Cursor.contains_of_childByField? found).trans
          (Cursor.contains_of_mem_namedChildren (List.mem_of_mem_filter parameter_mem))).trans
            (Cursor.contains_of_mem_childrenByField named)
  localBindings := by
    intro cursor site site_mem
    change site ∈ localBindings cursor at site_mem
    unfold localBindings at site_mem
    split at site_mem
    · exact contains_of_mem_leftIdentifiers site_mem
    · exact Cursor.contains_of_mem_childrenByField site_mem
    · split at site_mem
      · simp at site_mem
      · exact contains_of_mem_leftIdentifiers site_mem
    · simp at site_mem

end Go

namespace Java

theorem contains_of_parameterName? {parameter name : Cursor}
    (found : parameterName? parameter = some name) : parameter.Contains name := by
  unfold parameterName? at found
  split at found
  · rw [Option.some.inj found]
    exact Cursor.contains_self name
  · exact Cursor.contains_of_childByField? found
  · rcases Option.bind_eq_some_iff.mp found with ⟨declarator, isFirst, named⟩
    exact (Cursor.contains_of_mem_childrenOfKind (List.mem_of_head? isFirst)).trans
      (Cursor.contains_of_childByField? named)
  · simp at found

theorem contains_of_mem_declaratorNames {declaration site : Cursor}
    (site_mem : site ∈ declaratorNames declaration) : declaration.Contains site := by
  rcases List.mem_filterMap.mp site_mem with ⟨declarator, declarator_mem, named⟩
  exact (Cursor.contains_of_mem_childrenOfKind declarator_mem).trans
    (Cursor.contains_of_childByField? named)

theorem declaresWithin : policy.DeclaresWithin where
  parameters := by
    intro function site site_mem
    change site ∈ parameters function at site_mem
    unfold parameters at site_mem
    split at site_mem
    · simp at site_mem
    · next list found =>
        apply (Cursor.contains_of_childByField? found).trans
        split at site_mem
        · rw [List.mem_singleton.mp site_mem]
          exact Cursor.contains_self list
        · rcases List.mem_filterMap.mp site_mem with ⟨parameter, parameter_mem, named⟩
          exact (Cursor.contains_of_mem_namedChildren parameter_mem).trans
            (contains_of_parameterName? named)
  localBindings := by
    intro cursor site site_mem
    change site ∈ localBindings cursor at site_mem
    unfold localBindings at site_mem
    split at site_mem
    · exact contains_of_mem_declaratorNames site_mem
    · exact Cursor.contains_of_childByField? (Option.mem_toList.mp site_mem)
    · simp at site_mem

end Java

theorem declaresWithin_policyFor (language : Language) : (policyFor language).DeclaresWithin := by
  cases language with
  | python => exact Python.declaresWithin
  | javaScript => exact JavaScript.declaresWithin
  | typeScript => exact TypeScript.declaresWithin
  | tsx => exact TypeScript.declaresWithin
  | go => exact Go.declaresWithin
  | java => exact Java.declaresWithin

end CodeFacts.Unused
