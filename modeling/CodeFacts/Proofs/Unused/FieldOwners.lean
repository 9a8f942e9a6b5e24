import CodeFacts.Proofs.Unused.DeclarationSites
import CodeFacts.Proofs.Unused.Fields

/-!
# Which class a private field belongs to

In JavaScript, TypeScript, Go and Java a private field is declared a few steps below its class, and
the declaration leads back to that class. So do the attributes that the statements of a class body
assign in Python. But what is assigned through `self` is looked for in all functions in the body of
a class, and those of nested classes are among them. Such an attribute belongs to every class around
the one that assigns it, and may be reported for each of them.
-/

namespace CodeFacts

namespace Cursor

theorem mem_children_of_childByField? {cursor child : Cursor} {field : String}
    (found : cursor.childByField? field = some child) : child ∈ cursor.children :=
  List.mem_of_find?_eq_some found

theorem field_of_childByField? {cursor child : Cursor} {field : String}
    (found : cursor.childByField? field = some child) : child.node.field = some field := by
  simpa using List.find?_some found

theorem eq_of_childByField? {first second child : Cursor} {field field' : String}
    (found : first.childByField? field = some child)
    (found' : second.childByField? field' = some child) : first = second :=
  eq_of_mem_children (mem_children_of_childByField? found) (mem_children_of_childByField? found')

/-- A node is reached in one step down or in two. -/
def WithinTwoSteps (start cursor : Cursor) : Prop :=
  cursor ∈ start.children ∨ ∃ middle ∈ start.children, cursor ∈ middle.children

theorem WithinTwoSteps.contains {start cursor : Cursor} (within : start.WithinTwoSteps cursor) :
    start.Contains cursor := by
  rcases within with direct | ⟨middle, middle_mem, below⟩
  · exact contains_child direct
  · exact (contains_child below).of_child middle_mem

/-- Two nodes are the same, or one is a child of the other. -/
def IsAdjacent (first second : Cursor) : Prop :=
  first = second ∨ first ∈ second.children ∨ second ∈ first.children

theorem isAdjacent_of_withinTwoSteps {first second cursor : Cursor}
    (within : first.WithinTwoSteps cursor) (within' : second.WithinTwoSteps cursor) :
    first.IsAdjacent second := by
  rcases within with direct | ⟨middle, middle_mem, below⟩
  · rcases within' with direct' | ⟨middle', middle_mem', below'⟩
    · exact Or.inl (eq_of_mem_children direct direct')
    · rw [eq_of_mem_children direct below']
      exact Or.inr (Or.inl middle_mem')
  · rcases within' with direct' | ⟨middle', middle_mem', below'⟩
    · rw [eq_of_mem_children direct' below]
      exact Or.inr (Or.inr middle_mem)
    · obtain rfl := eq_of_mem_children below below'
      exact Or.inl (eq_of_mem_children middle_mem middle_mem')

/-- The parents of adjacent nodes are adjacent. -/
theorem IsAdjacent.parents {first second above above' : Cursor} (adjacent : first.IsAdjacent second)
    (child_mem : first ∈ above.children) (child_mem' : second ∈ above'.children) :
    above.IsAdjacent above' := by
  rcases adjacent with rfl | below | below
  · exact Or.inl (eq_of_mem_children child_mem child_mem')
  · rw [eq_of_mem_children child_mem below]
    exact Or.inr (Or.inl child_mem')
  · rw [eq_of_mem_children child_mem' below]
    exact Or.inr (Or.inr child_mem)

end Cursor

namespace Unused

/-- Classes with adjacent bodies are the same, unless one of them is itself the body of the
other. -/
theorem eq_of_isAdjacent {first second body body' : Cursor} (hasBody : body? first = some body)
    (hasBody' : body? second = some body') (apart : body? first ≠ some second)
    (apart' : body? second ≠ some first) (adjacent : body.IsAdjacent body') : first = second := by
  have inFirst := Cursor.mem_children_of_childByField? hasBody
  have inSecond := Cursor.mem_children_of_childByField? hasBody'
  rcases adjacent with rfl | below | below
  · exact Cursor.eq_of_mem_children inFirst inSecond
  · rw [Cursor.eq_of_mem_children inFirst below] at apart'
    exact absurd hasBody' apart'
  · rw [Cursor.eq_of_mem_children inSecond below] at apart
    exact absurd hasBody apart

namespace JavaScript

theorem exists_of_mem_privateFields {classNode site : Cursor}
    (site_mem : site ∈ privateFields classNode) :
    ∃ body field, body? classNode = some body ∧ field ∈ body.childrenOfKind "field_definition" ∧
      field.childByField? "property" = some site ∧ site.kind = "private_property_identifier" := by
  unfold privateFields at site_mem
  split at site_mem
  · simp at site_mem
  · next body hasBody =>
      rcases List.mem_filter.mp site_mem with ⟨named, kind⟩
      rcases List.mem_filterMap.mp named with ⟨field, field_mem, found⟩
      exact ⟨body, field, hasBody, field_mem, found, by simpa using kind⟩

theorem eq_of_mem_privateFields {first second site : Cursor}
    (site_mem : site ∈ privateFields first) (site_mem' : site ∈ privateFields second) :
    first = second := by
  rcases exists_of_mem_privateFields site_mem with ⟨body, field, hasBody, field_mem, found, -⟩
  rcases exists_of_mem_privateFields site_mem' with ⟨body', field', hasBody', field_mem', found', -⟩
  obtain rfl := Cursor.eq_of_childByField? found found'
  obtain rfl := Cursor.eq_of_mem_children (List.mem_of_mem_filter field_mem)
    (List.mem_of_mem_filter field_mem')
  exact Cursor.eq_of_childByField? hasBody hasBody'

end JavaScript

namespace TypeScript

/-- An identifier names a constructor parameter below a class body. -/
def NamesParameter (body site : Cursor) : Prop :=
  ∃ method ∈ body.childrenOfKind "method_definition",
    ∃ parameter ∈ Ecma.parameterNodes method, parameter.childByField? "pattern" = some site

theorem exists_of_mem_privateFields {classNode site : Cursor}
    (site_mem : site ∈ privateFields classNode) :
    ∃ body, body? classNode = some body ∧
      ((∃ field ∈ body.childrenOfKind "public_field_definition",
          field.childByField? "name" = some site) ∨
        (site.kind = "identifier" ∧ NamesParameter body site)) := by
  unfold privateFields at site_mem
  split at site_mem
  · simp at site_mem
  · next body hasBody =>
      refine ⟨body, hasBody, ?_⟩
      rw [List.mem_mergeSort, List.mem_append] at site_mem
      rcases site_mem with isField | isParameter
      · rcases List.mem_filterMap.mp isField with ⟨field, field_mem, found⟩
        left
        refine ⟨field, field_mem, ?_⟩
        unfold privateFieldName? at found
        split at found
        · simp at found
        · next name named =>
            split at found
            · rw [named, found]
            · simp at found
      · rcases List.mem_filterMap.mp isParameter with ⟨parameter, parameter_mem, found⟩
        rcases List.mem_flatMap.mp parameter_mem with ⟨method, method_mem, listed⟩
        right
        unfold privateParameterName? at found
        split at found
        · split at found
          · simp at found
          · next pattern named =>
              split at found
              · next isIdentifier =>
                  obtain rfl := Option.some.inj found
                  exact ⟨by simpa using isIdentifier, method, List.mem_of_mem_filter method_mem,
                    parameter, listed, named⟩
              · simp at found
        · simp at found

theorem withinTwoSteps_of_mem_parameterNodes {function parameter : Cursor}
    (parameter_mem : parameter ∈ Ecma.parameterNodes function) :
    function.WithinTwoSteps parameter := by
  unfold Ecma.parameterNodes at parameter_mem
  split at parameter_mem
  · next single found =>
      rw [List.mem_singleton.mp parameter_mem]
      exact Or.inl (Cursor.mem_children_of_childByField? found)
  · split at parameter_mem
    · simp at parameter_mem
    · next list found =>
        exact Or.inr ⟨list, Cursor.mem_children_of_childByField? found,
          List.mem_of_mem_filter parameter_mem⟩

theorem isAdjacent_of_namesParameter {body body' site : Cursor} (named : NamesParameter body site)
    (named' : NamesParameter body' site) : body.IsAdjacent body' := by
  rcases named with ⟨method, method_mem, parameter, parameter_mem, found⟩
  rcases named' with ⟨method', method_mem', parameter', parameter_mem', found'⟩
  obtain rfl := Cursor.eq_of_childByField? found found'
  have methods := Cursor.isAdjacent_of_withinTwoSteps
    (withinTwoSteps_of_mem_parameterNodes parameter_mem)
    (withinTwoSteps_of_mem_parameterNodes parameter_mem')
  exact methods.parents (List.mem_of_mem_filter method_mem) (List.mem_of_mem_filter method_mem')

theorem eq_of_mem_privateFields {first second site : Cursor}
    (site_mem : site ∈ privateFields first) (site_mem' : site ∈ privateFields second)
    (apart : body? first ≠ some second) (apart' : body? second ≠ some first) : first = second := by
  rcases exists_of_mem_privateFields site_mem with ⟨body, hasBody, declared⟩
  rcases exists_of_mem_privateFields site_mem' with ⟨body', hasBody', declared'⟩
  apply eq_of_isAdjacent hasBody hasBody' apart apart'
  rcases declared with ⟨field, field_mem, found⟩ | ⟨-, named⟩
  · rcases declared' with ⟨field', field_mem', found'⟩ | ⟨-, method, -, parameter, -, found'⟩
    · obtain rfl := Cursor.eq_of_childByField? found found'
      exact Or.inl (Cursor.eq_of_mem_children (List.mem_of_mem_filter field_mem)
        (List.mem_of_mem_filter field_mem'))
    · have fields := (Cursor.field_of_childByField? found).symm.trans
        (Cursor.field_of_childByField? found')
      simp at fields
  · rcases declared' with ⟨field', -, found'⟩ | ⟨-, named'⟩
    · rcases named with ⟨method, -, parameter, -, found⟩
      have fields := (Cursor.field_of_childByField? found).symm.trans
        (Cursor.field_of_childByField? found')
      simp at fields
    · exact isAdjacent_of_namesParameter named named'

end TypeScript

namespace Java

/-- A member stands in a class body, or in the part of an enum's body that holds its members. -/
def IsMember (body member : Cursor) : Prop :=
  member ∈ body.children ∨
    ∃ group ∈ body.childrenOfKind "enum_body_declarations", member ∈ group.children

theorem exists_of_mem_privateFields {classNode site : Cursor}
    (site_mem : site ∈ privateFields classNode) :
    site.text ≠ "serialVersionUID" ∧
      ∃ body member declarator, body? classNode = some body ∧ IsMember body member ∧
        member.kind = "field_declaration" ∧
        declarator ∈ member.childrenOfKind "variable_declarator" ∧
        declarator.childByField? "name" = some site := by
  rcases List.mem_filter.mp site_mem with ⟨declared, text⟩
  refine ⟨by simpa using text, ?_⟩
  rcases List.mem_flatMap.mp declared with ⟨member, member_mem, named⟩
  rcases List.mem_filterMap.mp named with ⟨declarator, declarator_mem, found⟩
  rcases List.mem_filter.mp member_mem with ⟨isMember, isField⟩
  rw [Bool.and_eq_true, beq_iff_eq] at isField
  unfold members at isMember
  split at isMember
  · simp at isMember
  · next body hasBody =>
      refine ⟨body, member, declarator, hasBody, ?_, isField.1, declarator_mem, found⟩
      rcases List.mem_flatMap.mp isMember with ⟨child, child_mem, inside⟩
      have inBody : child ∈ body.children := List.mem_of_mem_filter child_mem
      split at inside
      · next isGroup =>
          exact Or.inr ⟨child, List.mem_filter.mpr ⟨inBody, isGroup⟩,
            List.mem_of_mem_filter inside⟩
      · rw [List.mem_singleton.mp inside]
        exact Or.inl inBody

theorem IsMember.withinTwoSteps {body member : Cursor} (isMember : IsMember body member) :
    body.WithinTwoSteps member := by
  rcases isMember with direct | ⟨group, group_mem, inside⟩
  · exact Or.inl direct
  · exact Or.inr ⟨group, List.mem_of_mem_filter group_mem, inside⟩

theorem eq_of_mem_privateFields {first second site : Cursor}
    (site_mem : site ∈ privateFields first) (site_mem' : site ∈ privateFields second)
    (apart : body? first ≠ some second) (apart' : body? second ≠ some first) : first = second := by
  rcases exists_of_mem_privateFields site_mem with
    ⟨-, body, member, declarator, hasBody, isMember, -, declarator_mem, found⟩
  rcases exists_of_mem_privateFields site_mem' with
    ⟨-, body', member', declarator', hasBody', isMember', -, declarator_mem', found'⟩
  obtain rfl := Cursor.eq_of_childByField? found found'
  obtain rfl := Cursor.eq_of_mem_children (List.mem_of_mem_filter declarator_mem)
    (List.mem_of_mem_filter declarator_mem')
  exact eq_of_isAdjacent hasBody hasBody' apart apart'
    (Cursor.isAdjacent_of_withinTwoSteps isMember.withinTwoSteps isMember'.withinTwoSteps)

end Java

namespace Go

theorem exists_of_mem_fieldDeclarations {specification declaration : Cursor}
    (declaration_mem : declaration ∈ fieldDeclarations specification) :
    declaration.kind = "field_declaration" ∧
      ∃ struct list, structType? specification = some struct ∧ list ∈ struct.children ∧
        declaration ∈ list.children := by
  unfold fieldDeclarations at declaration_mem
  split at declaration_mem
  · simp at declaration_mem
  · next struct isStruct =>
      split at declaration_mem
      · simp at declaration_mem
      · next list isList =>
          rcases List.mem_filter.mp declaration_mem with ⟨inList, kind⟩
          exact ⟨by simpa using kind, struct, list, isStruct,
            List.mem_of_mem_filter (List.mem_of_head? isList), inList⟩

theorem childByField?_of_structType? {specification struct : Cursor}
    (isStruct : structType? specification = some struct) :
    specification.childByField? "type" = some struct := by
  unfold structType? at isStruct
  split at isStruct
  · simp at isStruct
  · next type found =>
      split at isStruct
      · rw [found, isStruct]
      · simp at isStruct

theorem mem_privateFields_iff {specification site : Cursor} :
    site ∈ privateFields specification ↔
      isUnexported site.text = true ∧
        ∃ declaration ∈ fieldDeclarations specification,
          site ∈ declaration.childrenByField "name" := by
  simp [privateFields, and_comm]

theorem eq_of_mem_privateFields {first second site : Cursor}
    (site_mem : site ∈ privateFields first) (site_mem' : site ∈ privateFields second) :
    first = second := by
  rcases mem_privateFields_iff.mp site_mem with ⟨-, declaration, declaration_mem, named⟩
  rcases mem_privateFields_iff.mp site_mem' with ⟨-, declaration', declaration_mem', named'⟩
  obtain rfl := Cursor.eq_of_mem_children (List.mem_of_mem_filter named)
    (List.mem_of_mem_filter named')
  rcases exists_of_mem_fieldDeclarations declaration_mem with
    ⟨-, struct, list, isStruct, list_mem, inList⟩
  rcases exists_of_mem_fieldDeclarations declaration_mem' with
    ⟨-, struct', list', isStruct', list_mem', inList'⟩
  obtain rfl := Cursor.eq_of_mem_children inList inList'
  obtain rfl := Cursor.eq_of_mem_children list_mem list_mem'
  exact Cursor.eq_of_childByField? (childByField?_of_structType? isStruct)
    (childByField?_of_structType? isStruct')

end Go

namespace Python

/-- A node that is neither a class nor an access to an attribute. -/
def IsPlain (cursor : Cursor) : Prop :=
  cursor.kind ≠ "class_definition" ∧ cursor.kind ≠ "attribute"

theorem isPlain_of_isPatternPart {above part : Cursor}
    (isPart : IsPatternPart targetTable above part) : part ∈ above.children ∧ IsPlain above := by
  refine ⟨(PatternPart.parts_sublist _ above).mem isPart, ?_, ?_⟩
  all_goals
    intro kind
    rw [IsPatternPart, kind] at isPart
    exact absurd isPart List.not_mem_nil

/-- The way from a statement down to the class attribute that it assigns passes plain nodes only. -/
theorem exists_way_of_mem_classAttributes {body site : Cursor}
    (site_mem : site ∈ classAttributes body) :
    site.kind = "identifier" ∧
      ∃ statement ∈ body.children, statement.kind = "expression_statement" ∧
        Relation.ReflTransGen (fun above child => child ∈ above.children ∧ IsPlain above)
          statement site := by
  rcases List.mem_flatMap.mp site_mem with ⟨statement, statement_mem, inStatement⟩
  split at inStatement
  · next isStatement =>
      rcases List.mem_flatMap.mp inStatement with ⟨assignment, assignment_mem, inAssignment⟩
      split at inAssignment
      · next isAssignment =>
          split at inAssignment
          · simp at inAssignment
          · next left found =>
              rw [beq_iff_eq] at isStatement isAssignment
              rcases way_of_mem_patternBindings inAssignment with ⟨binds, way⟩
              have below := Relation.ReflTransGen.mono
                (fun above part isPart => isPlain_of_isPatternPart isPart) _ _ way
              refine ⟨?_, statement, List.mem_of_mem_filter statement_mem, isStatement, ?_⟩
              · by_contra other
                simp only [targetTable, beq_iff_eq, other, if_false] at binds
                split at binds <;> simp at binds
              · apply Relation.ReflTransGen.head (b := assignment)
                · exact ⟨List.mem_of_mem_filter assignment_mem, by simp [IsPlain, isStatement]⟩
                · apply Relation.ReflTransGen.head (b := left)
                  · exact ⟨Cursor.mem_children_of_childByField? found,
                      by simp [IsPlain, isAssignment]⟩
                  · exact below
      · simp at inAssignment
  · simp at inStatement

theorem contains_of_mem_assignedAttributes {assignment access : Cursor}
    (access_mem : access ∈ assignedAttributes assignment) :
    assignment.Contains access ∧ access.kind = "attribute" := by
  unfold assignedAttributes at access_mem
  split at access_mem
  · simp at access_mem
  · next left found =>
      have below := Cursor.contains_of_childByField? found
      split at access_mem
      · next isAttribute =>
          rw [List.mem_singleton.mp access_mem]
          exact ⟨below, by simpa using isAttribute⟩
      · rcases List.mem_filter.mp access_mem with ⟨part_mem, isAttribute⟩
        exact ⟨below.trans (Cursor.contains_of_mem_namedChildren part_mem),
          by simpa using isAttribute⟩

theorem exists_of_mem_instanceAttributes {method site : Cursor}
    (site_mem : site ∈ instanceAttributes method) :
    ∃ access, method.Contains access ∧ access.kind = "attribute" ∧
      access.childByField? "attribute" = some site := by
  rcases List.mem_flatMap.mp site_mem with ⟨assignment, assignment_mem, assigned⟩
  rcases List.mem_filterMap.mp assigned with ⟨access, access_mem, found⟩
  have inMethod : method.Contains assignment :=
    (Cursor.mem_descendantsOfKind_iff.mp assignment_mem).1
  rcases contains_of_mem_assignedAttributes access_mem with ⟨inAssignment, isAttribute⟩
  refine ⟨access, inMethod.trans inAssignment, isAttribute, ?_⟩
  unfold selfAttribute? at found
  split at found
  · simp at found
  · split at found
    · exact found
    · simp at found

theorem mem_methods_iff {classNode method : Cursor} :
    method ∈ methods classNode ↔
      ∃ body, body? classNode = some body ∧ body.Contains method ∧
        method.kind = "function_definition" := by
  unfold methods body?
  cases classNode.childByField? "body" with
  | none => simp
  | some body => simp [Cursor.mem_descendantsOfKind_iff]

/-- A function in the body of a class assigns to an attribute through the instance. -/
def AssignsAttribute (classNode site : Cursor) : Prop :=
  ∃ method ∈ methods classNode, site ∈ instanceAttributes method

theorem AssignsAttribute.contains {classNode site : Cursor}
    (assigns : AssignsAttribute classNode site) :
    ∃ body, body? classNode = some body ∧ body.Contains site := by
  rcases assigns with ⟨method, method_mem, site_mem⟩
  rcases mem_methods_iff.mp method_mem with ⟨body, hasBody, inBody, -⟩
  rcases exists_of_mem_instanceAttributes site_mem with ⟨access, inMethod, -, found⟩
  exact ⟨body, hasBody, (inBody.trans inMethod).trans (Cursor.contains_of_childByField? found)⟩

theorem mem_privateFields_iff {classNode site : Cursor} :
    site ∈ privateFields classNode ↔
      isPrivate site.text = true ∧
        ((∃ body, body? classNode = some body ∧ site ∈ classAttributes body) ∨
          AssignsAttribute classNode site) := by
  unfold privateFields AssignsAttribute methods body?
  cases classNode.childByField? "body" with
  | none => simp
  | some body => simp [and_comm, and_or_left]

/-- A class stands in the body of another one and assigns to a private attribute. -/
structure InnerField (outer inner site : Cursor) : Prop where
  inside : ∃ body, body? outer = some body ∧ body.Contains inner
  assigned : AssignsAttribute inner site
  isPrivate : isPrivate site.text = true

theorem InnerField.mem_privateFields {outer inner site : Cursor}
    (innerField : InnerField outer inner site) :
    site ∈ privateFields outer ∧ site ∈ privateFields inner := by
  rcases innerField with ⟨⟨body, hasBody, inside⟩, assigned, isPrivate⟩
  refine ⟨mem_privateFields_iff.mpr ⟨isPrivate, Or.inr ?_⟩,
    mem_privateFields_iff.mpr ⟨isPrivate, Or.inr assigned⟩⟩
  rcases assigned with ⟨method, method_mem, site_mem⟩
  rcases mem_methods_iff.mp method_mem with ⟨innerBody, hasInnerBody, inInner, isFunction⟩
  have inOuter := (inside.trans (Cursor.contains_of_childByField? hasInnerBody)).trans inInner
  exact ⟨method, mem_methods_iff.mpr ⟨body, hasBody, inOuter, isFunction⟩, site_mem⟩

/-- Every class around a class attribute contains the class that declares it. -/
theorem contains_of_mem_classAttributes {owner other body site : Cursor}
    (hasBody : body? owner = some body) (site_mem : site ∈ classAttributes body)
    (isClass : other.kind = "class_definition") (apart : body? owner ≠ some other)
    (contains : other.Contains site) : other.Contains owner := by
  rcases exists_way_of_mem_classAttributes site_mem with
    ⟨isIdentifier, statement, statement_mem, isStatement, way⟩
  rcases Cursor.eq_or_or_contains_of_way way contains with rfl | isPlain | aboveStatement
  · simp [isIdentifier] at isClass
  · exact absurd isClass isPlain.1
  · rcases aboveStatement.eq_or_parent statement_mem with rfl | aboveBody
    · simp [isStatement] at isClass
    · rcases aboveBody.eq_or_parent (Cursor.mem_children_of_childByField? hasBody) with rfl | above
      · exact absurd hasBody apart
      · exact above

theorem not_mem_children_of_mem_classAttributes {body site access : Cursor}
    (site_mem : site ∈ classAttributes body) (isAttribute : access.kind = "attribute") :
    site ∉ access.children := by
  intro below
  rcases exists_way_of_mem_classAttributes site_mem with
    ⟨isIdentifier, statement, -, isStatement, way⟩
  rcases Relation.ReflTransGen.cases_tail way with rfl | ⟨above, -, child_mem, isPlain⟩
  · simp [isIdentifier] at isStatement
  · rw [Cursor.eq_of_mem_children child_mem below] at isPlain
    exact isPlain.2 isAttribute

theorem not_assignsAttribute_of_mem_classAttributes {body classNode site : Cursor}
    (site_mem : site ∈ classAttributes body) : ¬AssignsAttribute classNode site := by
  rintro ⟨method, -, assigned⟩
  rcases exists_of_mem_instanceAttributes assigned with ⟨access, -, isAttribute, found⟩
  exact not_mem_children_of_mem_classAttributes site_mem isAttribute
    (Cursor.mem_children_of_childByField? found)

theorem contains_of_mem_privateFields {classNode site : Cursor}
    (site_mem : site ∈ privateFields classNode) : classNode.Contains site := by
  rcases (mem_privateFields_iff.mp site_mem).2 with ⟨body, hasBody, inBody⟩ | assigned
  · rcases exists_way_of_mem_classAttributes inBody with ⟨-, statement, statement_mem, -, way⟩
    have below : statement.Contains site :=
      Relation.ReflTransGen.mono (fun _ _ step => step.1) _ _ way
    exact (Cursor.contains_of_childByField? hasBody).trans (below.of_child statement_mem)
  · rcases assigned.contains with ⟨body, hasBody, contains⟩
    exact (Cursor.contains_of_childByField? hasBody).trans contains

/-- A class that contains another one and has something of it in its body, has it in its body. -/
theorem body_contains_of_contains {outer inner body site : Cursor}
    (hasBody : body? outer = some body) (around : outer.Contains inner) (different : outer ≠ inner)
    (contains : body.Contains site) (contains' : inner.Contains site) : body.Contains inner := by
  rcases contains.total contains' with inside | aboveBody
  · exact inside
  · rcases aboveBody.eq_or_parent (Cursor.mem_children_of_childByField? hasBody) with rfl | above
    · exact Cursor.contains_self inner
    · exact absurd (around.antisymm above) different

/-- Of two classes that assign to one attribute, one stands in the body of the other. -/
theorem innerField_of_assignsAttribute {first second site : Cursor} (different : first ≠ second)
    (assigns : AssignsAttribute first site) (assigns' : AssignsAttribute second site)
    (isPrivate : isPrivate site.text = true) :
    InnerField first second site ∨ InnerField second first site := by
  rcases assigns.contains with ⟨body, hasBody, contains⟩
  rcases assigns'.contains with ⟨body', hasBody', contains'⟩
  have around : first.Contains site := (Cursor.contains_of_childByField? hasBody).trans contains
  have around' : second.Contains site := (Cursor.contains_of_childByField? hasBody').trans contains'
  rcases around.total around' with outside | outside
  · have inside := body_contains_of_contains hasBody outside different contains around'
    exact Or.inl ⟨⟨body, hasBody, inside⟩, assigns', isPrivate⟩
  · have inside := body_contains_of_contains hasBody' outside different.symm contains' around
    exact Or.inr ⟨⟨body', hasBody', inside⟩, assigns, isPrivate⟩

theorem kind_of_role {cursor : Cursor} (isClass : role cursor = .classLike) :
    cursor.kind = "class_definition" := by
  unfold role at isClass
  split at isClass <;> simp_all

theorem mem_privateFields_and_iff {first second site : Cursor} (isClass : role first = .classLike)
    (isClass' : role second = .classLike) (different : first ≠ second)
    (apart : body? first ≠ some second) (apart' : body? second ≠ some first) :
    site ∈ privateFields first ∧ site ∈ privateFields second ↔
      InnerField first second site ∨ InnerField second first site := by
  constructor
  · rintro ⟨site_mem, site_mem'⟩
    have contains := contains_of_mem_privateFields site_mem
    have contains' := contains_of_mem_privateFields site_mem'
    rcases mem_privateFields_iff.mp site_mem with ⟨isPrivate, ⟨body, hasBody, inBody⟩ | assigns⟩
    · rcases mem_privateFields_iff.mp site_mem' with ⟨-, ⟨body', hasBody', inBody'⟩ | assigns'⟩
      · have above := contains_of_mem_classAttributes hasBody inBody (kind_of_role isClass') apart
          contains'
        have above' := contains_of_mem_classAttributes hasBody' inBody' (kind_of_role isClass)
          apart' contains
        exact absurd (above'.antisymm above) different
      · exact absurd assigns' (not_assignsAttribute_of_mem_classAttributes inBody)
    · rcases mem_privateFields_iff.mp site_mem' with ⟨-, ⟨body', hasBody', inBody'⟩ | assigns'⟩
      · exact absurd assigns (not_assignsAttribute_of_mem_classAttributes inBody')
      · exact innerField_of_assignsAttribute different assigns assigns' isPrivate
  · rintro (innerField | innerField)
    · exact innerField.mem_privateFields
    · exact innerField.mem_privateFields.symm

end Python

theorem eq_of_mem_privateFields {language : Language} (notPython : language ≠ .python)
    {first second site : Cursor} (site_mem : site ∈ (policyFor language).privateFields first)
    (site_mem' : site ∈ (policyFor language).privateFields second)
    (apart : body? first ≠ some second) (apart' : body? second ≠ some first) : first = second := by
  cases language with
  | python => exact absurd rfl notPython
  | javaScript => exact JavaScript.eq_of_mem_privateFields site_mem site_mem'
  | typeScript => exact TypeScript.eq_of_mem_privateFields site_mem site_mem' apart apart'
  | tsx => exact TypeScript.eq_of_mem_privateFields site_mem site_mem' apart apart'
  | go => exact Go.eq_of_mem_privateFields site_mem site_mem'
  | java => exact Java.eq_of_mem_privateFields site_mem site_mem' apart apart'

/-- A declaration belongs to the private fields of two classes exactly if Python finds it assigned
through the instance in one class that stands in the body of the other, and only such a declaration
can be reported for both. No grammar makes a class the very body of another class. -/
theorem privateField_shared_iff_inner_class_assigns_it (language : Language)
    {first second : Cursor} (isClass : (policyFor language).role first = .classLike)
    (isClass' : (policyFor language).role second = .classLike) (different : first ≠ second)
    (apart : body? first ≠ some second) (apart' : body? second ≠ some first) (site : Cursor) :
    (site ∈ (policyFor language).privateFields first ∧
        site ∈ (policyFor language).privateFields second ↔
      language = .python ∧
        (Python.InnerField first second site ∨ Python.InnerField second first site)) ∧
    ((policyFor language).ReportsField first site → (policyFor language).ReportsField second site →
      language = .python ∧
        (Python.InnerField first second site ∨ Python.InnerField second first site)) := by
  have shared : site ∈ (policyFor language).privateFields first ∧
        site ∈ (policyFor language).privateFields second ↔
      language = .python ∧
        (Python.InnerField first second site ∨ Python.InnerField second first site) := by
    by_cases python : language = .python
    · subst python
      simp only [true_and]
      exact Python.mem_privateFields_and_iff isClass isClass' different apart apart'
    · simp only [python, false_and, iff_false]
      rintro ⟨site_mem, site_mem'⟩
      exact different (eq_of_mem_privateFields python site_mem site_mem' apart apart')
  refine ⟨shared, ?_⟩
  intro reports reports'
  exact shared.mp ⟨reports.declared.mem, reports'.declared.mem⟩

/-- The statement `self._x = value` at a column of a line. -/
def selfAssignment (start line column : Nat) (value : String) : Node :=
  let span (first last : Nat) : Span :=
    ⟨start + first, start + last, line, column + first, line, column + last⟩
  let object : Node := ⟨"identifier", true, some "object", span 0 4, "self", []⟩
  let name : Node := ⟨"identifier", true, some "attribute", span 5 7, "_x", []⟩
  let left : Node := ⟨"attribute", true, some "left", span 0 7, "self._x", [object, name]⟩
  let right : Node := ⟨"integer", true, some "right", span 10 11, value, []⟩
  let text := "self._x = " ++ value
  ⟨"expression_statement", true, none, span 0 11, text,
    [⟨"assignment", true, none, span 0 11, text, [left, right]⟩]⟩

/-- The classes
```
class A:
    class B:
        def f(self):
            self._x = 1
```
-/
def nestedClasses : Node :=
  let statement := selfAssignment 55 4 13 "1"
  let self : Node := ⟨"identifier", true, none, ⟨36, 40, 3, 15, 3, 19⟩, "self", []⟩
  let method : Node :=
    ⟨"function_definition", true, none, ⟨30, 66, 3, 9, 4, 24⟩,
      "def f(self):\n            self._x = 1",
      [⟨"identifier", true, some "name", ⟨34, 35, 3, 13, 3, 14⟩, "f", []⟩,
        ⟨"parameters", true, some "parameters", ⟨35, 41, 3, 14, 3, 20⟩, "(self)", [self]⟩,
        ⟨"block", true, some "body", ⟨55, 66, 4, 13, 4, 24⟩, "self._x = 1", [statement]⟩]⟩
  let inner : Node :=
    ⟨"class_definition", true, none, ⟨13, 66, 2, 5, 4, 24⟩, "class B:\n        " ++ method.text,
      [⟨"identifier", true, some "name", ⟨19, 20, 2, 11, 2, 12⟩, "B", []⟩,
        ⟨"block", true, some "body", ⟨30, 66, 3, 9, 4, 24⟩, method.text, [method]⟩]⟩
  let outer : Node :=
    ⟨"class_definition", true, none, ⟨0, 66, 1, 1, 4, 24⟩, "class A:\n    " ++ inner.text,
      [⟨"identifier", true, some "name", ⟨6, 7, 1, 7, 1, 8⟩, "A", []⟩,
        ⟨"block", true, some "body", ⟨13, 66, 2, 5, 4, 24⟩, inner.text, [inner]⟩]⟩
  ⟨"module", true, none, ⟨0, 67, 1, 1, 5, 1⟩, outer.text ++ "\n", [outer]⟩

/-- Cursors of one tree that list the same address have a node in common. -/
theorem exists_mem_of_mem_addresses {root : Cursor} {first second : List Cursor} {place : List Nat}
    (inside : ∀ cursor ∈ first, root.Contains cursor)
    (inside' : ∀ cursor ∈ second, root.Contains cursor)
    (listed : place ∈ first.map Cursor.address) (listed' : place ∈ second.map Cursor.address) :
    ∃ cursor, cursor ∈ first ∧ cursor ∈ second := by
  rcases List.mem_map.mp listed with ⟨cursor, cursor_mem, address⟩
  rcases List.mem_map.mp listed' with ⟨cursor', cursor_mem', address'⟩
  have same := (inside cursor cursor_mem).eq_of_address (inside' cursor' cursor_mem')
    (address.trans address'.symm)
  exact ⟨cursor, cursor_mem, same ▸ cursor_mem'⟩

/-- The two classes have the attribute in common, and neither is the body of the other. -/
theorem exists_shared_of_nestedClasses :
    ∃ outer inner site, (Cursor.ofRoot nestedClasses).Contains outer ∧
      (Cursor.ofRoot nestedClasses).Contains inner ∧ Python.role outer = .classLike ∧
      Python.role inner = .classLike ∧ outer ≠ inner ∧ body? outer ≠ some inner ∧
      body? inner ≠ some outer ∧ site ∈ Python.privateFields outer ∧
      site ∈ Python.privateFields inner := by
  obtain ⟨outer, isOuter⟩ : ∃ outer, (Cursor.ofRoot nestedClasses).descend? [0] = some outer :=
    ⟨_, rfl⟩
  obtain ⟨inner, isInner⟩ :
      ∃ inner, (Cursor.ofRoot nestedClasses).descend? [0, 1, 0] = some inner := ⟨_, rfl⟩
  have outside := Cursor.contains_of_descend? isOuter
  have inside := Cursor.contains_of_descend? isInner
  have shared := @exists_mem_of_mem_addresses (Cursor.ofRoot nestedClasses)
    (Python.privateFields outer) (Python.privateFields inner) [1, 0, 0, 0, 2, 0, 1, 0, 1, 0]
    (fun _ site_mem => outside.trans (Python.contains_of_mem_privateFields site_mem))
    (fun _ site_mem => inside.trans (Python.contains_of_mem_privateFields site_mem))
  obtain rfl := Option.some.inj isOuter
  obtain rfl := Option.some.inj isInner
  rcases shared (by decide +kernel) (by decide +kernel) with ⟨site, site_mem, site_mem'⟩
  refine ⟨_, _, site, outside, inside, rfl, rfl, ?_, ?_, ?_, site_mem, site_mem'⟩
  · exact fun same => absurd (congrArg Cursor.address same) (by decide)
  · exact fun same => absurd (congrArg (Option.map Cursor.kind) same) (by decide)
  · exact fun same => absurd (congrArg (Option.map Cursor.kind) same) (by decide)

theorem privateField_shared_iff_inner_class_assigns_it_of_nestedClasses :
    ∃ outer inner site, (policyFor .python).role outer = .classLike ∧
      (policyFor .python).role inner = .classLike ∧ outer ≠ inner ∧ body? outer ≠ some inner ∧
      body? inner ≠ some outer ∧
      (Python.InnerField outer inner site ∨ Python.InnerField inner outer site) := by
  rcases exists_shared_of_nestedClasses with
    ⟨outer, inner, site, -, -, isClass, isClass', different, apart, apart', site_mem, site_mem'⟩
  have shared := privateField_shared_iff_inner_class_assigns_it .python isClass isClass' different
    apart apart' site
  exact ⟨outer, inner, site, isClass, isClass', different, apart, apart',
    (shared.1.mp ⟨site_mem, site_mem'⟩).2⟩

/-- The attribute that the inner class assigns belongs to both classes and is reported for both. -/
theorem nestedClasses_report_attribute_twice :
    (∃ outer inner site, (Cursor.ofRoot nestedClasses).Contains outer ∧
        (Cursor.ofRoot nestedClasses).Contains inner ∧
        (policyFor .python).role outer = .classLike ∧
        (policyFor .python).role inner = .classLike ∧ outer ≠ inner ∧
        site ∈ (policyFor .python).privateFields outer ∧
        site ∈ (policyFor .python).privateFields inner) ∧
      issuesOf .python {} "a.py" nestedClasses =
        ["A", "B"].map fun owner => ⟨.unusedPrivateField, "a.py", 4, "_x", some owner⟩ := by
  constructor
  · rcases exists_shared_of_nestedClasses with
      ⟨outer, inner, site, outside, inside, isClass, isClass', different, -, -, site_mem, site_mem'⟩
    exact ⟨outer, inner, site, outside, inside, isClass, isClass', different, site_mem, site_mem'⟩
  · have found : (policyFor .python).unusedSymbols {} nestedClasses =
        ["A", "B"].map fun owner => ⟨"_x", .privateField, 4, some owner⟩ := by
      decide +kernel
    rw [issuesOf_eq_of_sorted found (by decide)]
    decide

end Unused

end CodeFacts
