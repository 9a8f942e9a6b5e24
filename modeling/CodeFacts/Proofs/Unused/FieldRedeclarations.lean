import CodeFacts.Proofs.Unused.FieldOwners

/-!
# Fields that are declared again

A field is used if something names it that is no declaration. Only the first declaration of a name
is kept before declarations and uses are compared, so a later one is taken for a use where the
search for uses finds it. In JavaScript, TypeScript and Java no declaration is ever found by that search,
since fields are declared outside of methods, and parameters that declare fields are no accesses. In
Python every assignment through the instance is found. So there a field that is only ever written
is reported if it is written once, and not if it is written again.
-/

namespace CodeFacts.Unused

/-- The fields of a class and the nodes that count as their uses lie in the class. -/
structure Policy.FieldsWithin (policy : Policy) : Prop where
  privateFields : ∀ classNode, ∀ site ∈ policy.privateFields classNode, classNode.Contains site
  fieldUses : ∀ classNode, ∀ use ∈ policy.fieldUses classNode, classNode.Contains use

/-- The kinds of nodes in which a language searches for uses of fields. -/
def searchedKinds : Language → List String
  | .python => ["function_definition"]
  | .javaScript => ["method_definition"]
  | .typeScript => ["method_definition"]
  | .tsx => ["method_definition"]
  | .java => Java.methodKinds
  | .go => []

namespace Ecma

theorem exists_of_mem_fieldUses {classNode use : Cursor} (use_mem : use ∈ fieldUses classNode) :
    ∃ body method, body? classNode = some body ∧ body.Contains method ∧
      method.kind = "method_definition" ∧ method.Contains use ∧
      (use.kind = "private_property_identifier" ∨
        ∃ access : Cursor, access.kind = "member_expression" ∧
          access.childByField? "property" = some use) := by
  unfold fieldUses at use_mem
  split at use_mem
  · simp at use_mem
  · next body hasBody =>
      rcases List.mem_flatMap.mp use_mem with ⟨method, method_mem, inMethod⟩
      rcases List.mem_filterMap.mp inMethod with ⟨node, node_mem, found⟩
      rcases Cursor.mem_descendantsOfKind_iff.mp method_mem with ⟨inBody, isMethod⟩
      rcases Cursor.mem_descendantsOfKinds_iff.mp node_mem with ⟨below, kind⟩
      refine ⟨body, method, hasBody, inBody, isMethod, ?_⟩
      unfold fieldOccurrence? at found
      split at found
      · next isAccess =>
          exact ⟨below.trans (Cursor.contains_of_childByField? found),
            Or.inr ⟨node, by simpa using isAccess, found⟩⟩
      · next noAccess =>
          split at found
          · simp at found
          · split at found
            · simp at found
            · obtain rfl := Option.some.inj found
              refine ⟨below, Or.inl ?_⟩
              rw [beq_iff_eq] at noAccess
              simpa [noAccess] using kind

/-- A field that a member of the class body declares is not found among the uses. -/
theorem not_mem_fieldUses_of_member {classNode body member site : Cursor} {field : String}
    (hasBody : body? classNode = some body) (ordinary : body.kind ≠ "method_definition")
    (member_mem : member ∈ body.children) (noMethod : member.kind ≠ "method_definition")
    (noAccess : member.kind ≠ "member_expression")
    (found : member.childByField? field = some site) : site ∉ fieldUses classNode := by
  intro use_mem
  have child_mem := Cursor.mem_children_of_childByField? found
  rcases exists_of_mem_fieldUses use_mem with
    ⟨body', method, hasBody', inBody, isMethod, contains, kind | ⟨access, isAccess, found'⟩⟩
  · obtain rfl := Option.some.inj (hasBody.symm.trans hasBody')
    have way : Relation.ReflTransGen (fun above child =>
        child ∈ above.children ∧ above.kind ≠ "method_definition") body site :=
      .head ⟨member_mem, ordinary⟩ (.single ⟨child_mem, noMethod⟩)
    refine Cursor.not_contains_of_way way ordinary (by simpa using isMethod) ?_ inBody contains
    rintro rfl
    simp [isMethod] at kind
  · rw [Cursor.eq_of_childByField? found found'] at noAccess
    exact noAccess isAccess

end Ecma

theorem JavaScript.contains_of_mem_privateFields {classNode site : Cursor}
    (site_mem : site ∈ privateFields classNode) : classNode.Contains site := by
  rcases exists_of_mem_privateFields site_mem with ⟨body, field, hasBody, field_mem, found, -⟩
  have inClass := (Cursor.contains_of_childByField? hasBody).trans
    (Cursor.contains_of_mem_childrenOfKind field_mem)
  exact inClass.trans (Cursor.contains_of_childByField? found)

theorem JavaScript.not_mem_fieldUses {classNode site : Cursor}
    (ordinary : ∀ body, body? classNode = some body → body.kind ≠ "method_definition")
    (site_mem : site ∈ privateFields classNode) : site ∉ Ecma.fieldUses classNode := by
  rcases exists_of_mem_privateFields site_mem with ⟨body, field, hasBody, field_mem, found, -⟩
  rcases List.mem_filter.mp field_mem with ⟨inBody, kind⟩
  rw [beq_iff_eq] at kind
  exact Ecma.not_mem_fieldUses_of_member hasBody (ordinary body hasBody) inBody (by simp [kind])
    (by simp [kind]) found

theorem TypeScript.contains_of_mem_privateFields {classNode site : Cursor}
    (site_mem : site ∈ privateFields classNode) : classNode.Contains site := by
  rcases exists_of_mem_privateFields site_mem with ⟨body, hasBody, declared⟩
  apply (Cursor.contains_of_childByField? hasBody).trans
  rcases declared with ⟨field, field_mem, found⟩ | ⟨-, method, method_mem, parameter, listed, found⟩
  · exact (Cursor.contains_of_mem_childrenOfKind field_mem).trans
      (Cursor.contains_of_childByField? found)
  · exact ((Cursor.contains_of_mem_childrenOfKind method_mem).trans
      (Ecma.contains_of_mem_parameterNodes listed)).trans (Cursor.contains_of_childByField? found)

theorem TypeScript.not_mem_fieldUses {classNode site : Cursor}
    (ordinary : ∀ body, body? classNode = some body → body.kind ≠ "method_definition")
    (site_mem : site ∈ privateFields classNode) : site ∉ Ecma.fieldUses classNode := by
  rcases exists_of_mem_privateFields site_mem with
    ⟨body, hasBody, ⟨field, field_mem, found⟩ | ⟨isIdentifier, _, -, parameter, -, found⟩⟩
  · rcases List.mem_filter.mp field_mem with ⟨inBody, kind⟩
    rw [beq_iff_eq] at kind
    exact Ecma.not_mem_fieldUses_of_member hasBody (ordinary body hasBody) inBody (by simp [kind])
      (by simp [kind]) found
  · intro use_mem
    rcases Ecma.exists_of_mem_fieldUses use_mem with ⟨-, -, -, -, -, -, kind | ⟨access, -, found'⟩⟩
    · simp [isIdentifier] at kind
    · have fields := (Cursor.field_of_childByField? found).symm.trans
        (Cursor.field_of_childByField? found')
      simp at fields

namespace Java

theorem contains_of_mem_privateFields {classNode site : Cursor}
    (site_mem : site ∈ privateFields classNode) : classNode.Contains site := by
  rcases exists_of_mem_privateFields site_mem with
    ⟨-, body, member, declarator, hasBody, isMember, -, declarator_mem, found⟩
  exact (((Cursor.contains_of_childByField? hasBody).trans isMember.withinTwoSteps.contains).trans
    (Cursor.contains_of_mem_childrenOfKind declarator_mem)).trans
      (Cursor.contains_of_childByField? found)

theorem exists_of_mem_fieldUses {classNode use : Cursor} (use_mem : use ∈ fieldUses classNode) :
    ∃ body method, body? classNode = some body ∧ body.Contains method ∧
      method.kind ∈ methodKinds ∧ method.Contains use ∧ use.kind = "identifier" := by
  unfold fieldUses at use_mem
  split at use_mem
  · simp at use_mem
  · next body hasBody =>
      rw [distinct_eq_firstsBy] at use_mem
      rcases List.mem_flatMap.mp (mem_of_mem_firstsBy _ use_mem) with
        ⟨method, method_mem, inMethod⟩
      rcases Cursor.mem_descendantsOfKinds_iff.mp method_mem with ⟨inBody, isMethod⟩
      rcases Cursor.mem_descendantsOfKind_iff.mp inMethod with ⟨below, kind⟩
      exact ⟨body, method, hasBody, inBody, isMethod, below, kind⟩

theorem not_mem_fieldUses {classNode site : Cursor}
    (ordinary : ∀ body, body? classNode = some body → body.kind ∉ methodKinds)
    (site_mem : site ∈ privateFields classNode) : site ∉ fieldUses classNode := by
  intro use_mem
  rcases exists_of_mem_privateFields site_mem with
    ⟨-, body, member, declarator, hasBody, isMember, isField, declarator_mem, found⟩
  rcases exists_of_mem_fieldUses use_mem with
    ⟨body', method, hasBody', inBody, isMethod, contains, isIdentifier⟩
  obtain rfl := Option.some.inj (hasBody.symm.trans hasBody')
  specialize ordinary body hasBody
  rcases List.mem_filter.mp declarator_mem with ⟨inMember, isDeclarator⟩
  rw [beq_iff_eq] at isDeclarator
  have belowMember : Relation.ReflTransGen (fun above child =>
      child ∈ above.children ∧ above.kind ∉ methodKinds) member site :=
    .head ⟨inMember, by simp [isField, methodKinds]⟩
      (.single ⟨Cursor.mem_children_of_childByField? found, by simp [isDeclarator, methodKinds]⟩)
  have way : Relation.ReflTransGen (fun above child =>
      child ∈ above.children ∧ above.kind ∉ methodKinds) body site := by
    rcases isMember with direct | ⟨group, group_mem, inGroup⟩
    · exact belowMember.head ⟨direct, ordinary⟩
    · rcases List.mem_filter.mp group_mem with ⟨inBody, isGroup⟩
      rw [beq_iff_eq] at isGroup
      exact (belowMember.head ⟨inGroup, by simp [isGroup, methodKinds]⟩).head ⟨inBody, ordinary⟩
  refine Cursor.not_contains_of_way way ordinary (not_not_intro isMethod) ?_ inBody contains
  rintro rfl
  simp [isIdentifier, methodKinds] at isMethod

end Java

namespace Python

theorem mem_fieldUses_iff {classNode use : Cursor} :
    use ∈ fieldUses classNode ↔
      ∃ method ∈ methods classNode, ∃ access, method.Contains access ∧ access.kind = "attribute" ∧
        access.childByField? "attribute" = some use := by
  simp [fieldUses, Cursor.mem_descendantsOfKind_iff, and_assoc]

/-- Every assignment through the instance counts as a use. -/
theorem AssignsAttribute.mem_fieldUses {classNode site : Cursor}
    (assigns : AssignsAttribute classNode site) : site ∈ fieldUses classNode := by
  rcases assigns with ⟨method, method_mem, site_mem⟩
  exact mem_fieldUses_iff.mpr ⟨method, method_mem, exists_of_mem_instanceAttributes site_mem⟩

/-- A field that counts as a use is one that is assigned through the instance. -/
theorem assignsAttribute_of_mem_fieldUses {classNode use : Cursor}
    (use_mem : use ∈ fieldUses classNode) (isField : use ∈ privateFields classNode) :
    AssignsAttribute classNode use := by
  rcases mem_fieldUses_iff.mp use_mem with ⟨method, -, access, -, isAttribute, found⟩
  rcases (mem_privateFields_iff.mp isField).2 with ⟨body, -, inBody⟩ | assigns
  · exact absurd (Cursor.mem_children_of_childByField? found)
      (not_mem_children_of_mem_classAttributes inBody isAttribute)
  · exact assigns

end Python

theorem Ecma.contains_of_mem_fieldUses {classNode use : Cursor}
    (use_mem : use ∈ fieldUses classNode) : classNode.Contains use := by
  rcases exists_of_mem_fieldUses use_mem with ⟨body, method, hasBody, inBody, -, contains, -⟩
  exact ((Cursor.contains_of_childByField? hasBody).trans inBody).trans contains

theorem fieldsWithin_policyFor {language : Language}
    (byUse : (policyFor language).fieldRule = .declarationVersusUse) :
    (policyFor language).FieldsWithin := by
  cases language with
  | python =>
      refine ⟨fun _ _ => Python.contains_of_mem_privateFields, ?_⟩
      intro classNode use use_mem
      rcases Python.mem_fieldUses_iff.mp use_mem with ⟨method, method_mem, access, below, -, found⟩
      rcases Python.mem_methods_iff.mp method_mem with ⟨body, hasBody, inBody, -⟩
      exact (((Cursor.contains_of_childByField? hasBody).trans inBody).trans below).trans
        (Cursor.contains_of_childByField? found)
  | javaScript =>
      exact ⟨fun _ _ => JavaScript.contains_of_mem_privateFields,
        fun _ _ => Ecma.contains_of_mem_fieldUses⟩
  | typeScript =>
      exact ⟨fun _ _ => TypeScript.contains_of_mem_privateFields,
        fun _ _ => Ecma.contains_of_mem_fieldUses⟩
  | tsx =>
      exact ⟨fun _ _ => TypeScript.contains_of_mem_privateFields,
        fun _ _ => Ecma.contains_of_mem_fieldUses⟩
  | java =>
      refine ⟨fun _ _ => Java.contains_of_mem_privateFields, ?_⟩
      intro classNode use use_mem
      rcases Java.exists_of_mem_fieldUses use_mem with
        ⟨body, method, hasBody, inBody, -, contains, -⟩
      exact ((Cursor.contains_of_childByField? hasBody).trans inBody).trans contains
  | go => exact absurd byUse (by decide)

namespace Policy

variable {policy : Policy} {classNode first : Cursor}

/-- By the first rule a field is unused if whatever names it is its first declaration. -/
theorem FieldsWithin.leavesUnused_iff (within : policy.FieldsWithin)
    (byUse : policy.fieldRule = .declarationVersusUse)
    (declared : policy.DeclaresField classNode first) :
    policy.LeavesUnused classNode first ↔
      ∀ use ∈ policy.fieldUses classNode, use.text = first.text → use = first := by
  simp only [LeavesUnused, byUse]
  apply forall₂_congr
  intro use use_mem
  constructor
  · intro unused text
    rcases unused text with ⟨site, declaredAt, same⟩
    have contains := within.privateFields classNode site declaredAt.mem
    obtain rfl := contains.eq_of_address (within.fieldUses classNode use use_mem)
      (by simpa [Cursor.isSame] using same)
    exact declaredAt.eq_of_text declared text
  · intro only text
    obtain rfl := only text
    exact ⟨use, declared, by simp [Cursor.isSame]⟩

theorem FieldsWithin.mem_privateFields (within : policy.FieldsWithin) {use : Cursor}
    (use_mem : use ∈ policy.fieldUses classNode)
    (listed : use.address ∈ (policy.privateFields classNode).map Cursor.address) :
    use ∈ policy.privateFields classNode := by
  rcases List.mem_map.mp listed with ⟨site, site_mem, same⟩
  rwa [(within.fieldUses classNode use use_mem).eq_of_address
    (within.privateFields classNode site site_mem) same.symm]

end Policy

/-- Outside of Python no declaration of a field counts as a use of one. -/
theorem not_mem_fieldUses_of_mem_privateFields {language : Language}
    (byUse : (policyFor language).fieldRule = .declarationVersusUse)
    (notPython : language ≠ .python) {classNode site : Cursor}
    (ordinary : ∀ body, body? classNode = some body → body.kind ∉ searchedKinds language)
    (site_mem : site ∈ (policyFor language).privateFields classNode) :
    site ∉ (policyFor language).fieldUses classNode := by
  cases language with
  | python => exact absurd rfl notPython
  | javaScript =>
      apply JavaScript.not_mem_fieldUses _ site_mem
      simpa [searchedKinds] using ordinary
  | typeScript =>
      apply TypeScript.not_mem_fieldUses _ site_mem
      simpa [searchedKinds] using ordinary
  | tsx =>
      apply TypeScript.not_mem_fieldUses _ site_mem
      simpa [searchedKinds] using ordinary
  | java => exact Java.not_mem_fieldUses ordinary site_mem
  | go => exact absurd byUse (by decide)

/-- Let everything that names a private field be one of the declarations of the class. The field is
reported exactly if the first declaration is all that names it. Outside of Python that is always so,
and in Python it is so if no function of the class assigns to the field again. -/
theorem redeclared_field_reported_iff_named_once (language : Language)
    (byUse : (policyFor language).fieldRule = .declarationVersusUse) {classNode : Cursor}
    (static : (policyFor language).hasDynamicAccess classNode = false) {field : Cursor}
    (isField : field ∈ (policyFor language).privateFields classNode)
    (notExempt : (policyFor language).exemptsField field.text = false)
    (onlyDeclared : ∀ use ∈ (policyFor language).fieldUses classNode, use.text = field.text →
      use ∈ (policyFor language).privateFields classNode) :
    ∃ first, (policyFor language).DeclaresField classNode first ∧ first.text = field.text ∧
      (Symbol.ofField classNode first ∈ (policyFor language).unusedPrivateFields classNode ↔
        ∀ use ∈ (policyFor language).fieldUses classNode, use.text = field.text → use = first) ∧
      (language ≠ .python →
        (∀ body, body? classNode = some body → body.kind ∉ searchedKinds language) →
          Symbol.ofField classNode first ∈ (policyFor language).unusedPrivateFields classNode) ∧
      (language = .python →
        (Symbol.ofField classNode first ∈ (policyFor language).unusedPrivateFields classNode ↔
          ∀ site, Python.AssignsAttribute classNode site → site.text = field.text →
            site = first)) := by
  rcases Policy.exists_declaresField isField with ⟨first, declared, text⟩
  have reported : Symbol.ofField classNode first ∈
        (policyFor language).unusedPrivateFields classNode ↔
      ∀ use ∈ (policyFor language).fieldUses classNode, use.text = field.text → use = first := by
    rw [Policy.ofField_mem_unusedPrivateFields_iff declared, ← text,
      ← (fieldsWithin_policyFor byUse).leavesUnused_iff byUse declared]
    constructor
    · exact fun reports => reports.unused
    · exact fun unused => ⟨static, declared, unused, text ▸ notExempt⟩
  refine ⟨first, declared, text, reported, ?_, ?_⟩
  · intro notPython ordinary
    rw [reported]
    intro use use_mem named
    have isDeclared := onlyDeclared use use_mem named
    exact absurd use_mem
      (not_mem_fieldUses_of_mem_privateFields byUse notPython ordinary isDeclared)
  · rintro rfl
    rw [reported]
    constructor
    · intro only site assigns
      exact only site assigns.mem_fieldUses
    · intro only use use_mem named
      have isDeclared := onlyDeclared use use_mem named
      exact only use (Python.assignsAttribute_of_mem_fieldUses use_mem isDeclared) named

/-- The class
```
class A:
    def f(self):
        self._x = 1
        self._x = 2
```
with one assignment for each of the values. -/
def writingClass (values : List String) : Node :=
  let statements := values.mapIdx fun index value =>
    selfAssignment (34 + 20 * index) (3 + index) 9 value
  let last := 20 * values.length + 25
  let line := values.length + 2
  let text := "\n        ".intercalate (statements.map Node.text)
  let self : Node := ⟨"identifier", true, none, ⟨19, 23, 2, 11, 2, 15⟩, "self", []⟩
  let method : Node :=
    ⟨"function_definition", true, none, ⟨13, last, 2, 5, line, 20⟩,
      "def f(self):\n        " ++ text,
      [⟨"identifier", true, some "name", ⟨17, 18, 2, 9, 2, 10⟩, "f", []⟩,
        ⟨"parameters", true, some "parameters", ⟨18, 24, 2, 10, 2, 16⟩, "(self)", [self]⟩,
        ⟨"block", true, some "body", ⟨34, last, 3, 9, line, 20⟩, text, statements⟩]⟩
  ⟨"class_definition", true, none, ⟨0, last, 1, 1, line, 20⟩, "class A:\n    " ++ method.text,
    [⟨"identifier", true, some "name", ⟨6, 7, 1, 7, 1, 8⟩, "A", []⟩,
      ⟨"block", true, some "body", ⟨13, last, 2, 5, line, 20⟩, method.text, [method]⟩]⟩

theorem onlyDeclared_writingClass {values : List String}
    (listed : ∀ use ∈ Python.policy.fieldUses (Cursor.ofRoot (writingClass values)),
      use.address ∈
        (Python.policy.privateFields (Cursor.ofRoot (writingClass values))).map Cursor.address) :
    ∀ use ∈ (policyFor .python).fieldUses (Cursor.ofRoot (writingClass values)),
      use.text = "_x" →
        use ∈ (policyFor .python).privateFields (Cursor.ofRoot (writingClass values)) :=
  fun use use_mem _ => (fieldsWithin_policyFor rfl).mem_privateFields use_mem (listed use use_mem)

/-- An attribute that is assigned once is reported. -/
theorem redeclared_field_reported_iff_named_once_of_writingClass :
    let classNode := Cursor.ofRoot (writingClass ["1"])
    (policyFor .python).hasDynamicAccess classNode = false ∧
      ∃ first, (policyFor .python).DeclaresField classNode first ∧ first.text = "_x" ∧
        Symbol.ofField classNode first ∈ (policyFor .python).unusedPrivateFields classNode ∧
        ∀ site, Python.AssignsAttribute classNode site → site.text = "_x" → site = first := by
  intro classNode
  have static : (policyFor .python).hasDynamicAccess classNode = false := by decide +kernel
  have listed : "_x" ∈ ((policyFor .python).privateFields classNode).map Cursor.text := by
    decide +kernel
  rcases List.mem_map.mp listed with ⟨field, isField, text⟩
  have onlyDeclared := @onlyDeclared_writingClass ["1"] (by decide +kernel)
  rw [← text] at onlyDeclared
  rcases redeclared_field_reported_iff_named_once .python rfl static isField
    (by rw [text]; decide) onlyDeclared with ⟨first, declared, same, -, -, exactly⟩
  rw [text] at same exactly
  have found : ∃ symbol ∈ (policyFor .python).unusedPrivateFields classNode,
      symbol.name = "_x" := by
    decide +kernel
  rcases found with ⟨symbol, symbol_mem, name⟩
  rcases Policy.mem_unusedPrivateFields_iff.mp symbol_mem with ⟨other, reports, rfl⟩
  obtain rfl := reports.declared.eq_of_text declared (name.trans same.symm)
  exact ⟨static, other, declared, same, symbol_mem, (exactly rfl).mp symbol_mem⟩

/-- An attribute that is assigned twice and never read is not reported. -/
theorem writingClass_hides_attribute_written_twice :
    let classNode := Cursor.ofRoot (writingClass ["1", "2"])
    (policyFor .python).fieldRule = .declarationVersusUse ∧
      (policyFor .python).hasDynamicAccess classNode = false ∧
      (policyFor .python).exemptsField "_x" = false ∧
      "_x" ∈ ((policyFor .python).privateFields classNode).map Cursor.text ∧
      (∀ use ∈ (policyFor .python).fieldUses classNode, use.text = "_x" →
        use ∈ (policyFor .python).privateFields classNode) ∧
      (policyFor .python).unusedPrivateFields classNode = [] := by
  intro classNode
  refine ⟨rfl, ?_, ?_, ?_, onlyDeclared_writingClass ?_, ?_⟩
  all_goals decide +kernel

end CodeFacts.Unused
