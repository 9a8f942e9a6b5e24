import CodeFacts.Proofs.Unused.Exemptions
import CodeFacts.Proofs.Unused.Repetitions
import Mathlib.Data.Finset.Card

/-!
# Fields that are judged by the occurrences of their name

In Go every field identifier of the file and every key of a composite literal may name a field of
any struct. A field is reported if it is the only such node with its text. The node that declares
it is one of them, so a report means that the declaration is the only occurrence of the name in the
file, and no two reported fields have the same name.
-/

namespace CodeFacts.Unused.Go

/-- A name stands as key of an element in a composite literal. The key is marked as such or comes
first, and may be wrapped into a literal element. -/
def IsLiteralKey (element key : Cursor) : Prop :=
  (key.kind = "identifier" ∨ key.kind = "field_identifier") ∧
    ∃ entry,
      (element.childByField? "key" = some entry ∨
        element.childByField? "key" = none ∧ element.namedChildren.head? = some entry) ∧
      if entry.kind = "literal_element" then entry.namedChildren.head? = some key else entry = key

/-- A node of a file that may name a field: a field identifier or a key of a composite literal. -/
def Occurs (root : Node) (cursor : Cursor) : Prop :=
  (Cursor.ofRoot root).Contains cursor ∧ cursor.kind = "field_identifier" ∨
    ∃ element, (Cursor.ofRoot root).Contains element ∧ element.kind = "keyed_element" ∧
      IsLiteralKey element cursor

/-- The names in the field declarations of a file are field identifiers. -/
def NamesFieldsByIdentifiers (root : Node) : Prop :=
  ∀ declaration name, (Cursor.ofRoot root).Contains declaration →
    declaration.kind = "field_declaration" → name ∈ declaration.childrenByField "name" →
    name.kind = "field_identifier"

/-- A struct declares a field that is not exported, and neither tags nor reflection keep it from
being judged. -/
structure DeclaresJudgedField (root : Node) (specification field : Cursor) : Prop where
  inside : (Cursor.ofRoot root).Contains specification
  kind : specification.kind = "type_spec"
  declared : ∃ declaration ∈ fieldDeclarations specification,
    field ∈ declaration.childrenByField "name"
  unexported : ∃ first rest, field.text.toList = first :: rest ∧ Text.isLowercase first = true
  untagged : ∀ declaration ∈ fieldDeclarations specification,
    declaration.childByField? "tag" = none
  noReflection : ∀ selector operand, (Cursor.ofRoot root).Contains selector →
    selector.kind = "selector_expression" → selector.childByField? "operand" = some operand →
    operand.text ≠ "reflect"

theorem elementKey?_eq_some_iff {element key : Cursor} :
    elementKey? element = some key ↔ IsLiteralKey element key := by
  have entry_iff (entry : Cursor) :
      (element.childByField? "key").or element.namedChildren.head? = some entry ↔
        element.childByField? "key" = some entry ∨
          element.childByField? "key" = none ∧ element.namedChildren.head? = some entry :=
    Option.or_eq_some_iff
  have inner_iff (entry inner : Cursor) :
      (if entry.kind == "literal_element" then entry.namedChildren.head? else some entry) =
          some inner ↔
        if entry.kind = "literal_element" then entry.namedChildren.head? = some inner
        else entry = inner := by
    by_cases wrapped : entry.kind = "literal_element" <;> simp [wrapped]
  simp only [elementKey?, IsLiteralKey, Option.bind_eq_some_iff, entry_iff, inner_iff]
  constructor
  · rintro ⟨inner, ⟨entry, isEntry, isInner⟩, kept⟩
    split at kept
    · next kind =>
        obtain rfl := Option.some.inj kept
        exact ⟨by simpa using kind, entry, isEntry, isInner⟩
    · simp at kept
  · rintro ⟨kind, entry, isEntry, isInner⟩
    exact ⟨key, ⟨entry, isEntry, isInner⟩, if_pos (by simpa using kind)⟩

variable {root : Node} {specification field : Cursor}

theorem IsLiteralKey.contains {element key : Cursor} (isKey : IsLiteralKey element key) :
    element.Contains key := by
  rcases isKey with ⟨-, entry, isEntry, isInner⟩
  have below : element.Contains entry := by
    rcases isEntry with marked | ⟨-, first⟩
    · exact Cursor.contains_of_childByField? marked
    · exact Cursor.contains_of_mem_namedChildren (List.mem_of_head? first)
  split at isInner
  · exact below.trans (Cursor.contains_of_mem_namedChildren (List.mem_of_head? isInner))
  · exact isInner ▸ below

theorem Occurs.contains {cursor : Cursor} (occurs : Occurs root cursor) :
    (Cursor.ofRoot root).Contains cursor := by
  rcases occurs with ⟨inside, -⟩ | ⟨element, inside, -, isKey⟩
  · exact inside
  · exact inside.trans isKey.contains

/-- The uses that are counted for a struct are the occurrences in its file. -/
theorem mem_fieldUses_iff (inside : (Cursor.ofRoot root).Contains specification) {use : Cursor} :
    use ∈ fieldUses specification ↔ Occurs root use := by
  have mem_iff (cursor : Cursor) :
      cursor ∈ (Cursor.ofRoot root).descendantsOfKind "field_identifier" ++
          ((Cursor.ofRoot root).descendantsOfKind "keyed_element").filterMap elementKey? ↔
        Occurs root cursor := by
    simp [Occurs, Cursor.mem_descendantsOfKind_iff, elementKey?_eq_some_iff, and_assoc]
  rw [fieldUses, Cursor.root_eq_of_contains inside, distinct_eq_firstsBy]
  constructor
  · intro use_mem
    exact (mem_iff use).mp (mem_of_mem_firstsBy _ use_mem)
  · intro occurs
    rcases exists_mem_firstsBy Cursor.address ((mem_iff use).mpr occurs) with
      ⟨first, first_mem, address⟩
    have firstOccurs := (mem_iff first).mp (mem_of_mem_firstsBy _ first_mem)
    rwa [← firstOccurs.contains.eq_of_address occurs.contains address]

theorem nodup_fieldUses (specification : Cursor) : (fieldUses specification).Nodup := by
  rw [fieldUses, distinct_eq_firstsBy]
  exact (pairwise_firstsBy _ _).imp fun different same => different (congrArg _ same)

/-- A field that occurs is unused if nothing else with its text does. -/
theorem leavesUnused_iff (inside : (Cursor.ofRoot root).Contains specification)
    (occurs : Occurs root field) :
    policy.LeavesUnused specification field ↔
      ∀ cursor, Occurs root cursor → cursor.text = field.text → cursor = field := by
  have distinct := (nodup_fieldUses specification).filter fun use => use.text == field.text
  have atMostOne := Finset.card_le_one (s := ⟨_, Multiset.coe_nodup.mpr distinct⟩)
  simp only [Finset.mem_mk, Multiset.mem_coe, List.mem_filter, mem_fieldUses_iff inside,
    beq_iff_eq] at atMostOne
  refine Iff.trans atMostOne ?_
  constructor
  · intro all cursor cursorOccurs text
    exact all cursor ⟨cursorOccurs, text⟩ field ⟨occurs, rfl⟩
  · rintro only first ⟨firstOccurs, text⟩ second ⟨secondOccurs, text'⟩
    rw [only first firstOccurs text, only second secondOccurs text']

theorem contains_of_mem_fieldDeclarations {declaration : Cursor}
    (declaration_mem : declaration ∈ fieldDeclarations specification) :
    specification.Contains declaration := by
  rcases exists_of_mem_fieldDeclarations declaration_mem with
    ⟨-, struct, list, isStruct, list_mem, inList⟩
  exact ((Cursor.contains_child inList).of_child list_mem).of_child
    (Cursor.mem_children_of_childByField? (childByField?_of_structType? isStruct))

theorem occurs_of_mem_privateFields (names : NamesFieldsByIdentifiers root)
    (inside : (Cursor.ofRoot root).Contains specification)
    (field_mem : field ∈ privateFields specification) : Occurs root field := by
  rcases mem_privateFields_iff.mp field_mem with ⟨-, declaration, declaration_mem, named⟩
  have below := inside.trans (contains_of_mem_fieldDeclarations declaration_mem)
  have kind := (exists_of_mem_fieldDeclarations declaration_mem).1
  exact Or.inl ⟨below.trans (Cursor.contains_of_mem_childrenByField named),
    names declaration field below kind named⟩

theorem isReflection_iff {selector : Cursor} :
    isReflection selector = true ↔
      ∃ operand, selector.childByField? "operand" = some operand ∧ operand.text = "reflect" := by
  unfold isReflection
  cases selector.childByField? "operand" <;> simp

theorem DeclaresJudgedField.hasDynamicAccess
    (judged : DeclaresJudgedField root specification field) :
    hasDynamicAccess specification = false := by
  rw [Go.hasDynamicAccess, Cursor.root_eq_of_contains judged.inside, Bool.or_eq_false_iff,
    List.any_eq_false, List.any_eq_false]
  constructor
  · intro declaration declaration_mem
    simp [judged.untagged declaration declaration_mem]
  · intro selector selector_mem reflects
    rcases Cursor.mem_descendantsOfKind_iff.mp selector_mem with ⟨inside, kind⟩
    rcases isReflection_iff.mp reflects with ⟨operand, isOperand, text⟩
    exact judged.noReflection selector operand inside kind isOperand text

theorem DeclaresJudgedField.mem_privateFields
    (judged : DeclaresJudgedField root specification field) :
    field ∈ privateFields specification :=
  mem_privateFields_iff.mpr ⟨isUnexported_iff.mpr judged.unexported, judged.declared⟩

theorem role_eq_classLike (kind : specification.kind = "type_spec")
    (field_mem : field ∈ privateFields specification) : role specification = .classLike := by
  rcases mem_privateFields_iff.mp field_mem with ⟨-, declaration, declaration_mem, -⟩
  rcases exists_of_mem_fieldDeclarations declaration_mem with ⟨-, struct, -, isStruct, -, -⟩
  simp [role, kind, isStruct]

theorem exemptsField_of_mem_privateFields (field_mem : field ∈ privateFields specification) :
    policy.exemptsField field.text = false := by
  have notMarked := startsWithUnderscore_of_isUnexported (mem_privateFields_iff.mp field_mem).1
  rw [Policy.exemptsField_eq_false_iff, ← startsWithUnderscore_iff]
  refine ⟨?_, fun _ => by simp [notMarked]⟩
  intro underscore
  simp [underscore, startsWithUnderscore] at notMarked

/-- A reported field is the only one of the file that has its name. -/
theorem eq_of_reportsField (names : NamesFieldsByIdentifiers root)
    (inside : (Cursor.ofRoot root).Contains specification)
    (reports : policy.ReportsField specification field) {specification' field' : Cursor}
    (inside' : (Cursor.ofRoot root).Contains specification')
    (field_mem : field' ∈ privateFields specification') (same : field'.text = field.text) :
    specification' = specification ∧ field' = field := by
  have occurs := occurs_of_mem_privateFields names inside reports.declared.mem
  have occurs' := occurs_of_mem_privateFields names inside' field_mem
  obtain rfl := (leavesUnused_iff inside occurs).mp reports.unused field' occurs' same
  exact ⟨eq_of_mem_privateFields field_mem reports.declared.mem, rfl⟩

theorem DeclaresJudgedField.reportsField_iff (names : NamesFieldsByIdentifiers root)
    (judged : DeclaresJudgedField root specification field) :
    policy.ReportsField specification field ↔
      ∃! cursor, Occurs root cursor ∧ cursor.text = field.text := by
  have field_mem := judged.mem_privateFields
  have occurs := occurs_of_mem_privateFields names judged.inside field_mem
  constructor
  · intro reports
    refine ⟨field, ⟨occurs, rfl⟩, ?_⟩
    rintro cursor ⟨cursorOccurs, text⟩
    exact (leavesUnused_iff judged.inside occurs).mp reports.unused cursor cursorOccurs text
  · intro unique
    have only : ∀ cursor, Occurs root cursor → cursor.text = field.text → cursor = field :=
      fun cursor cursorOccurs text => unique.unique ⟨cursorOccurs, text⟩ ⟨occurs, rfl⟩
    have isDeclared : ∃ first, policy.DeclaresField specification first ∧ first.text = field.text :=
      Policy.exists_declaresField field_mem
    rcases isDeclared with ⟨first, declared, text⟩
    obtain rfl := only first
      (occurs_of_mem_privateFields names judged.inside declared.mem) text
    exact ⟨judged.hasDynamicAccess, declared, (leavesUnused_iff judged.inside occurs).mpr only,
      exemptsField_of_mem_privateFields field_mem⟩

/-- Two private fields that are reported under one name are one. -/
theorem eq_of_mem_unusedSymbols (names : NamesFieldsByIdentifiers root) {options : Options}
    {first second : Symbol} (first_mem : first ∈ policy.unusedSymbols options root)
    (second_mem : second ∈ policy.unusedSymbols options root)
    (isField : first.kind = .privateField) (isField' : second.kind = .privateField)
    (same : first.name = second.name) : first = second := by
  rcases (Policy.mem_unusedSymbols_iff_of_isField isField).mp first_mem with
    ⟨-, specification, field, inside, -, reports, rfl⟩
  rcases (Policy.mem_unusedSymbols_iff_of_isField isField').mp second_mem with
    ⟨-, specification', field', inside', -, reports', rfl⟩
  rcases eq_of_reportsField names inside' reports' inside reports.declared.mem same with
    ⟨rfl, rfl⟩
  rfl

theorem DeclaresJudgedField.reported_iff (names : NamesFieldsByIdentifiers root)
    (judged : DeclaresJudgedField root specification field) (options : Options) (file : String) :
    Issue.ofSymbol file (Symbol.ofField specification field) ∈ issuesOf .go options file root ↔
      options.unusedPrivateFields = true ∧
        ∃! cursor, Occurs root cursor ∧ cursor.text = field.text := by
  rw [issuesOf, Policy.issues, mem_sortIssues,
    List.mem_map_of_injective (Issue.ofSymbol_injective file),
    Policy.mem_unusedSymbols_iff_of_isField rfl, ← judged.reportsField_iff names]
  refine and_congr_right fun _ => ?_
  constructor
  · rintro ⟨specification', field', inside', -, reports, same⟩
    rcases eq_of_reportsField names inside' reports judged.inside judged.mem_privateFields
      (congrArg Symbol.name same) with ⟨rfl, rfl⟩
    exact reports
  · intro reports
    exact ⟨specification, field, judged.inside,
      role_eq_classLike judged.kind judged.mem_privateFields, reports, rfl⟩

theorem nodup_reportedNames (names : NamesFieldsByIdentifiers root) (options : Options)
    (file : String) :
    (((issuesOf .go options file root).filter
      fun issue => issue.kind = .unusedPrivateField).map Issue.symbolName).Nodup := by
  have isSymbol : ∀ issue ∈ (issuesOf .go options file root).filter
      (fun issue => issue.kind = .unusedPrivateField),
      ∃ symbol ∈ policy.unusedSymbols options root,
        symbol.kind = .privateField ∧ Issue.ofSymbol file symbol = issue := by
    intro issue issue_mem
    rcases List.mem_filter.mp issue_mem with ⟨reported, isField⟩
    rcases mem_issuesOf_iff.mp reported with ⟨symbol, symbol_mem, rfl⟩
    exact ⟨symbol, symbol_mem, Policy.issueKind_injective (of_decide_eq_true isField), rfl⟩
  rw [List.nodup_iff_pairwise_ne, List.pairwise_map, List.pairwise_iff_forall_sublist]
  intro issue issue' sublist sameName
  rcases isSymbol issue (sublist.mem (by simp)) with ⟨symbol, symbol_mem, isField, rfl⟩
  rcases isSymbol issue' (sublist.mem (by simp)) with ⟨symbol', symbol_mem', isField', rfl⟩
  obtain rfl := eq_of_mem_unusedSymbols names symbol_mem symbol_mem' isField isField' sameName
  -- Between two equal issues there would be one for the same name in another class.
  rcases (policy.sublist_issues_twice_iff options file root _).mp
    (sublist.trans List.filter_sublist) with ⟨first, second, -, returns⟩
  apply returns.otherClass
  rw [eq_of_mem_unusedSymbols names (returns.found.mem (by simp)) (returns.found.mem (by simp))
    (returns.sameKind.trans returns.isField) returns.isField returns.sameName]

/-- A field that is not exported is reported exactly if one node of the file has its name, unless
tags or reflection keep it from being judged. No two reported fields of a file have the same
name. -/
theorem field_reported_iff_occurs_once (names : NamesFieldsByIdentifiers root) (options : Options)
    (file : String) :
    (∀ specification field, DeclaresJudgedField root specification field →
      (Issue.ofSymbol file (Symbol.ofField specification field) ∈
          issuesOf .go options file root ↔
        options.unusedPrivateFields = true ∧
          ∃! cursor, Occurs root cursor ∧ cursor.text = field.text)) ∧
    (((issuesOf .go options file root).filter
      fun issue => issue.kind = .unusedPrivateField).map Issue.symbolName).Nodup :=
  ⟨fun _ _ judged => judged.reported_iff names options file,
    nodup_reportedNames names options file⟩

/-- The file
```
package p
type point struct { x, y int }
var origin = point{x: 0}
```
-/
def pointFile : Node :=
  let fieldName (name : String) (start : Nat) : Node :=
    let span : Span := ⟨start, start + 1, 2, start - 9, 2, start - 8⟩
    ⟨"field_identifier", true, some "name", span, name, []⟩
  let declaration : Node :=
    ⟨"field_declaration", true, none, ⟨30, 38, 2, 21, 2, 29⟩, "x, y int",
      [fieldName "x" 30, fieldName "y" 33,
        ⟨"type_identifier", true, some "type", ⟨35, 38, 2, 26, 2, 29⟩, "int", []⟩]⟩
  let struct : Node :=
    ⟨"struct_type", true, some "type", ⟨21, 40, 2, 12, 2, 31⟩, "struct \x7b x, y int \x7d",
      [⟨"field_declaration_list", true, none, ⟨28, 40, 2, 19, 2, 31⟩, "\x7b x, y int \x7d",
        [declaration]⟩]⟩
  let specification : Node :=
    ⟨"type_spec", true, none, ⟨15, 40, 2, 6, 2, 31⟩, "point " ++ struct.text,
      [⟨"type_identifier", true, some "name", ⟨15, 20, 2, 6, 2, 11⟩, "point", []⟩, struct]⟩
  let key : Node :=
    ⟨"literal_element", true, some "key", ⟨60, 61, 3, 20, 3, 21⟩, "x",
      [⟨"identifier", true, none, ⟨60, 61, 3, 20, 3, 21⟩, "x", []⟩]⟩
  let value : Node :=
    ⟨"literal_element", true, some "value", ⟨63, 64, 3, 23, 3, 24⟩, "0",
      [⟨"int_literal", true, none, ⟨63, 64, 3, 23, 3, 24⟩, "0", []⟩]⟩
  let literal : Node :=
    ⟨"composite_literal", true, none, ⟨54, 65, 3, 14, 3, 25⟩, "point\x7bx: 0\x7d",
      [⟨"type_identifier", true, some "type", ⟨54, 59, 3, 14, 3, 19⟩, "point", []⟩,
        ⟨"literal_value", true, some "body", ⟨59, 65, 3, 19, 3, 25⟩, "\x7bx: 0\x7d",
          [⟨"keyed_element", true, none, ⟨60, 64, 3, 20, 3, 24⟩, "x: 0", [key, value]⟩]⟩]⟩
  let definition : Node :=
    ⟨"var_spec", true, none, ⟨45, 65, 3, 5, 3, 25⟩, "origin = " ++ literal.text,
      [⟨"identifier", true, some "name", ⟨45, 51, 3, 5, 3, 11⟩, "origin", []⟩,
        ⟨"expression_list", true, some "value", ⟨54, 65, 3, 14, 3, 25⟩, literal.text, [literal]⟩]⟩
  let declarations : List Node :=
    [⟨"package_clause", true, none, ⟨0, 9, 1, 1, 1, 10⟩, "package p", []⟩,
      ⟨"type_declaration", true, none, ⟨10, 40, 2, 1, 2, 31⟩, "type " ++ specification.text,
        [specification]⟩,
      ⟨"var_declaration", true, none, ⟨41, 65, 3, 1, 3, 25⟩, "var " ++ definition.text,
        [definition]⟩]
  ⟨"source_file", true, none, ⟨0, 66, 1, 1, 4, 1⟩,
    "\n".intercalate (declarations.map Node.text) ++ "\n", declarations⟩

theorem namesFieldsByIdentifiers_pointFile : NamesFieldsByIdentifiers pointFile := by
  have all : ∀ declaration ∈ (Cursor.ofRoot pointFile).descendants,
      ∀ name ∈ declaration.childrenByField "name",
        declaration.kind = "field_declaration" → name.kind = "field_identifier" := by
    decide +kernel
  intro declaration name inside kind named
  exact all declaration ((Cursor.mem_descendants_iff _ _).mpr inside) name named kind

theorem exists_judgedField_of_pointFile {symbol : Symbol}
    (listed : symbol ∈ ["x", "y"].map fun name => ⟨name, .privateField, 2, some "point"⟩) :
    ∃ specification field, DeclaresJudgedField pointFile specification field ∧
      Symbol.ofField specification field = symbol := by
  obtain ⟨specification, found⟩ :
      ∃ specification, (Cursor.ofRoot pointFile).descend? [1, 0] = some specification := ⟨_, rfl⟩
  have inside := Cursor.contains_of_descend? found
  have evaluated : specification.kind = "type_spec" ∧
      (privateFields specification).map (Symbol.ofField specification) =
        ["x", "y"].map (fun name => ⟨name, .privateField, 2, some "point"⟩) ∧
      (fieldDeclarations specification).all
        (fun declaration => (declaration.childByField? "tag").isNone) = true := by
    obtain rfl := Option.some.inj found
    decide +kernel
  have noSelector : ∀ selector ∈ (Cursor.ofRoot pointFile).descendants,
      selector.kind ≠ "selector_expression" := by
    decide +kernel
  rcases evaluated with ⟨kind, fields, untagged⟩
  rw [← fields] at listed
  rcases List.mem_map.mp listed with ⟨field, field_mem, same⟩
  rcases mem_privateFields_iff.mp field_mem with ⟨unexported, declared⟩
  refine ⟨specification, field, ⟨inside, kind, declared, isUnexported_iff.mp unexported, ?_, ?_⟩,
    same⟩
  · simpa using untagged
  · intro selector operand below isSelector
    exact absurd isSelector (noSelector selector ((Cursor.mem_descendants_iff _ _).mpr below))

theorem field_reported_iff_occurs_once_of_pointFile :
    NamesFieldsByIdentifiers pointFile ∧
      issuesOf .go {} "a.go" pointFile =
        [⟨.unusedPrivateField, "a.go", 2, "y", some "point"⟩] ∧
      (∃ specification field, DeclaresJudgedField pointFile specification field ∧
        field.text = "x" ∧ ¬∃! cursor, Occurs pointFile cursor ∧ cursor.text = "x") ∧
      ∃ specification field, DeclaresJudgedField pointFile specification field ∧
        field.text = "y" ∧ ∃! cursor, Occurs pointFile cursor ∧ cursor.text = "y" := by
  have names := namesFieldsByIdentifiers_pointFile
  have reported : issuesOf .go {} "a.go" pointFile =
      [⟨.unusedPrivateField, "a.go", 2, "y", some "point"⟩] := by
    have found : (policyFor .go).unusedSymbols {} pointFile =
        [⟨"y", .privateField, 2, some "point"⟩] := by
      decide +kernel
    rw [issuesOf_eq_of_sorted found (by decide)]
    decide
  have decides := (field_reported_iff_occurs_once names {} "a.go").1
  refine ⟨names, reported, ?_, ?_⟩
  · rcases @exists_judgedField_of_pointFile ⟨"x", .privateField, 2, some "point"⟩ (by decide) with
      ⟨specification, field, judged, same⟩
    have text : field.text = "x" := congrArg Symbol.name same
    refine ⟨specification, field, judged, text, ?_⟩
    intro once
    have isReported := (decides specification field judged).mpr ⟨rfl, text ▸ once⟩
    rw [reported, same] at isReported
    exact absurd isReported (by decide)
  · rcases @exists_judgedField_of_pointFile ⟨"y", .privateField, 2, some "point"⟩ (by decide) with
      ⟨specification, field, judged, same⟩
    have text : field.text = "y" := congrArg Symbol.name same
    have isReported : Issue.ofSymbol "a.go" (Symbol.ofField specification field) ∈
        issuesOf .go {} "a.go" pointFile := by
      rw [reported, same]
      decide
    exact ⟨specification, field, judged, text,
      text ▸ ((decides specification field judged).mp isReported).2⟩

end CodeFacts.Unused.Go
