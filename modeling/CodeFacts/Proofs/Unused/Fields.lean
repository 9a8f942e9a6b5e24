import CodeFacts.Proofs.Unused.UnreadNames
import Mathlib.Data.List.Pairwise

/-!
# What it means that a private field is unused

A class may declare a private field several times. The first declaration stands for the field: it
gives the line of the report, and under the rule that compares declarations with uses it is the only
declaration that is not taken for a use. A field is reported for a class that reaches no fields
dynamically, if it is unused by the rule of the language and not exempt by its name.
-/

namespace CodeFacts.Unused

theorem firstDeclarations_eq_firstsBy (fields : List Cursor) :
    firstDeclarations fields = firstsBy Cursor.text fields := by
  induction fields with
  | nil => rfl
  | cons head rest ih => simp [firstDeclarations, firstsBy, ih]

/-- The symbol under which a private field of a class is reported. -/
def Symbol.ofField (classNode field : Cursor) : Symbol :=
  ⟨field.text, .privateField, field.line, className? classNode⟩

namespace Policy

variable (policy : Policy)

/-- An identifier declares a private field of a class, and none before it has its name. -/
def DeclaresField (classNode field : Cursor) : Prop :=
  ∃ before after, policy.privateFields classNode = before ++ field :: after ∧
    ∀ other ∈ before, other.text ≠ field.text

/-- Nothing that counts as a use of the field is found in the class: under the first rule whatever
names the field stands at a first declaration, under the second the name occurs at most once. -/
def LeavesUnused (classNode field : Cursor) : Prop :=
  match policy.fieldRule with
  | .declarationVersusUse =>
      ∀ use ∈ policy.fieldUses classNode, use.text = field.text →
        ∃ site, policy.DeclaresField classNode site ∧ site.isSame use = true
  | .occurrenceCount =>
      ((policy.fieldUses classNode).filter fun use => use.text == field.text).length ≤ 1

/-- A class reports the private field that an identifier declares. -/
structure ReportsField (classNode field : Cursor) : Prop where
  static : policy.hasDynamicAccess classNode = false
  declared : policy.DeclaresField classNode field
  unused : policy.LeavesUnused classNode field
  notExempt : policy.exemptsField field.text = false

variable {policy} {classNode field : Cursor}

theorem mem_firstDeclarations_iff :
    field ∈ firstDeclarations (policy.privateFields classNode) ↔
      policy.DeclaresField classNode field := by
  rw [firstDeclarations_eq_firstsBy, mem_firstsBy_iff, DeclaresField]

theorem DeclaresField.mem (declared : policy.DeclaresField classNode field) :
    field ∈ policy.privateFields classNode := by
  rcases declared with ⟨before, after, split, -⟩
  simp [split]

/-- A class has one first declaration of each name. -/
theorem DeclaresField.eq_of_text {other : Cursor} (declared : policy.DeclaresField classNode field)
    (declared' : policy.DeclaresField classNode other) (same : field.text = other.text) :
    field = other := by
  have distinct := pairwise_firstsBy Cursor.text (policy.privateFields classNode)
  rw [← firstDeclarations_eq_firstsBy] at distinct
  rw [← mem_firstDeclarations_iff] at declared declared'
  have symmetric : Std.Symm fun first second : Cursor => first.text ≠ second.text :=
    ⟨fun _ _ => Ne.symm⟩
  by_contra different
  exact distinct.forall declared declared' different same

theorem exists_declaresField (field_mem : field ∈ policy.privateFields classNode) :
    ∃ first, policy.DeclaresField classNode first ∧ first.text = field.text := by
  rcases exists_mem_firstsBy Cursor.text field_mem with ⟨first, first_mem, text⟩
  rw [← firstDeclarations_eq_firstsBy, mem_firstDeclarations_iff] at first_mem
  exact ⟨first, first_mem, text⟩

theorem fieldIsUnused_iff :
    policy.fieldIsUnused (firstDeclarations (policy.privateFields classNode))
        (policy.fieldUses classNode) field = true ↔
      policy.LeavesUnused classNode field := by
  cases rule : policy.fieldRule with
  | declarationVersusUse =>
      simp only [fieldIsUnused, LeavesUnused, rule, ← mem_firstDeclarations_iff, Cursor.isSame,
        Bool.not_eq_true', List.any_eq_false, Bool.and_eq_true, List.contains_eq_mem,
        decide_eq_false_iff_not, List.mem_map, beq_iff_eq, not_and]
      apply forall₂_congr
      intro use _
      constructor
      · intro unused text
        by_contra elsewhere
        exact unused elsewhere text
      · intro declared elsewhere text
        exact elsewhere (declared text)
  | occurrenceCount => simp [fieldIsUnused, LeavesUnused, rule]

/-- The private fields that a class reports. -/
theorem mem_unusedPrivateFields_iff {symbol : Symbol} :
    symbol ∈ policy.unusedPrivateFields classNode ↔
      ∃ field, policy.ReportsField classNode field ∧ symbol = Symbol.ofField classNode field := by
  unfold unusedPrivateFields
  constructor
  · intro symbol_mem
    split at symbol_mem
    · simp at symbol_mem
    · next static =>
        simp only [List.mem_map, List.mem_filter, mem_firstDeclarations_iff, Bool.and_eq_true,
          Bool.not_eq_true', fieldIsUnused_iff] at symbol_mem
        rcases symbol_mem with ⟨field, ⟨declared, unused, notExempt⟩, rfl⟩
        exact ⟨field, ⟨by simpa using static, declared, unused, notExempt⟩, rfl⟩
  · rintro ⟨field, reports, rfl⟩
    rw [if_neg (by simp [reports.static])]
    simp only [List.mem_map, List.mem_filter, mem_firstDeclarations_iff, Bool.and_eq_true,
      Bool.not_eq_true', fieldIsUnused_iff]
    exact ⟨field, ⟨reports.declared, reports.unused, reports.notExempt⟩, rfl⟩

theorem ofField_mem_unusedPrivateFields_iff (declared : policy.DeclaresField classNode field) :
    Symbol.ofField classNode field ∈ policy.unusedPrivateFields classNode ↔
      policy.ReportsField classNode field := by
  rw [mem_unusedPrivateFields_iff]
  constructor
  · rintro ⟨other, reports, same⟩
    have text : field.text = other.text := congrArg Symbol.name same
    rwa [declared.eq_of_text reports.declared text]
  · exact fun reports => ⟨field, reports, rfl⟩

/-- The private fields among the unused symbols of a tree. -/
theorem mem_unusedSymbols_iff_of_isField {options : Options} {root : Node} {symbol : Symbol}
    (isField : symbol.kind = .privateField) :
    symbol ∈ policy.unusedSymbols options root ↔
      options.unusedPrivateFields = true ∧
        ∃ classNode field, (Cursor.ofRoot root).Contains classNode ∧
          policy.role classNode = .classLike ∧ policy.ReportsField classNode field ∧
          symbol = Symbol.ofField classNode field := by
  have noName : ∀ function, symbol ∉ policy.unusedNames function :=
    fun function symbol_mem => policy.kind_of_mem_unusedNames symbol_mem isField
  simp only [unusedSymbols_eq_filter_found, nodesWithRole, List.mem_filter, List.mem_append, List.mem_flatMap,
    Cursor.mem_descendants_iff, noName, beq_iff_eq, and_false, exists_false, false_or, and_assoc,
    mem_unusedPrivateFields_iff, isField, Options.reports]
  constructor
  · rintro ⟨⟨classNode, inside, role, field, reports, rfl⟩, enabled⟩
    exact ⟨enabled, classNode, field, inside, role, reports, rfl⟩
  · rintro ⟨enabled, classNode, field, inside, role, reports, rfl⟩
    exact ⟨⟨classNode, inside, role, field, reports, rfl⟩, enabled⟩

end Policy

end CodeFacts.Unused
