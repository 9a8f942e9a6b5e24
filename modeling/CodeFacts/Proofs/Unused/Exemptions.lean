import CodeFacts.Proofs.Unused.FieldOwners

/-!
# Names that are never reported

Several steps of the analysis look at names. The names of the receiving instance and the empty name
are left out when a scope is built, a language may ask more of a private field than its declaration
shows, and a leading underscore is tested last. Together the steps come to one condition on names
for each kind of symbol. Every report satisfies it, and an unused symbol whose name satisfies it is
not exempt for any other reason.
-/

namespace CodeFacts.Unused

/-- The names under which a method knows its receiving instance or class. -/
def instanceNames : Language → List String
  | .python => ["self", "cls"]
  | .go => []
  | .javaScript | .typeScript | .tsx | .java => ["this"]

/-- What a private field may be called so that a language lets it be reported. -/
def ReportableFieldName (language : Language) (name : String) : Prop :=
  match language with
  | .python =>
      ['_'] <+: name.toList ∧ ¬(['_', '_'] <+: name.toList ∧ ['_', '_'] <:+ name.toList)
  | .go =>
      ¬['_'] <+: name.toList ∧
        ∃ first rest, name.toList = first :: rest ∧ Text.isLowercase first = true
  | .java => ¬['_'] <+: name.toList ∧ name ≠ "serialVersionUID"
  | .javaScript | .typeScript | .tsx => ¬['_'] <+: name.toList

/-- What a symbol may be called so that a language lets it be reported. -/
def ReportableName (language : Language) (kind : SymbolKind) (name : String) : Prop :=
  match kind with
  | .parameter => name ≠ "" ∧ ¬['_'] <+: name.toList ∧ name ∉ instanceNames language
  | .localVariable => name ≠ "" ∧ ¬['_'] <+: name.toList
  | .privateField => name ≠ "_" ∧ ReportableFieldName language name

theorem startsWithUnderscore_iff {name : String} :
    startsWithUnderscore name = true ↔ ['_'] <+: name.toList := by
  cases chars : name.toList with
  | nil => simp [startsWithUnderscore, chars]
  | cons first rest =>
      rw [startsWithUnderscore, chars, List.head?_cons, beq_iff_eq, Option.some.injEq,
        List.cons_prefix_cons, eq_comm]
      exact (and_iff_left (List.nil_prefix)).symm

theorem selfNames_policyFor (language : Language) :
    (policyFor language).selfNames = instanceNames language := by
  cases language <;> rfl

theorem Python.isPrivate_iff {name : String} :
    Python.isPrivate name = true ↔
      ['_'] <+: name.toList ∧ ¬(['_', '_'] <+: name.toList ∧ ['_', '_'] <:+ name.toList) := by
  simp only [Python.isPrivate, Bool.and_eq_true, Bool.not_eq_true', ← Bool.not_eq_true,
    List.isPrefixOf_iff_prefix, List.isSuffixOf_iff_suffix]
  rfl

namespace Go

theorem isUnexported_iff {name : String} :
    isUnexported name = true ↔
      ∃ first rest, name.toList = first :: rest ∧ Text.isLowercase first = true := by
  cases chars : name.toList with
  | nil => simp [isUnexported, chars]
  | cons first rest => simp [isUnexported, chars]

theorem startsWithUnderscore_of_isUnexported {name : String}
    (unexported : isUnexported name = true) : startsWithUnderscore name = false := by
  rcases isUnexported_iff.mp unexported with ⟨first, rest, chars, lowercase⟩
  rw [startsWithUnderscore, chars, List.head?_cons, beq_eq_false_iff_ne]
  intro underscore
  rw [Option.some.inj underscore] at lowercase
  exact absurd lowercase (by decide +kernel)

end Go

namespace Policy

variable (policy : Policy)

/-- A symbol that nothing uses, whether or not its name exempts it: a function declares the name
first and never reads it, or a class leaves its private field unused. -/
inductive Neglects (root : Node) : Symbol → Prop
  | name {function body : Cursor} {kind : SymbolKind} {line : Nat} {name : String}
      (inside : (Cursor.ofRoot root).Contains function)
      (role : policy.role function = .function)
      (hasBody : body? function = some body)
      (first : policy.DeclaresFirst function body kind line name)
      (unread : policy.NeverReads function body name) :
      Neglects root ⟨name, kind, line, none⟩
  | field {classNode field : Cursor}
      (inside : (Cursor.ofRoot root).Contains classNode)
      (role : policy.role classNode = .classLike)
      (static : policy.hasDynamicAccess classNode = false)
      (declared : policy.DeclaresField classNode field)
      (unused : policy.LeavesUnused classNode field) :
      Neglects root (Symbol.ofField classNode field)

/-- What is asked of the name of a symbol that is found to be unused. -/
def Admits (kind : SymbolKind) (name : String) : Prop :=
  match kind with
  | .parameter | .localVariable => name ≠ "" ∧ startsWithUnderscore name = false
  | .privateField => policy.exemptsField name = false

variable {policy} {root : Node}

/-- The reported symbols are the unused ones whose kind and name are admitted. -/
theorem mem_unusedSymbols_iff_neglects {options : Options} {symbol : Symbol} :
    symbol ∈ policy.unusedSymbols options root ↔
      options.reports symbol.kind = true ∧ policy.Neglects root symbol ∧
        policy.Admits symbol.kind symbol.name := by
  by_cases isField : symbol.kind = .privateField
  · rw [mem_unusedSymbols_iff_of_isField isField, isField]
    refine and_congr_right fun _ => ?_
    constructor
    · rintro ⟨classNode, field, inside, role, reports, rfl⟩
      exact ⟨.field inside role reports.static reports.declared reports.unused, reports.notExempt⟩
    · rintro ⟨neglects, notExempt⟩
      cases neglects with
      | name _ _ _ first _ =>
          rcases first.kind_cases with ⟨kind, -⟩ | kind <;> simp [kind] at isField
      | @field classNode field inside role static declared unused =>
          exact ⟨classNode, field, inside, role, ⟨static, declared, unused, notExempt⟩, rfl⟩
  · rw [policy.mem_unusedSymbols_iff isField]
    refine and_congr_right fun _ => ?_
    constructor
    · rintro ⟨function, inside, role, unused⟩
      rcases (policy.mem_unusedNames_iff_declaresUnread function symbol).mp unused with
        ⟨noClass, body, hasBody, declares⟩
      rcases symbol with ⟨name, kind, line, className⟩
      obtain rfl : className = none := noClass
      refine ⟨.name inside role hasBody declares.first declares.unread, ?_⟩
      rcases declares.first.kind_cases with ⟨rfl, -⟩ | rfl
      all_goals exact ⟨declares.named, declares.notExempt⟩
    · rintro ⟨neglects, admits⟩
      cases neglects with
      | @name function body kind line name inside role hasBody first unread =>
          have named : name ≠ "" ∧ startsWithUnderscore name = false := by
            rcases first.kind_cases with ⟨rfl, -⟩ | rfl <;> exact admits
          refine ⟨function, inside, role, (policy.mem_unusedNames_iff_declaresUnread _ _).mpr ?_⟩
          exact ⟨rfl, body, hasBody, named.1, named.2, first, unread⟩
      | field => exact absurd rfl isField

end Policy

theorem Policy.exemptsField_eq_false_iff {policy : Policy} {name : String} :
    policy.exemptsField name = false ↔
      name ≠ "_" ∧ (policy.underscoreMarksPrivacy = false → ¬['_'] <+: name.toList) := by
  rw [← startsWithUnderscore_iff]
  cases marks : policy.underscoreMarksPrivacy <;> simp [exemptsField, marks]

/-- Whatever a language asks of the name of a private field, its declarations have been tested for.
Only the underscore is left to be tested. -/
theorem reportableFieldName_iff {language : Language} {classNode field : Cursor}
    (declared : field ∈ (policyFor language).privateFields classNode) :
    field.text ≠ "_" ∧ ReportableFieldName language field.text ↔
      (policyFor language).exemptsField field.text = false := by
  rw [Policy.exemptsField_eq_false_iff]
  refine and_congr_right fun _ => ?_
  cases language with
  | python =>
      have isPrivate := Python.isPrivate_iff.mp (Python.mem_privateFields_iff.mp declared).1
      simp [ReportableFieldName, policyFor, Python.policy, isPrivate]
  | go =>
      have unexported := Go.isUnexported_iff.mp (Go.mem_privateFields_iff.mp declared).1
      exact (and_iff_left unexported).trans (by simp [policyFor, Go.policy])
  | java =>
      have notSerial := (Java.exists_of_mem_privateFields declared).1
      simp [ReportableFieldName, policyFor, Java.policy, notSerial]
  | javaScript => simp [ReportableFieldName, policyFor, JavaScript.policy]
  | typeScript => simp [ReportableFieldName, policyFor, TypeScript.policy]
  | tsx => simp [ReportableFieldName, policyFor, TypeScript.policy]

theorem reportableName_iff_admits {language : Language} {root : Node} {symbol : Symbol}
    (neglects : (policyFor language).Neglects root symbol) :
    ReportableName language symbol.kind symbol.name ↔
      (policyFor language).Admits symbol.kind symbol.name := by
  cases neglects with
  | name _ _ _ first _ =>
      rcases first.kind_cases with ⟨rfl, notSelf⟩ | rfl
      · rw [selfNames_policyFor] at notSelf
        simp [ReportableName, Policy.Admits, notSelf, ← startsWithUnderscore_iff]
      · simp [ReportableName, Policy.Admits, ← startsWithUnderscore_iff]
  | field _ _ _ declared _ => exact reportableFieldName_iff declared.mem

/-- A symbol is reported exactly if its kind is to be reported, nothing uses it and its name is not
exempt in the language. -/
theorem reported_iff_neglected_and_reportable (language : Language) (options : Options)
    (file : String) (root : Node) (issue : Issue) :
    issue ∈ issuesOf language options file root ↔
      ∃ symbol, issue = Issue.ofSymbol file symbol ∧ options.reports symbol.kind = true ∧
        (policyFor language).Neglects root symbol ∧
        ReportableName language symbol.kind symbol.name := by
  rw [mem_issuesOf_iff]
  constructor
  · rintro ⟨symbol, symbol_mem, rfl⟩
    rcases Policy.mem_unusedSymbols_iff_neglects.mp symbol_mem with ⟨enabled, neglects, admits⟩
    exact ⟨symbol, rfl, enabled, neglects, (reportableName_iff_admits neglects).mpr admits⟩
  · rintro ⟨symbol, rfl, enabled, neglects, reportable⟩
    refine ⟨symbol, Policy.mem_unusedSymbols_iff_neglects.mpr ⟨enabled, neglects, ?_⟩, rfl⟩
    exact (reportableName_iff_admits neglects).mp reportable

end CodeFacts.Unused
