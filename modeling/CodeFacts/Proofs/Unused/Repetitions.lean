import CodeFacts.Proofs.Unused.Kinds
import CodeFacts.Proofs.Unused.UnreadNames
import Mathlib.Data.List.Destutter

/-!
# Order and repetitions of issues

Issues are sorted by line, name and kind, and then every issue that equals the one before it is
dropped. The order does not look at the class of a field, so equal issues need not be neighbours:
with three classes on one line, a field of the first may be reported, then one of the second that
has the same name, then the first again. Sorting is stable, hence a repetition is left over exactly
where the issues were found in such an alternation. Parameters and local variables belong to no
class and are reported once.
-/

namespace CodeFacts.Unused

theorem dropRepeats_eq_destutter (issues : List Issue) :
    dropRepeats issues = issues.destutter (· ≠ ·) := by
  fun_induction dropRepeats issues with
  | case1 => rfl
  | case2 only => rfl
  | case3 second rest ih => simp [ih, List.destutter_cons']
  | case4 first second rest different ih => simp [ih, List.destutter_cons', different]

/-- Whatever has no neighbouring repetitions itself is left when these are dropped. -/
theorem sublist_dropRepeats {kept issues : List Issue} (alternates : kept.IsChain (· ≠ ·))
    (sublist : kept.Sublist issues) : kept.Sublist (dropRepeats issues) := by
  fun_induction dropRepeats issues generalizing kept with
  | case1 => exact sublist
  | case2 only => exact sublist
  | case3 second rest ih =>
      apply ih alternates
      rcases List.sublist_cons_iff.mp sublist with later | ⟨tail, rfl, tail_sublist⟩
      · exact later
      · -- The tail does not start with the same issue again, so it needs only one of the two.
        rcases List.sublist_cons_iff.mp tail_sublist with later | ⟨others, rfl, -⟩
        · exact later.cons_cons second
        · simp at alternates
  | case4 first second rest different ih =>
      rcases List.sublist_cons_iff.mp sublist with later | ⟨tail, rfl, tail_sublist⟩
      · exact (ih alternates later).cons first
      · exact (ih alternates.of_cons tail_sublist).cons_cons first

theorem exists_between {issues : List Issue} (alternates : issues.IsChain (· ≠ ·)) {issue : Issue}
    (twice : [issue, issue].Sublist issues) :
    ∃ other, issue ≠ other ∧ [issue, other, issue].Sublist issues := by
  induction issues with
  | nil => simp at twice
  | cons head rest ih =>
      rcases List.sublist_cons_iff.mp twice with later | ⟨tail, same, again⟩
      · rcases ih alternates.of_cons later with ⟨other, different, sublist⟩
        exact ⟨other, different, sublist.cons head⟩
      · obtain ⟨rfl, rfl⟩ := List.cons.inj same
        cases rest with
        | nil => simp at again
        | cons next rest =>
            have different : issue ≠ next := (List.isChain_cons_cons.mp alternates).1
            refine ⟨next, different, ?_⟩
            rcases List.mem_cons.mp (List.singleton_sublist.mp again) with rfl | later
            · exact absurd rfl different
            · exact ((List.singleton_sublist.mpr later).cons_cons next).cons_cons issue

/-- Issues that the order does not tell apart stay in the order in which they were found. -/
theorem filter_key_mergeSort (issues : List Issue) (issue : Issue) :
    (issues.mergeSort Issue.le).filter (fun other => other.key = issue.key) =
      issues.filter (fun other => other.key = issue.key) := by
  rw [← mergeSort_filter Issue.le_trans Issue.le_total]
  apply List.mergeSort_of_pairwise
  apply List.pairwise_of_forall_mem_list
  intro first first_mem second second_mem
  simp only [List.mem_filter, decide_eq_true_eq] at first_mem second_mem
  rw [Issue.le_iff_key_le, first_mem.2, second_mem.2]

theorem sortIssues_sorted (issues : List Issue) :
    (sortIssues issues).Pairwise fun first second => first.key ≤ second.key := by
  have sorted := List.pairwise_mergeSort Issue.le_trans Issue.le_total issues
  simp only [Issue.le_iff_key_le] at sorted
  rw [sortIssues, dropRepeats_eq_destutter]
  exact sorted.sublist (List.destutter_sublist _ _)

theorem sublist_sortIssues_iff {first second : Issue} (different : first ≠ second)
    (same : second.key = first.key) (issues : List Issue) :
    [first, second, first].Sublist (sortIssues issues) ↔
      [first, second, first].Sublist issues := by
  have keep : [first, second, first].filter (fun other => other.key = first.key) =
      [first, second, first] := by
    simp [same]
  constructor
  · intro sublist
    rw [sortIssues, dropRepeats_eq_destutter] at sublist
    have found := (sublist.trans (List.destutter_sublist _ _)).filter
      fun other => other.key = first.key
    rw [keep, filter_key_mergeSort] at found
    exact found.trans List.filter_sublist
  · intro sublist
    have found := sublist.filter fun other => other.key = first.key
    rw [keep, ← filter_key_mergeSort] at found
    apply sublist_dropRepeats
    · simp [different, different.symm]
    · exact found.trans List.filter_sublist

/-- An issue that is left twice was found before and after another one with the same key. -/
theorem sublist_sortIssues_twice_iff (issues : List Issue) (issue : Issue) :
    [issue, issue].Sublist (sortIssues issues) ↔
      ∃ other, issue ≠ other ∧ other.key = issue.key ∧ [issue, other, issue].Sublist issues := by
  constructor
  · intro twice
    have alternates : (sortIssues issues).IsChain (· ≠ ·) := by
      rw [sortIssues, dropRepeats_eq_destutter]
      exact List.isChain_destutter _ _
    rcases exists_between alternates twice with ⟨other, different, sublist⟩
    have between := (sortIssues_sorted issues).sublist sublist
    simp only [List.pairwise_cons, List.mem_cons, List.not_mem_nil, or_false, forall_eq_or_imp,
      forall_eq] at between
    have same : other.key = issue.key := le_antisymm between.2.1 between.1.1
    exact ⟨other, different, same, (sublist_sortIssues_iff different same issues).mp sublist⟩
  · rintro ⟨other, different, same, sublist⟩
    have alternation := (sublist_sortIssues_iff different same issues).mpr sublist
    exact ((List.sublist_cons_self other [issue]).cons_cons issue).trans alternation

theorem Issue.ofSymbol_injective (file : String) : (Issue.ofSymbol file).Injective := by
  rintro ⟨name, kind, line, className⟩ ⟨name', kind', line', className'⟩ same
  simp only [Issue.ofSymbol, Issue.mk.injEq, true_and] at same
  rcases same with ⟨sameKind, rfl, rfl, rfl⟩
  rw [Policy.issueKind_injective sameKind]

/-- A private field of one class is found, then one of another class that has its name and stands
on its line, then the first again. -/
structure FieldReturns (symbols : List Symbol) (first second : Symbol) : Prop where
  found : [first, second, first].Sublist symbols
  isField : first.kind = .privateField
  sameKind : second.kind = first.kind
  sameLine : second.line = first.line
  sameName : second.name = first.name
  otherClass : second.className ≠ first.className

theorem key_ofSymbol_eq_iff (file : String) (first second : Symbol) :
    (Issue.ofSymbol file second).key = (Issue.ofSymbol file first).key ↔
      second.line = first.line ∧ second.name = first.name ∧ second.kind = first.kind := by
  have rank (kind kind' : SymbolKind) : kind.issueKind.rank = kind'.issueKind.rank ↔ kind = kind' := by
    cases kind <;> cases kind' <;> decide
  simp [Issue.key, Issue.ofSymbol, rank]

namespace Policy

variable (policy : Policy)

theorem className_of_mem_unusedSymbols {options : Options} {root : Node} {symbol : Symbol}
    (symbol_mem : symbol ∈ policy.unusedSymbols options root)
    (isName : symbol.kind ≠ .privateField) : symbol.className = none := by
  rcases (policy.mem_unusedSymbols_iff isName).mp symbol_mem with ⟨-, function, -, -, unused⟩
  exact ((policy.mem_unusedNames_iff_declaresUnread function symbol).mp unused).1

theorem fieldReturns_of_found {options : Options} {root : Node} {first second : Symbol}
    (found : [first, second, first].Sublist (policy.unusedSymbols options root))
    (different : first ≠ second) (sameLine : second.line = first.line)
    (sameName : second.name = first.name) (sameKind : second.kind = first.kind) :
    FieldReturns (policy.unusedSymbols options root) first second := by
  have otherClass : second.className ≠ first.className := by
    intro sameClass
    apply different
    cases first
    cases second
    simp_all
  refine ⟨found, ?_, sameKind, sameLine, sameName, otherClass⟩
  -- Only fields have a class, and without one the two would be equal.
  by_contra isName
  apply otherClass
  rw [policy.className_of_mem_unusedSymbols (found.mem (by simp)) isName,
    policy.className_of_mem_unusedSymbols (found.mem (by simp)) (sameKind.trans_ne isName)]

theorem sublist_issues_twice_iff (options : Options) (file : String) (root : Node)
    (issue : Issue) :
    [issue, issue].Sublist (policy.issues options file root) ↔
      ∃ first second, issue = Issue.ofSymbol file first ∧
        FieldReturns (policy.unusedSymbols options root) first second := by
  rw [issues, sublist_sortIssues_twice_iff]
  constructor
  · rintro ⟨other, different, same, sublist⟩
    rcases List.sublist_map_iff.mp sublist with ⟨symbols, found, images⟩
    rcases List.map_eq_cons_iff.mp images.symm with ⟨first, _, rfl, rfl, images'⟩
    rcases List.map_eq_cons_iff.mp images' with ⟨second, _, rfl, rfl, images''⟩
    rcases List.map_eq_singleton_iff.mp images'' with ⟨again, rfl, sameImage⟩
    obtain rfl := Issue.ofSymbol_injective file sameImage
    rcases (key_ofSymbol_eq_iff file again second).mp same with ⟨sameLine, sameName, sameKind⟩
    refine ⟨again, second, rfl, policy.fieldReturns_of_found found ?_ sameLine sameName sameKind⟩
    exact fun equal => different (congrArg _ equal)
  · rintro ⟨first, second, rfl, returns⟩
    refine ⟨Issue.ofSymbol file second, ?_, ?_, returns.found.map (Issue.ofSymbol file)⟩
    · intro same
      exact returns.otherClass (congrArg Issue.className same).symm
    · rw [key_ofSymbol_eq_iff]
      exact ⟨returns.sameLine, returns.sameName, returns.sameKind⟩

end Policy

/-- The issues of a file are sorted by line, name and kind. They are all different unless a field
returns behind the field of another class, and only fields are ever reported twice. -/
theorem issuesOf_sorted_and_distinct_unless_field_returns (language : Language) (options : Options)
    (file : String) (root : Node) :
    (issuesOf language options file root).Pairwise
        (fun first second => first.key ≤ second.key) ∧
      ((issuesOf language options file root).Nodup ↔
        ∀ first second,
          ¬FieldReturns ((policyFor language).unusedSymbols options root) first second) ∧
      ((issuesOf language options file root).filter
        fun issue => issue.kind ≠ .unusedPrivateField).Nodup := by
  have twice := (policyFor language).sublist_issues_twice_iff options file root
  refine ⟨sortIssues_sorted _, ?_, ?_⟩
  · rw [List.nodup_iff_sublist]
    constructor
    · intro distinct first second returns
      exact distinct _ ((twice _).mpr ⟨first, second, rfl, returns⟩)
    · intro none issue sublist
      rcases (twice issue).mp sublist with ⟨first, second, -, returns⟩
      exact none first second returns
  · rw [List.nodup_iff_sublist]
    intro issue sublist
    have kept : issue ∈ (issuesOf language options file root).filter
        fun issue => issue.kind ≠ .unusedPrivateField := sublist.mem List.mem_cons_self
    rcases (twice issue).mp (sublist.trans List.filter_sublist) with ⟨first, second, rfl, returns⟩
    simp [Issue.ofSymbol, returns.isField, SymbolKind.issueKind] at kept

/-- The block `{ class name { #a = 1; } }` on the first line, where the name is one letter. -/
def fieldClass (name : String) (start : Nat) : Node :=
  let span (first last : Nat) : Span :=
    ⟨start + first, start + last, 1, start + first + 1, 1, start + last + 1⟩
  let fieldName : Node :=
    ⟨"private_property_identifier", true, some "property", span 12 14, "#a", []⟩
  let field : Node :=
    ⟨"field_definition", true, some "member", span 12 18, "#a = 1", [fieldName]⟩
  let className : Node := ⟨"identifier", true, some "name", span 8 9, name, []⟩
  let body : Node := ⟨"class_body", true, some "body", span 10 21, "\x7b #a = 1; \x7d", [field]⟩
  let text := "class " ++ name ++ " \x7b #a = 1; \x7d"
  ⟨"statement_block", true, none, span 0 23, "\x7b " ++ text ++ " \x7d",
    [⟨"class_declaration", true, none, span 2 21, text, [className, body]⟩]⟩

/-- Three classes on one line, of which the first and the last have one name. -/
def alternatingClasses : Node :=
  let classes := [fieldClass "A" 0, fieldClass "B" 24, fieldClass "A" 48]
  ⟨"program", true, none, ⟨0, 71, 1, 1, 1, 72⟩, " ".intercalate (classes.map Node.text), classes⟩

theorem issuesOf_alternatingClasses_repeats_field :
    issuesOf .javaScript {} "a.js" alternatingClasses =
        ["A", "B", "A"].map (fun owner => ⟨.unusedPrivateField, "a.js", 1, "#a", some owner⟩) ∧
      ¬(issuesOf .javaScript {} "a.js" alternatingClasses).Nodup := by
  have found : JavaScript.policy.unusedSymbols {} alternatingClasses =
      ["A", "B", "A"].map fun owner => ⟨"#a", .privateField, 1, some owner⟩ := by
    decide +kernel
  have reported : issuesOf .javaScript {} "a.js" alternatingClasses =
      ["A", "B", "A"].map fun owner => ⟨.unusedPrivateField, "a.js", 1, "#a", some owner⟩ := by
    unfold issuesOf policyFor Policy.issues sortIssues
    rw [found, List.mergeSort_of_pairwise (by decide)]
    decide
  refine ⟨reported, ?_⟩
  rw [reported]
  decide

end CodeFacts.Unused
