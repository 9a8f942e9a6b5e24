import CodeFacts.Proofs.Unused.UnreadNames
import Mathlib.Data.List.Basic
import Mathlib.Data.Prod.Lex
import Mathlib.Data.String.Basic

/-!
# Leaving out kinds of issues

Options are applied to the symbols of a file, before the issues are sorted and repeated ones are
dropped. Leaving out issues of the finished list instead gives the same. The sorting is stable, so
it does not matter whether something is left out before it or after it. For the repetitions it
could matter: two equal issues become neighbours if what stands between them is left out. But the
order of issues looks at the kind, so whatever is sorted between two equal issues is of their kind,
and is left out only together with them.
-/

namespace CodeFacts.Unused

section StableSort

variable {α : Type} {le : α → α → Bool}
  (trans : ∀ first second third, le first second → le second third → le first third)
  (total : ∀ first second, le first second || le second first)

include trans total

/-- One more element at the front is sorted behind exactly those that have to come before it. -/
theorem mergeSort_cons_eq (head : α) (rest : List α) :
    (head :: rest).mergeSort le =
      (rest.mergeSort le).filter (fun other => !le head other) ++
        head :: (rest.mergeSort le).filter (le head) := by
  rcases List.mergeSort_cons trans total head rest with ⟨before, after, sorted, others, greater⟩
  have ordered := List.pairwise_mergeSort trans total (head :: rest)
  rw [sorted] at ordered
  have notBelow : ∀ other ∈ after, le head other = true :=
    (List.pairwise_cons.mp (List.pairwise_append.mp ordered).2.1).1
  have noneBefore : before.filter (le head) = [] := by simpa using greater
  have noneAfter : after.filter (fun other => !le head other) = [] := by simpa using notBelow
  simp [sorted, others, noneBefore, noneAfter, List.filter_eq_self.mpr greater,
    List.filter_eq_self.mpr notBelow]

/-- Elements can be left out before or after a stable sorting. -/
theorem mergeSort_filter (keep : α → Bool) (elements : List α) :
    (elements.filter keep).mergeSort le = (elements.mergeSort le).filter keep := by
  induction elements with
  | nil => simp
  | cons head rest ih =>
      cases kept : keep head with
      | true =>
          rw [List.filter_cons_of_pos kept, mergeSort_cons_eq trans total,
            mergeSort_cons_eq trans total, ih]
          simp [List.filter_filter, kept, Bool.and_comm]
      | false =>
          rcases List.mergeSort_cons trans total head rest with ⟨before, after, sorted, others, -⟩
          simp [sorted, kept, ih, others]

end StableSort

namespace Issue

/-- What the order of issues looks at. -/
def key (issue : Issue) : ℕ ×ₗ String ×ₗ ℕ :=
  toLex (issue.line, toLex (issue.symbolName, issue.kind.rank))

theorem le_iff_key_le (first second : Issue) : first.le second = true ↔ first.key ≤ second.key := by
  simp [le, key, Prod.Lex.le_iff]

protected theorem le_trans (first second third : Issue) (before : first.le second = true)
    (after : second.le third = true) : first.le third = true := by
  rw [le_iff_key_le] at *
  exact before.trans after

protected theorem le_total (first second : Issue) : (first.le second || second.le first) = true := by
  rw [Bool.or_eq_true, le_iff_key_le, le_iff_key_le]
  exact le_total first.key second.key

/-- Issues that the order does not tell apart are of one kind. -/
theorem kind_eq_of_le_of_le {first second : Issue} (before : first.le second = true)
    (after : second.le first = true) : first.kind = second.kind := by
  rw [le_iff_key_le] at before after
  have same : first.key = second.key := le_antisymm before after
  have rank_eq : first.kind.rank = second.kind.rank := by
    simpa [key] using congrArg (fun place => (ofLex (ofLex place).2).2) same
  cases one : first.kind <;> cases other : second.kind <;> simp_all [IssueKind.rank]

end Issue

theorem dropRepeats_cons_of_head?_ne {first : Issue} {issues : List Issue}
    (different : issues.head? ≠ some first) :
    dropRepeats (first :: issues) = first :: dropRepeats issues := by
  cases issues with
  | nil => rfl
  | cons second rest =>
      have ne : first ≠ second := fun same => different (by simp [same])
      simp [dropRepeats, ne]

/-- Repetitions can be dropped before or after issues are left out, if the issues are sorted and
those that the order does not tell apart are left out together. -/
theorem dropRepeats_filter {keep : Issue → Bool}
    (together : ∀ first second, first.le second = true → second.le first = true →
      keep first = keep second)
    {issues : List Issue} (sorted : issues.Pairwise fun first second => first.le second = true) :
    dropRepeats (issues.filter keep) = (dropRepeats issues).filter keep := by
  fun_induction dropRepeats issues with
  | case1 => rfl
  | case2 only => cases kept : keep only <;> simp [kept, dropRepeats]
  | case3 second rest ih =>
      rw [← ih (List.pairwise_cons.mp sorted).2]
      cases kept : keep second <;> simp [kept, dropRepeats]
  | case4 first second rest different ih =>
      rw [List.pairwise_cons] at sorted
      rcases sorted with ⟨before, rest_sorted⟩
      specialize ih rest_sorted
      cases kept : keep first with
      | false => simpa [kept] using ih
      | true =>
          rw [List.filter_cons_of_pos kept, List.filter_cons_of_pos kept, ← ih]
          apply dropRepeats_cons_of_head?_ne
          intro head
          -- The next issue that is kept stands behind the second one, so if it is the first one
          -- again, the order does not tell the first and the second one apart.
          cases second_kept : keep second with
          | true =>
              rw [List.filter_cons_of_pos second_kept] at head
              exact different (Option.some.inj head).symm
          | false =>
              rw [List.filter_cons_of_neg (by simp [second_kept])] at head
              have first_mem : first ∈ rest := List.mem_of_mem_filter (List.mem_of_head? head)
              have after := (List.pairwise_cons.mp rest_sorted).1 first first_mem
              have same := together first second (before second List.mem_cons_self) after
              rw [kept, second_kept] at same
              contradiction

/-- Whether the options report issues of a kind. -/
def Options.reportsIssues (options : Options) : IssueKind → Bool
  | .unusedParameter => options.unusedParameters
  | .unusedLocalVariable => options.unusedLocals
  | .unusedPrivateField => options.unusedPrivateFields

theorem Options.reportsIssues_issueKind (options : Options) (kind : SymbolKind) :
    options.reportsIssues kind.issueKind = options.reports kind := by
  cases kind <;> rfl

theorem sortIssues_filter_kind (keep : IssueKind → Bool) (issues : List Issue) :
    sortIssues (issues.filter fun issue => keep issue.kind) =
      (sortIssues issues).filter fun issue => keep issue.kind := by
  unfold sortIssues
  rw [mergeSort_filter Issue.le_trans Issue.le_total]
  apply dropRepeats_filter
  · intro first second before after
    rw [Issue.kind_eq_of_le_of_le before after]
  · exact List.pairwise_mergeSort Issue.le_trans Issue.le_total issues

theorem Policy.unusedSymbols_eq_filter (policy : Policy) (options : Options) (root : Node) :
    policy.unusedSymbols options root =
      (policy.unusedSymbols {} root).filter fun symbol => options.reports symbol.kind := by
  have all : ∀ kind, ({} : Options).reports kind = true := by
    intro kind
    cases kind <;> rfl
  simp [unusedSymbols_eq_filter_found, all]

/-- Options leave issues out of those that are reported without them, and change nothing else. -/
theorem issuesOf_leaves_out_disabled_kinds (language : Language) (options : Options)
    (file : String) (root : Node) :
    issuesOf language options file root =
      (issuesOf language {} file root).filter fun issue => options.reportsIssues issue.kind := by
  have kept : (fun issue => options.reportsIssues issue.kind) ∘ Issue.ofSymbol file =
      fun symbol => options.reports symbol.kind := by
    funext symbol
    exact options.reportsIssues_issueKind symbol.kind
  unfold issuesOf Policy.issues
  rw [← sortIssues_filter_kind, List.filter_map, kept, ← Policy.unusedSymbols_eq_filter]

end CodeFacts.Unused
