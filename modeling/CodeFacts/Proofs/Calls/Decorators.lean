import CodeFacts.Proofs.Calls.Nesting
import CodeFacts.Proofs.Tree.Comments
import Mathlib.Data.List.DropRight

/-!
# The decorators of a declaration

Decorators are siblings of the definition that they decorate. They are looked for backwards from the
definition, and the search ends at the first named sibling that is no decorator. Comments are named
siblings, so a comment below a decorator hides it and all that stand above it. What is recorded is
right as far as it goes: the decorators below the last other sibling, in the order of the text.
-/

namespace CodeFacts

/-- What is taken from the end while a test succeeds is all that passes it, exactly if everything
behind something that passes it passes it too. -/
theorem rtakeWhile_eq_filter_iff {α : Type} (test : α → Bool) (elements : List α) :
    elements.rtakeWhile test = elements.filter test ↔
      elements.Pairwise fun earlier later => test earlier = true → test later = true := by
  induction elements using List.reverseRecOn with
  | nil => simp
  | append_singleton rest last ih =>
      cases passes : test last with
      | true => simp [List.pairwise_append, passes, ih]
      | false =>
          have failing : (∀ element ∈ rest, test element = false) →
              rest.Pairwise fun earlier later => test earlier = true → test later = true := by
            intro fail
            apply List.pairwise_of_forall_mem_list
            intro earlier earlier_mem later _ found
            simp [fail earlier earlier_mem] at found
          simpa [List.pairwise_append, passes] using failing

theorem rtakeWhile_append_of_pos {α : Type} {test : α → Bool} {first second : List α}
    (passes : ∀ element ∈ second, test element = true) :
    (first ++ second).rtakeWhile test = first.rtakeWhile test ++ second := by
  have reversed : ∀ element ∈ second.reverse, test element = true := by simpa using passes
  simp [List.rtakeWhile, List.takeWhile_append_of_pos reversed]

namespace Cursor

/-- The siblings before a node are the children of its parent before it. -/
theorem precedingNamedSiblings_of_split {parent cursor : Cursor} {before after : List Cursor}
    (split : parent.children = before ++ cursor :: after) :
    cursor.precedingNamedSiblings = (before.filter fun sibling => sibling.node.named).reverse := by
  have here : parent.children[before.length]? = some cursor := by simp [split]
  simp only [children, List.getElem?_map, Option.map_eq_some_iff, List.getElem?_zipIdx] at here
  rcases here with ⟨_, ⟨node, -, rfl⟩, rfl⟩
  have taken : parent.children.take before.length = before := by simp [split]
  simp only [precedingNamedSiblings, Nat.zero_add, taken]

end Cursor

namespace Calls

/-- Whether a node is a decorator. -/
def isDecorator (cursor : Cursor) : Bool :=
  cursor.node.named && cursor.kind == "decorator"

/-- The texts are those of the expressions of the decorators, one after the other. -/
def WriteExpressions (decorators : List Cursor) (texts : List String) : Prop :=
  List.Forall₂ (fun decorator text => ∃ expression,
    decorator.namedChildren.head? = some expression ∧ expression.text = text) decorators texts

/-- Behind a decorator no named sibling stands that is none. -/
def Uninterrupted (siblings : List Cursor) : Prop :=
  siblings.Pairwise fun earlier later =>
    isDecorator earlier = true → later.node.named = true → isDecorator later = true

theorem WriteExpressions.eq_map {decorators : List Cursor} {texts : List String}
    (written : WriteExpressions decorators texts) : texts = decorators.map decoratorText := by
  induction written with
  | nil => rfl
  | cons writes _ ih =>
      rcases writes with ⟨expression, first, rfl⟩
      simp [decoratorText, first, ih]

theorem decorators_recordOf {node : Cursor} (named : isNamedDefinition node = true) :
    (recordOf node).decorators = decorators node := by
  have declares := declaration?_recordOf named
  generalize recordOf node = record at declares
  simp only [declaration?] at declares
  split at declares
  · rcases Option.map_eq_some_iff.mp declares with ⟨name, -, rfl⟩
    rfl
  · split at declares
    · rcases Option.map_eq_some_iff.mp declares with ⟨name, -, rfl⟩
      rfl
    · simp at declares

section Siblings

variable {parent definition : Cursor} {before after : List Cursor}

/-- The decorators that are found are the run at the end of the named siblings before the
definition. -/
theorem decorators_of_split (split : parent.children = before ++ definition :: after) :
    decorators definition =
      ((before.filter fun sibling => sibling.node.named).rtakeWhile fun sibling =>
        sibling.kind == "decorator").map decoratorText := by
  simp only [decorators, Cursor.precedingNamedSiblings_of_split split, List.rtakeWhile,
    List.map_reverse]

theorem filter_isDecorator (siblings : List Cursor) :
    siblings.filter isDecorator =
      (siblings.filter fun sibling => sibling.node.named).filter fun sibling =>
        sibling.kind == "decorator" := by
  rw [List.filter_filter]
  apply List.filter_congr
  intro sibling _
  exact Bool.and_comm _ _

theorem uninterrupted_iff (siblings : List Cursor) :
    Uninterrupted siblings ↔
      (siblings.filter fun sibling => sibling.node.named).rtakeWhile
          (fun sibling => sibling.kind == "decorator") =
        siblings.filter isDecorator := by
  rw [filter_isDecorator, rtakeWhile_eq_filter_iff, List.pairwise_filter]
  apply List.Pairwise.iff
  intro earlier later
  simp only [isDecorator]
  cases earlier.node.named <;> cases later.node.named <;> simp

/-- All decorators are found exactly if nothing named stands between them and the definition. -/
theorem decorators_eq_iff (split : parent.children = before ++ definition :: after) :
    decorators definition = (before.filter isDecorator).map decoratorText ↔
      Uninterrupted before := by
  rw [decorators_of_split split, uninterrupted_iff]
  constructor
  · intro same
    -- The run is among the decorators, so it is all of them if it is as long.
    have length := congrArg List.length same
    simp only [List.length_map] at length
    refine List.Sublist.eq_of_length ?_ length
    rw [filter_isDecorator]
    have run := (List.rtakeWhile_suffix (fun sibling => sibling.kind == "decorator")
      (before.filter fun sibling => sibling.node.named)).sublist
    have passing := run.filter fun sibling => sibling.kind == "decorator"
    rwa [List.filter_eq_self.mpr fun sibling => List.mem_rtakeWhile_imp] at passing
  · exact congrArg (List.map decoratorText)

/-- The decorators below the last other sibling are found, whatever stands above it. -/
theorem decorators_eq_below (split : parent.children = before ++ definition :: after)
    {above below : List Cursor} (parted : before = above ++ below)
    (only : ∀ sibling ∈ below, sibling.node.named = true → isDecorator sibling = true)
    (ended : ∀ last ∈ above.getLast?, last.node.named = true ∧ isDecorator last = false) :
    decorators definition = (below.filter isDecorator).map decoratorText := by
  have passes : ∀ sibling ∈ below.filter (fun sibling => sibling.node.named),
      (sibling.kind == "decorator") = true := by
    intro sibling sibling_mem
    rcases List.mem_filter.mp sibling_mem with ⟨below_mem, isNamed⟩
    simpa [isDecorator, isNamed] using only sibling below_mem isNamed
  have stops : (above.filter fun sibling => sibling.node.named).rtakeWhile
      (fun sibling => sibling.kind == "decorator") = [] := by
    rcases List.eq_nil_or_concat above with rfl | ⟨earlier, last, rfl⟩
    · rfl
    · rcases ended last (by simp) with ⟨isNamed, other⟩
      have kind : last.kind ≠ "decorator" := by simpa [isDecorator, isNamed] using other
      simp [List.filter_append, isNamed, kind]
  rw [decorators_of_split split, filter_isDecorator, List.filter_eq_self.mpr passes, parted,
    List.filter_append, rtakeWhile_append_of_pos passes, stops, List.nil_append]

end Siblings

/-- The record of a definition has the decorators below the last named sibling that is none, in the
order of the text. These are all decorators before the definition exactly if no such sibling stands
behind one of them. -/
theorem decorators_complete_iff_uninterrupted (tree : Node) {parent definition : Cursor}
    {before after : List Cursor} (inside : (Cursor.ofRoot tree).Contains parent)
    (split : parent.children = before ++ definition :: after)
    (named : isNamedDefinition definition = true) :
    (definition ∈ definitionsOf tree ∧ declarationsOf tree = (definitionsOf tree).map recordOf) ∧
      (∀ above below texts, before = above ++ below →
        (∀ sibling ∈ below, sibling.node.named = true → isDecorator sibling = true) →
        (∀ last ∈ above.getLast?, last.node.named = true ∧ isDecorator last = false) →
        WriteExpressions (below.filter isDecorator) texts →
          (recordOf definition).decorators = texts) ∧
      ∀ texts, WriteExpressions (before.filter isDecorator) texts →
        ((recordOf definition).decorators = texts ↔ Uninterrupted before) := by
  have definition_mem : definition ∈ parent.children := by simp [split]
  have within := inside.trans (Cursor.contains_child definition_mem)
  refine ⟨⟨mem_definitionsOf_iff.mpr ⟨within, named⟩, declarationsOf_eq_map tree⟩, ?_, ?_⟩
  · intro above below texts parted only ended written
    rw [decorators_recordOf named, written.eq_map]
    exact decorators_eq_below split parted only ended
  · intro texts written
    rw [decorators_recordOf named, written.eq_map]
    exact decorators_eq_iff split

/-- The lines `@a`, `# c`, `@b` and `def g(): pass`. -/
def interruptedDefinition : Node :=
  let decorator (byte line : Nat) (name : String) : Node :=
    ⟨"decorator", true, none, ⟨byte, byte + 2, line, 1, line, 3⟩, "@" ++ name,
      [⟨"@", false, none, ⟨byte, byte + 1, line, 1, line, 2⟩, "@", []⟩,
        ⟨"identifier", true, none, ⟨byte + 1, byte + 2, line, 2, line, 3⟩, name, []⟩]⟩
  ⟨"decorated_definition", true, none, ⟨0, 23, 1, 1, 4, 14⟩, "@a\n# c\n@b\ndef g(): pass",
    [decorator 0 1 "a",
      ⟨"comment", true, none, ⟨3, 6, 2, 1, 2, 4⟩, "# c", []⟩,
      decorator 7 3 "b",
      ⟨"function_definition", true, some "definition", ⟨10, 23, 4, 1, 4, 14⟩, "def g(): pass",
        [⟨"identifier", true, some "name", ⟨14, 15, 4, 5, 4, 6⟩, "g", []⟩]⟩]⟩

/-- The tree of these lines. -/
def interruptedTree : Node :=
  ⟨"module", true, none, ⟨0, 24, 1, 1, 5, 1⟩, "@a\n# c\n@b\ndef g(): pass\n",
    [interruptedDefinition]⟩

/-- A comment stands between the two decorators of `g`. -/
theorem exists_interrupted_siblings :
    ∃ parent first comment second definition : Cursor,
      (Cursor.ofRoot interruptedTree).Contains parent ∧ parent.kind = "decorated_definition" ∧
      parent.childByField? "definition" = some definition ∧
      parent.children = [first, comment, second] ++ [definition] ∧
      isNamedDefinition definition = true ∧ comment.node.IsComment ∧ isDecorator second = true ∧
      WriteExpressions ([first, comment, second].filter isDecorator) ["a", "b"] ∧
      WriteExpressions ([second].filter isDecorator) ["b"] := by
  refine ⟨⟨interruptedDefinition, [(interruptedTree, 0)]⟩, _, _, _, _,
    Cursor.contains_child List.mem_cons_self, rfl, rfl, rfl, by decide, ⟨rfl, rfl, rfl, rfl⟩,
    by decide, ?_, ?_⟩
  · exact .cons ⟨_, rfl, rfl⟩ (.cons ⟨_, rfl, rfl⟩ .nil)
  · exact .cons ⟨_, rfl, rfl⟩ .nil

/-- Of two decorators with a comment between them the lower one is recorded. -/
theorem decorators_complete_iff_uninterrupted_of_interruptedTree :
    ∃ parent first comment second definition,
      (Cursor.ofRoot interruptedTree).Contains parent ∧
      parent.children = [first, comment, second] ++ [definition] ∧
      isNamedDefinition definition = true ∧
      WriteExpressions ([second].filter isDecorator) ["b"] ∧
      (recordOf definition).decorators = ["b"] ∧ ¬Uninterrupted [first, comment, second] := by
  rcases exists_interrupted_siblings with ⟨parent, first, comment, second, definition, inside, -, -,
    split, named, isComment, isLower, all, lower⟩
  have facts := decorators_complete_iff_uninterrupted interruptedTree inside split named
  have recorded := facts.2.1 [first, comment] [second] ["b"] rfl (by simp [isLower])
    (by simp [isDecorator, Cursor.kind, isComment.named, isComment.kind]) lower
  refine ⟨parent, first, comment, second, definition, inside, split, named, lower, recorded, ?_⟩
  rw [← facts.2.2 ["a", "b"] all, recorded]
  decide

/-- A comment between two decorators hides the upper one. -/
theorem comment_hides_decorator :
    ∃ parent first comment second definition,
      (Cursor.ofRoot interruptedTree).Contains parent ∧ parent.kind = "decorated_definition" ∧
      parent.childByField? "definition" = some definition ∧
      parent.children = [first, comment, second] ++ [definition] ∧ comment.kind = "comment" ∧
      WriteExpressions ([first, comment, second].filter isDecorator) ["a", "b"] ∧
      recordOf definition ∈ declarationsOf interruptedTree ∧
      (recordOf definition).decorators = ["b"] := by
  rcases exists_interrupted_siblings with ⟨parent, first, comment, second, definition, inside, kind,
    field, split, named, isComment, isLower, all, lower⟩
  have within := inside.trans (Cursor.contains_of_childByField? field)
  refine ⟨parent, first, comment, second, definition, inside, kind, field, split, isComment.kind,
    all, ?_, ?_⟩
  · rw [declarationsOf_eq_map]
    exact List.mem_map_of_mem (mem_definitionsOf_iff.mpr ⟨within, named⟩)
  · rw [decorators_recordOf named, lower.eq_map]
    exact decorators_eq_below split (rfl : _ = [first, comment] ++ [second]) (by simp [isLower])
      (by simp [isDecorator, Cursor.kind, isComment.named, isComment.kind])

end Calls

end CodeFacts
