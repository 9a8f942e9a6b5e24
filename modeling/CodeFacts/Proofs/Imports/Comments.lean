import CodeFacts.Imports.ModuleFacts
import CodeFacts.Proofs.Tree.Comments
import Mathlib.Order.Monotone.Basic

/-!
# Imports and exports of a commented module

Statements and `require` calls are read by fields and kinds, which comments do not have, so
comments change neither what they import nor what is exported. A dynamic import is read by place:
its module is the first named child of its arguments. A comment in front of the literal takes that
place, and the import is lost. Nothing else is: the specifiers of a commented module are among
those of the bare one, and they are the same list, in the same order, as soon as a comment leads
the arguments of the same dynamic imports.

Exported names are texts of nodes. They stay the same unless a comment stands inside a name, which
only a name of several parts has room for.
-/

namespace CodeFacts.Imports

variable {move : Nat → Nat} {bare commented : Cursor}

section Relatives

variable {α β : Type*} {related : α → β → Prop}

theorem forall₂_toList {first : Option α} {second : Option β}
    (relatives : Option.Rel related first second) :
    List.Forall₂ related first.toList second.toList := by
  cases relatives with
  | none => exact .nil
  | some relatives => exact .cons relatives .nil

theorem any_eq_of_rel {test : α → Bool} {test' : β → Bool} {first : Option α}
    {second : Option β} (relatives : Option.Rel related first second)
    (agree : ∀ first second, related first second → test' second = test first) :
    second.any test' = first.any test := by
  cases relatives with
  | none => rfl
  | some relatives => exact agree _ _ relatives

theorem rel_filter {test : α → Bool} {test' : β → Bool} {first : Option α} {second : Option β}
    (relatives : Option.Rel related first second)
    (agree : ∀ first second, related first second → test' second = test first) :
    Option.Rel related (first.filter test) (second.filter test') := by
  cases relatives with
  | none => exact .none
  | some relatives =>
      simp only [Option.filter_some, agree _ _ relatives]
      split
      · exact .some relatives
      · exact .none

theorem rel_or {first first' : Option α} {second second' : Option β}
    (relatives : Option.Rel related first second)
    (relatives' : Option.Rel related first' second') :
    Option.Rel related (first.or first') (second.or second') := by
  cases relatives with
  | none => exact relatives'
  | some relatives => exact .some relatives

theorem map_eq_of_forall₂ {γ : Type*} {view : α → γ} {view' : β → γ} {firsts : List α}
    {seconds : List β} (relatives : List.Forall₂ related firsts seconds)
    (agree : ∀ first second, related first second → view' second = view first) :
    seconds.map view' = firsts.map view := by
  induction relatives with
  | nil => rfl
  | cons relative _ ih => simp [agree _ _ relative, ih]

theorem any_eq_of_forall₂ {test : α → Bool} {test' : β → Bool} {firsts : List α}
    {seconds : List β} (relatives : List.Forall₂ related firsts seconds)
    (agree : ∀ first second, related first second → test' second = test first) :
    seconds.any test' = firsts.any test := by
  induction relatives with
  | nil => rfl
  | cons relative _ ih => simp [agree _ _ relative, ih]

theorem isEmpty_eq_of_forall₂ {firsts : List α} {seconds : List β}
    (relatives : List.Forall₂ related firsts seconds) : seconds.isEmpty = firsts.isEmpty := by
  cases relatives <;> rfl

/-- Relatives whose views agree in order are relatives with the same view. -/
theorem forall₂_and_of_map_eq {γ : Type*} {view : α → γ} {view' : β → γ} {firsts : List α}
    {seconds : List β} (relatives : List.Forall₂ related firsts seconds)
    (same : seconds.map view' = firsts.map view) :
    List.Forall₂ (fun first second => related first second ∧ view' second = view first) firsts
      seconds := by
  induction relatives with
  | nil => exact .nil
  | cons relative _ ih =>
      simp only [List.map_cons, List.cons.injEq] at same
      exact (ih same.2).cons ⟨relative, same.1⟩

end Relatives

section Sources

theorem kind_of_isStringNode {cursor : Cursor} (string : isStringNode cursor = true) :
    cursor.kind = "string" := by
  simp only [isStringNode, Bool.and_eq_true, beq_iff_eq] at string
  exact string.1

theorem isStringNode_commented (inserted : bare.Commented move commented) :
    isStringNode commented = isStringNode bare := by
  rw [isStringNode, isStringNode, inserted.kind, inserted.keeps.named]

theorem isRequireCall_commented (inserted : bare.Commented move commented) :
    isRequireCall commented = isRequireCall bare := by
  apply any_eq_of_forall₂ (inserted.childrenByField "function")
  intro callee callee' relatives
  by_cases identifier : callee.kind = "identifier"
  · have text : callee'.text = callee.text := relatives.keeps.text (.inr (.inr identifier))
    simp only [relatives.kind, relatives.keeps.named, text]
  · have other : (callee.kind == "identifier") = false := by simpa using identifier
    simp only [relatives.kind, other, Bool.false_and]

theorem staticSources_commented (inserted : bare.Commented move commented) :
    List.Forall₂ (Cursor.Commented move) (staticSources bare) (staticSources commented) := by
  rw [staticSources, staticSources, inserted.kind, isRequireCall_commented inserted]
  split
  · apply List.rel_filter _ (inserted.childrenByField "source")
    intro source source' relatives
    simp only [isStringNode_commented relatives]
  · split
    · apply List.rel_flatMap
      · apply List.rel_filter _ (inserted.childrenByField "arguments")
        intro list list' relatives
        simp only [relatives.kind]
      · intro list list' relatives
        apply relatives.children.forall₂_filter
        · intro source source' relatives
          exact (isStringNode_commented relatives).symm
        · intro source comment
          simp [isStringNode, Cursor.kind, comment.kind]
    · exact .nil

theorem kind_of_mem_staticSources {cursor source : Cursor}
    (source_mem : source ∈ staticSources cursor) : source.kind = "string" := by
  unfold staticSources at source_mem
  split at source_mem
  · exact kind_of_isStringNode (List.mem_filter.mp source_mem).2
  · split at source_mem
    · obtain ⟨list, -, listed⟩ := List.mem_flatMap.mp source_mem
      exact kind_of_isStringNode (List.mem_filter.mp listed).2
    · simp at source_mem

/-- Whether a call is a dynamic import. -/
def isDynamicImport (call : Cursor) : Bool :=
  (call.childByField? "function").any fun callee => callee.kind == "import"

/-- The first named child of the arguments of a call. -/
def firstArgument? (call : Cursor) : Option Cursor :=
  (call.childByField? "arguments").bind fun list => list.namedChildren.head?

/-- Whether a comment stands in front of the arguments of a call. -/
def startsWithComment (call : Cursor) : Bool :=
  (firstArgument? call).any fun first => first.kind == "comment"

theorem dynamicSource?_eq (call : Cursor) :
    dynamicSource? call =
      if isDynamicImport call then (firstArgument? call).filter fun first => first.kind == "string"
      else none := by
  unfold dynamicSource? isDynamicImport firstArgument?
  cases call.childByField? "function" with
  | none => rfl
  | some callee =>
      cases call.childByField? "arguments" with
      | none => simp
      | some list =>
          cases head : list.namedChildren.head? with
          | none => simp [head]
          | some first => simp [head, Option.filter_some]

theorem kind_of_dynamicSource? {call source : Cursor} (found : dynamicSource? call = some source) :
    source.kind = "string" := by
  rw [dynamicSource?_eq] at found
  split at found
  · simpa using (Option.filter_eq_some_iff.mp found).2
  · simp at found

/-- A comment in front of the arguments takes the place in which the literal is looked for. -/
theorem dynamicSource?_eq_none {call : Cursor} (led : startsWithComment call = true) :
    dynamicSource? call = none := by
  rw [dynamicSource?_eq]
  unfold startsWithComment at led
  cases first : firstArgument? call with
  | none => simp
  | some comment =>
      have kind : comment.kind = "comment" := by simpa [first] using led
      simp [Option.filter_some, kind]

theorem isDynamicImport_commented (inserted : bare.Commented move commented) :
    isDynamicImport commented = isDynamicImport bare := by
  apply any_eq_of_rel (inserted.childByField? "function")
  intro callee callee' relatives
  simp only [relatives.kind]

theorem rel_firstArgument? (inserted : bare.Commented move commented)
    (unled : startsWithComment commented = false) :
    Option.Rel (Cursor.Commented move) (firstArgument? bare) (firstArgument? commented) := by
  have lists := inserted.childByField? "arguments"
  unfold startsWithComment firstArgument? at unled
  unfold firstArgument?
  generalize bare.childByField? "arguments" = list at lists
  generalize commented.childByField? "arguments" = list' at lists unled
  cases lists with
  | none => exact .none
  | some relatives =>
      rcases relatives.namedChildren.head? with ⟨comment, first, isComment⟩ | heads
      · simp [first, Cursor.kind, isComment.kind] at unled
      · exact heads

/-- A dynamic import that no comment leads imports the same. -/
theorem rel_dynamicSource? (inserted : bare.Commented move commented)
    (unled : startsWithComment commented = false) :
    Option.Rel (Cursor.Commented move) (dynamicSource? bare) (dynamicSource? commented) := by
  rw [dynamicSource?_eq, dynamicSource?_eq, isDynamicImport_commented inserted]
  split
  · apply rel_filter (rel_firstArgument? inserted unled)
    intro source source' relatives
    simp only [relatives.kind]
  · exact .none

end Sources

section ImportList

/-- The dynamic imports of a tree. -/
def dynamicImports (root : Cursor) : List Cursor :=
  (root.descendantsOfKind "call_expression").filter isDynamicImport

/-- The literals of statements and `require` calls that are not empty. -/
def staticLiterals (root : Cursor) : List Cursor :=
  (root.descendants.flatMap staticSources).filter fun source => unquote source.text != ""

/-- The first calls of a list of pairs in which no comment leads the arguments of the second. -/
def unledCalls (calls calls' : List Cursor) : List Cursor :=
  ((calls.zip calls').filter fun pair => !startsWithComment pair.2).map Prod.fst

/-- The literals of a tree that the commented tree imports as well: all but those of dynamic
imports that a comment leads there. -/
def keptSources (bare commented : Cursor) : List Cursor :=
  staticLiterals bare ++
    (unledCalls (dynamicImports bare) (dynamicImports commented)).filterMap dynamicSource?

/-- Comments lead the arguments of the same dynamic imports in both trees. -/
def LedAlike (bare commented : Cursor) : Prop :=
  (dynamicImports commented).map startsWithComment = (dynamicImports bare).map startsWithComment

/-- Calls that are no dynamic imports can be left out. -/
theorem filterMap_dynamicSource? (calls : List Cursor) :
    calls.filterMap dynamicSource? = (calls.filter isDynamicImport).filterMap dynamicSource? := by
  rw [List.filterMap_filter]
  apply List.filterMap_congr
  intro call _
  split
  · rfl
  · rename_i other
    rw [dynamicSource?_eq, if_neg other]

theorem importSources_eq (root : Cursor) :
    importSources root = staticLiterals root ++ (dynamicImports root).filterMap dynamicSource? := by
  rw [importSources, filterMap_dynamicSource?, staticLiterals, dynamicImports]

/-- A literal and the same literal in the commented tree. -/
def SameLiteral (move : Nat → Nat) (source source' : Cursor) : Prop :=
  source.kind = "string" ∧ source.Commented move source'

theorem SameLiteral.text {source source' : Cursor} (same : SameLiteral move source source') :
    source'.text = source.text :=
  same.2.keeps.text (.inr (.inl same.1))

theorem staticSources_of_isComment {cursor : Cursor} (comment : cursor.node.IsComment) :
    staticSources cursor = [] := by
  simp [staticSources, Cursor.kind, comment.kind]

/-- Comments do not touch the literals of statements and `require` calls. -/
theorem staticLiterals_commented (inserted : bare.Commented move commented) :
    List.Forall₂ (SameLiteral move) (staticLiterals bare) (staticLiterals commented) := by
  have sources : List.Forall₂ (SameLiteral move) (bare.descendants.flatMap staticSources)
      (commented.descendants.flatMap staticSources) := by
    apply (List.forall₂_and_left _ _).mpr
    constructor
    · intro source source_mem
      obtain ⟨cursor, -, listed⟩ := List.mem_flatMap.mp source_mem
      exact kind_of_mem_staticSources listed
    · apply inserted.descendants.forall₂_flatMap
      · intro cursor cursor' relatives
        exact staticSources_commented relatives
      · intro cursor comment
        exact staticSources_of_isComment comment
  apply List.rel_filter _ sources
  intro source source' same
  simp only [same.text]

theorem unledCalls_cons (call call' : Cursor) (calls calls' : List Cursor) :
    unledCalls (call :: calls) (call' :: calls') =
      if startsWithComment call' then unledCalls calls calls'
      else call :: unledCalls calls calls' := by
  cases led : startsWithComment call' <;> simp [unledCalls, led]

/-- Of related calls, those that no comment leads import the same. -/
theorem unledCalls_sources {calls calls' : List Cursor}
    (relatives : List.Forall₂ (Cursor.Commented move) calls calls') :
    List.Forall₂ (Cursor.Commented move) ((unledCalls calls calls').filterMap dynamicSource?)
      (calls'.filterMap dynamicSource?) := by
  induction relatives with
  | nil => exact .nil
  | @cons call call' calls calls' inserted _ ih =>
      rw [unledCalls_cons]
      cases led : startsWithComment call' with
      | true =>
          rw [if_pos rfl, List.filterMap_cons_none (dynamicSource?_eq_none led)]
          exact ih
      | false =>
          have same := rel_dynamicSource? inserted led
          rw [if_neg (by decide), List.filterMap_cons, List.filterMap_cons]
          generalize dynamicSource? call = found at same
          generalize dynamicSource? call' = found' at same
          cases same with
          | none => exact ih
          | some sources => exact ih.cons sources

/-- Calls that a comment leads in both trees import nothing in either. -/
theorem unledCalls_of_ledAlike {calls calls' : List Cursor}
    (ledAlike : calls'.map startsWithComment = calls.map startsWithComment) :
    (unledCalls calls calls').filterMap dynamicSource? = calls.filterMap dynamicSource? := by
  induction calls generalizing calls' with
  | nil => rfl
  | cons call calls ih =>
      obtain ⟨call', calls', rfl, alike, rest⟩ := List.map_eq_cons_iff.mp ledAlike
      rw [unledCalls_cons, alike]
      cases led : startsWithComment call with
      | true =>
          rw [if_pos rfl, List.filterMap_cons_none (dynamicSource?_eq_none led)]
          exact ih rest
      | false =>
          rw [if_neg (by decide), List.filterMap_cons, List.filterMap_cons, ih rest]

theorem dynamicImports_commented (inserted : bare.Commented move commented) :
    List.Forall₂ (Cursor.Commented move) (dynamicImports bare) (dynamicImports commented) := by
  apply List.rel_filter _ (inserted.descendantsOfKind (by decide))
  intro call call' relatives
  simp only [isDynamicImport_commented relatives]

/-- The literals of the commented tree are those that are kept of the bare one. -/
theorem keptSources_commented (inserted : bare.Commented move commented) :
    List.Forall₂ (SameLiteral move) (keptSources bare commented) (importSources commented) := by
  rw [importSources_eq]
  apply List.rel_append (staticLiterals_commented inserted)
  apply (List.forall₂_and_left _ _).mpr
  constructor
  · intro source source_mem
    obtain ⟨call, -, found⟩ := List.mem_filterMap.mp source_mem
    exact kind_of_dynamicSource? found
  · exact unledCalls_sources (dynamicImports_commented inserted)

/-- The specifiers that a list of literals imports, in the order of the text. -/
def specifiersOf (sources : List Cursor) : List String :=
  let sorted := sources.mergeSort fun first second =>
    decide (first.span.startByte ≤ second.span.startByte)
  (firstOfEachSpecifier (sorted.map ImportSpec.ofSource)).map ImportSpec.specifier

/-- The specifiers that are kept depend on the specifiers of a list only. -/
theorem specifiers_firstOfEachSpecifier_congr {specs specs' : List ImportSpec}
    (same : specs'.map ImportSpec.specifier = specs.map ImportSpec.specifier) :
    (firstOfEachSpecifier specs').map ImportSpec.specifier =
      (firstOfEachSpecifier specs).map ImportSpec.specifier := by
  induction specs generalizing specs' with
  | nil => rw [List.map_eq_nil_iff.mp same]
  | cons spec rest ih =>
      obtain ⟨spec', rest', rfl, head, tail⟩ := List.map_eq_cons_iff.mp same
      have kept := congrArg (List.filter fun name => name != spec.specifier) (ih tail)
      rw [List.filter_map, List.filter_map] at kept
      simp only [firstOfEachSpecifier, List.map_cons, head]
      exact congrArg _ kept

/-- Where a literal stands and what it imports. -/
def sourceKey (source : Cursor) : Nat × String :=
  (source.span.startByte, unquote source.text)

/-- Specifiers in the order of the offsets at which they stand. -/
def sortedNames (keys : List (Nat × String)) : List String :=
  (keys.mergeSort fun first second => decide (first.1 ≤ second.1)).map Prod.snd

theorem sortedNames_moved (ascending : StrictMono move) (keys : List (Nat × String)) :
    sortedNames (keys.map (Prod.map move id)) = sortedNames keys := by
  have inOrder : (keys.map (Prod.map move id)).mergeSort
      (fun first second => decide (first.1 ≤ second.1)) =
        (keys.mergeSort fun first second => decide (first.1 ≤ second.1)).map
          (Prod.map move id) := by
    symm
    apply List.map_mergeSort
    intro first _ second _
    simp [ascending.le_iff_le]
  rw [sortedNames, inOrder, List.map_map]
  rfl

theorem specifiers_of_sorted (sources : List Cursor) :
    ((sources.mergeSort fun first second =>
      decide (first.span.startByte ≤ second.span.startByte)).map ImportSpec.ofSource).map
        ImportSpec.specifier = sortedNames (sources.map sourceKey) := by
  have sorted : (sources.mergeSort fun first second =>
      decide (first.span.startByte ≤ second.span.startByte)).map sourceKey =
        (sources.map sourceKey).mergeSort fun first second => decide (first.1 ≤ second.1) := by
    apply List.map_mergeSort
    intro first _ second _
    rfl
  rw [sortedNames, ← sorted, List.map_map, List.map_map]
  rfl

/-- Offsets are moved in order, so the specifiers of the same literals are sorted alike. -/
theorem specifiersOf_commented (ascending : StrictMono move) {sources sources' : List Cursor}
    (same : List.Forall₂ (SameLiteral move) sources sources') :
    specifiersOf sources' = specifiersOf sources := by
  have keys : sources'.map sourceKey = (sources.map sourceKey).map (Prod.map move id) := by
    rw [List.map_map]
    apply map_eq_of_forall₂ same
    intro source source' same
    have start : source'.span.startByte = move source.span.startByte := same.2.keeps.start same.1
    simp [sourceKey, same.text, start]
  apply specifiers_firstOfEachSpecifier_congr
  rw [specifiers_of_sorted, specifiers_of_sorted, keys, sortedNames_moved ascending]

end ImportList

section Exports

/-- A name that a statement exports, with the node that it is read from. -/
inductive ExportedName where
  | default
  | declared (name : Cursor)
  | listed (name : Cursor)

namespace ExportedName

/-- The name as it is exported. -/
def text : ExportedName → String
  | default => "default"
  | declared name => name.text
  | listed name => unquote name.text

/-- The number of nodes that the name is written with. -/
def size : ExportedName → Nat
  | default => 0
  | declared name | listed name => name.node.size

/-- Names that are read from a node and from the same node with comments put into it. -/
inductive Commented (move : Nat → Nat) : ExportedName → ExportedName → Prop
  | default : Commented move default default
  | declared {name name' : Cursor} :
      name.Commented move name' → Commented move (declared name) (declared name')
  | listed {name name' : Cursor} :
      name.Commented move name' → Commented move (listed name) (listed name')

/-- A name that no comment was put into is exported as before. -/
theorem Commented.text_of_size {name name' : ExportedName} (inserted : name.Commented move name')
    (whole : name'.size = name.size) : name'.text = name.text := by
  cases inserted with
  | default => rfl
  | declared relatives => exact relatives.keeps.text (.inl whole)
  | listed relatives => exact congrArg unquote (relatives.keeps.text (.inl whole))

end ExportedName

/-- The nodes of the names that an exported declaration declares. -/
def declaredNodes (declaration : Cursor) : List Cursor :=
  if declaration.kind == "lexical_declaration" || declaration.kind == "variable_declaration" then
    ((declaration.childrenOfKind "variable_declarator").filterMap fun declarator =>
      declarator.childByField? "name").filter fun name => name.kind == "identifier"
  else
    (declaration.childByField? "name").toList

theorem declaredNames_eq (declaration : Cursor) :
    declaredNames declaration = (declaredNodes declaration).map Cursor.text := by
  rw [declaredNames, declaredNodes]
  split
  · rfl
  · cases declaration.childByField? "name" <;> rfl

theorem declaredNodes_commented (inserted : bare.Commented move commented) :
    List.Forall₂ (Cursor.Commented move) (declaredNodes bare) (declaredNodes commented) := by
  rw [declaredNodes, declaredNodes, inserted.kind]
  split
  · apply List.rel_filter
    · intro name name' relatives
      simp only [relatives.kind]
    · apply List.rel_filterMap _ (inserted.childrenOfKind (by decide))
      intro declarator declarator' relatives
      exact relatives.childByField? "name"
  · exact forall₂_toList (inserted.childByField? "name")

/-- The node of the name under which an export clause exports something. -/
def exportedNode? (specifier : Cursor) : Option Cursor :=
  (specifier.childByField? "alias").or (specifier.childByField? "name")

theorem exportedNode?_commented (inserted : bare.Commented move commented) :
    Option.Rel (Cursor.Commented move) (exportedNode? bare) (exportedNode? commented) :=
  rel_or (inserted.childByField? "alias") (inserted.childByField? "name")

/-- The nodes of the names in the export clauses of a statement. -/
def listedNodes (statement : Cursor) : List Cursor :=
  (statement.childrenOfKind "export_clause").flatMap fun clause =>
    (clause.childrenOfKind "export_specifier").filterMap exportedNode?

theorem listedNodes_commented (inserted : bare.Commented move commented) :
    List.Forall₂ (Cursor.Commented move) (listedNodes bare) (listedNodes commented) := by
  apply List.rel_flatMap (inserted.childrenOfKind (by decide))
  intro clause clause' clauses
  apply List.rel_filterMap _ (clauses.childrenOfKind (by decide))
  intro specifier specifier' relatives
  exact exportedNode?_commented relatives

/-- The names that a statement exports, with their nodes. -/
def statementNames (statement : Cursor) : List ExportedName :=
  if !(statement.childrenOfKind "default").isEmpty then
    [.default]
  else
    ((statement.childByField? "declaration").toList.flatMap declaredNodes).map .declared ++
      (listedNodes statement).map .listed

theorem statementExports_eq (statement : Cursor) :
    statementExports statement = (statementNames statement).map ExportedName.text := by
  have listed : (statement.childrenOfKind "export_clause").flatMap (fun clause =>
      (clause.childrenOfKind "export_specifier").filterMap exportedName?) =
        ((listedNodes statement).map .listed).map ExportedName.text := by
    rw [listedNodes, List.map_map, List.map_flatMap]
    simp only [List.map_filterMap]
    rfl
  rw [statementExports, statementNames, listed]
  split
  · rfl
  · rw [List.map_append]
    cases statement.childByField? "declaration" with
    | none => rfl
    | some declaration => simp [declaredNames_eq, ExportedName.text]

theorem statementNames_commented (inserted : bare.Commented move commented) :
    List.Forall₂ (ExportedName.Commented move) (statementNames bare)
      (statementNames commented) := by
  have sameDefault : (commented.childrenOfKind "default").isEmpty =
      (bare.childrenOfKind "default").isEmpty :=
    isEmpty_eq_of_forall₂ (inserted.childrenOfKind (by decide))
  rw [statementNames, statementNames, sameDefault]
  split
  · exact .cons .default .nil
  · apply List.rel_append
    · rw [List.forall₂_map_left_iff, List.forall₂_map_right_iff]
      apply List.Forall₂.imp fun _ _ => ExportedName.Commented.declared
      apply List.rel_flatMap (forall₂_toList (inserted.childByField? "declaration"))
      intro declaration declaration' relatives
      exact declaredNodes_commented relatives
    · rw [List.forall₂_map_left_iff, List.forall₂_map_right_iff]
      exact (listedNodes_commented inserted).imp fun _ _ => ExportedName.Commented.listed

/-- The names that a tree exports, with their nodes. -/
def exportedNames (root : Cursor) : List ExportedName :=
  (root.childrenOfKind "export_statement").flatMap statementNames

theorem exportsOf_eq (root : Cursor) :
    exportsOf root =
      (((exportedNames root).map ExportedName.text).filter fun name => name != "").eraseDups := by
  rw [exportsOf, exportedNames, List.map_flatMap,
    List.flatMap_congr fun statement _ => statementExports_eq statement]

/-- No comment stands inside an exported name. -/
def NamedAlike (bare commented : Cursor) : Prop :=
  (exportedNames commented).map ExportedName.size = (exportedNames bare).map ExportedName.size

theorem exportsOf_commented (inserted : bare.Commented move commented)
    (namedAlike : NamedAlike bare commented) : exportsOf commented = exportsOf bare := by
  have names : List.Forall₂ (ExportedName.Commented move) (exportedNames bare)
      (exportedNames commented) := by
    apply List.rel_flatMap (inserted.childrenOfKind (by decide))
    intro statement statement' relatives
    exact statementNames_commented relatives
  have texts : (exportedNames commented).map ExportedName.text =
      (exportedNames bare).map ExportedName.text := by
    apply map_eq_of_forall₂ (forall₂_and_of_map_eq names namedAlike)
    rintro name name' ⟨relatives, whole⟩
    exact relatives.text_of_size whole
  rw [exportsOf_eq, exportsOf_eq, texts]

end Exports

/-- With comments put in anywhere, a module imports what it imports without them, in the same
order, except for dynamic imports whose arguments a comment leads; and it exports the same names
as long as no comment stands inside one. -/
theorem comments_hide_only_led_dynamic_imports {language : Language}
    (ecmaScript : language.isEcmaScript = true) (ascending : StrictMono move)
    {bare commented : Node} (inserted : bare.Commented move commented) :
    (moduleFacts language commented).imports.map ImportSpec.specifier =
        specifiersOf (keptSources (.ofRoot bare) (.ofRoot commented)) ∧
      (LedAlike (.ofRoot bare) (.ofRoot commented) →
        (moduleFacts language commented).imports.map ImportSpec.specifier =
          (moduleFacts language bare).imports.map ImportSpec.specifier) ∧
      (NamedAlike (.ofRoot bare) (.ofRoot commented) →
        (moduleFacts language commented).exports = (moduleFacts language bare).exports) := by
  have roots : (Cursor.ofRoot bare).Commented move (.ofRoot commented) := inserted
  have kept := specifiersOf_commented ascending (keptSources_commented roots)
  simp only [moduleFacts, ecmaScript, if_true]
  refine ⟨kept, ?_, exportsOf_commented roots⟩
  intro ledAlike
  rw [keptSources, unledCalls_of_ledAlike ledAlike, ← importSources_eq] at kept
  exact kept

section CommentedModule

/-- A node without children on the first line. -/
def leaf (kind text : String) (field : Option String) (start : Nat) : Node where
  kind := kind
  named := true
  field := field
  span := ⟨start, start + text.length, 1, start + 1, 1, start + text.length + 1⟩
  text := text
  children := []

/-- A node that stands around others. -/
def around (kind text : String) (field : Option String) (start : Nat) (children : List Node) :
    Node :=
  { leaf kind text field start with children }

/-- The call of `import` or `require` with its arguments as they are written. -/
def callOf (calleeKind callee : String) (start : Nat) (written : String) (arguments : List Node) :
    Node :=
  around "call_expression" (callee ++ written) none start
    [leaf calleeKind callee (some "function") start,
      around "arguments" written (some "arguments") (start + callee.length) arguments]

/-- The export of a variable `x`, with what stands behind the keyword. -/
def exportOf (start : Nat) (written : String) (comments : List Node) : Node :=
  around "export_statement" ("export" ++ written) none start (comments ++
    [around "lexical_declaration" "const x = 0" (some "declaration") (start + written.length - 5)
      [around "variable_declarator" "x = 0" none (start + written.length + 1)
        [leaf "identifier" "x" (some "name") (start + written.length + 1)]]])

/-- A module that requires `./a`, imports `./b` when it runs and exports `x`. -/
def bareModule : Node :=
  around "program" "require('./a');import('./b');export const x = 0" none 0
    [callOf "identifier" "require" 0 "('./a')" [leaf "string" "'./a'" none 8],
      callOf "import" "import" 15 "('./b')" [leaf "string" "'./b'" none 22],
      exportOf 29 " const x = 0" []]

/-- The same module with comments in front of the first literal, behind the second one and inside
the export. -/
def annotatedModule : Node :=
  around "program" "require(/**/'./a');import('./b'/**/);export/**/const x = 0" none 0
    [callOf "identifier" "require" 0 "(/**/'./a')"
        [leaf "comment" "/**/" none 8, leaf "string" "'./a'" none 12],
      callOf "import" "import" 19 "('./b'/**/)"
        [leaf "string" "'./b'" none 26, leaf "comment" "/**/" none 31],
      exportOf 37 "/**/const x = 0" [leaf "comment" "/**/" none 43]]

/-- The same module with a comment in front of the second literal. -/
def ledModule : Node :=
  around "program" "require('./a');import(/**/'./b');export const x = 0" none 0
    [callOf "identifier" "require" 0 "('./a')" [leaf "string" "'./a'" none 8],
      callOf "import" "import" 15 "(/**/'./b')"
        [leaf "comment" "/**/" none 22, leaf "string" "'./b'" none 26],
      exportOf 33 " const x = 0" []]

/-- Where what stands in the bare module stands in the one with a comment at offset 22. -/
def ledOffset (offset : Nat) : Nat :=
  if offset < 22 then offset else offset + 4

theorem strictMono_ledOffset : StrictMono ledOffset := by
  intro first second less
  unfold ledOffset
  split <;> split <;> omega

theorem isComment_leaf (text : String) (start : Nat) : (leaf "comment" text none start).IsComment :=
  ⟨rfl, rfl, rfl, rfl⟩

theorem commented_leaf {kind text : String} {field : Option String} {start start' : Nat}
    (moved : kind = "string" → start' = move start) :
    (leaf kind text field start).Commented move (leaf kind text field start') :=
  .intro ⟨rfl, rfl, rfl, moved, fun _ => rfl⟩ .nil

theorem commented_around {kind text text' : String} {field : Option String} {start start' : Nat}
    {children children' : List Node} (compound : kind ≠ "string" ∧ kind ≠ "identifier")
    (same : Node.sizeAll children' = Node.sizeAll children → text' = text)
    (woven : Woven (Node.Commented move) Node.IsComment children children') :
    (around kind text field start children).Commented move
      (around kind text' field start' children') := by
  refine .intro ⟨rfl, rfl, rfl, fun string => absurd string compound.1, ?_⟩ woven
  rintro (size | string | identifier)
  · apply same
    simpa [Node.size_eq, around] using size
  · exact absurd string compound.1
  · exact absurd identifier compound.2

theorem commented_callOf {calleeKind callee written written' : String} {start start' : Nat}
    {arguments arguments' : List Node} (noLiteral : calleeKind ≠ "string")
    (same : Node.sizeAll arguments' = Node.sizeAll arguments → written' = written)
    (woven : Woven (Node.Commented move) Node.IsComment arguments arguments') :
    (callOf calleeKind callee start written arguments).Commented move
      (callOf calleeKind callee start' written' arguments') := by
  apply commented_around (by decide)
  · intro sizes
    rw [same]
    simpa [Node.size_eq, around, leaf] using sizes
  · apply Woven.keep (commented_leaf fun string => absurd string noLiteral)
    exact .keep (commented_around (by decide) same woven) .nil

theorem commented_exportOf {written written' : String} {start start' : Nat} {comments : List Node}
    (same : comments = [] → written' = written) (isComment : ∀ node ∈ comments, node.IsComment) :
    (exportOf start written []).Commented move (exportOf start' written' comments) := by
  have put : Woven (Node.Commented move) Node.IsComment [] comments := by
    clear same
    induction comments with
    | nil => exact .nil
    | cons comment rest ih =>
        apply Woven.insert (isComment comment List.mem_cons_self)
        exact ih fun node node_mem => isComment node (List.mem_cons_of_mem comment node_mem)
  apply commented_around (by decide)
  · intro sizes
    rw [same]
    cases comments with
    | nil => rfl
    | cons comment rest =>
        simp [Node.size_eq, around, leaf, Node.sizeAll_append] at sizes
        omega
  · apply put.append
    apply Woven.keep _ .nil
    apply commented_around (by decide) fun _ => rfl
    apply Woven.keep _ .nil
    apply commented_around (by decide) fun _ => rfl
    exact .keep (commented_leaf fun string => absurd string (by decide)) .nil

theorem commented_annotatedModule : bareModule.Commented (· + 4) annotatedModule := by
  apply commented_around (by decide)
  · decide +kernel
  · apply Woven.keep
    · apply commented_callOf (by decide) (by decide +kernel)
      exact .insert (isComment_leaf _ _) (.keep (commented_leaf fun _ => rfl) .nil)
    apply Woven.keep
    · apply commented_callOf (by decide) (by decide +kernel)
      exact .keep (commented_leaf fun _ => rfl) (.insert (isComment_leaf _ _) .nil)
    · apply Woven.keep _ .nil
      apply commented_exportOf (by simp)
      simpa using isComment_leaf _ _

theorem commented_ledModule : bareModule.Commented ledOffset ledModule := by
  apply commented_around (by decide)
  · decide +kernel
  · apply Woven.keep
    · apply commented_callOf (by decide) (fun _ => rfl)
      exact .keep (commented_leaf fun _ => rfl) .nil
    apply Woven.keep
    · apply commented_callOf (by decide) (by decide +kernel)
      exact .insert (isComment_leaf _ _) (.keep (commented_leaf fun _ => rfl) .nil)
    · apply Woven.keep _ .nil
      exact commented_exportOf (fun _ => rfl) (by simp)

/-- Comments in front of the literal of a `require` call, behind that of a dynamic import and
inside an export hide nothing. -/
theorem annotatedModule_hides_nothing :
    bareModule.Commented (· + 4) annotatedModule ∧
      LedAlike (.ofRoot bareModule) (.ofRoot annotatedModule) ∧
      NamedAlike (.ofRoot bareModule) (.ofRoot annotatedModule) ∧
      (moduleFacts .javaScript annotatedModule).imports.map ImportSpec.specifier =
        (moduleFacts .javaScript bareModule).imports.map ImportSpec.specifier ∧
      (moduleFacts .javaScript annotatedModule).exports =
        (moduleFacts .javaScript bareModule).exports := by
  have ledAlike : LedAlike (.ofRoot bareModule) (.ofRoot annotatedModule) := by
    unfold LedAlike
    decide +kernel
  have namedAlike : NamedAlike (.ofRoot bareModule) (.ofRoot annotatedModule) := by
    unfold NamedAlike
    decide +kernel
  have ascending : StrictMono fun offset => offset + 4 :=
    fun _ _ less => Nat.add_lt_add_right less 4
  have facts := @comments_hide_only_led_dynamic_imports _ .javaScript rfl ascending _ _
    commented_annotatedModule
  exact ⟨commented_annotatedModule, ledAlike, namedAlike, facts.2.1 ledAlike, facts.2.2 namedAlike⟩

/-- A comment in front of the literal of a dynamic import hides it. -/
theorem ledModule_hides_dynamic_import :
    StrictMono ledOffset ∧ bareModule.Commented ledOffset ledModule ∧
      (moduleFacts .javaScript bareModule).imports.map ImportSpec.specifier = ["./a", "./b"] ∧
      (moduleFacts .javaScript ledModule).imports.map ImportSpec.specifier = ["./a"] := by
  refine ⟨strictMono_ledOffset, commented_ledModule, ?_, ?_⟩
  · change (importsOf (.ofRoot bareModule)).map ImportSpec.specifier = ["./a", "./b"]
    rw [importsOf, List.mergeSort_of_pairwise (by decide +kernel)]
    decide +kernel
  · change (importsOf (.ofRoot ledModule)).map ImportSpec.specifier = ["./a"]
    rw [importsOf, List.mergeSort_of_pairwise (by decide +kernel)]
    decide +kernel

end CommentedModule

end CodeFacts.Imports
