import CodeFacts.Proofs.Calls.Duality
import CodeFacts.Proofs.Calls.Nesting

/-!
# The declaration at a line

The first declaration that starts on a line is the one at the line. If none does, it is one of those
that start latest among the declarations around the line. In both cases none that covers the line
starts later. A declaration starts no later than those nested in it, so one that is nested in the
declaration at a line and covers the line as well starts on the same line as that.
-/

namespace CodeFacts.Calls

section Line

variable {declarations : List Declaration} {declaration : Declaration} {line : Nat}

theorem startLine_le_of_coversLine (covers : declaration.coversLine line = true) :
    declaration.startLine ≤ line := by
  simp only [Declaration.coversLine, Span.containsLine, Declaration.startLine, Bool.or_eq_true,
    beq_iff_eq, Bool.and_eq_true, decide_eq_true_eq] at covers ⊢
  omega

theorem latest?_eq_none_iff : latest? declarations = none ↔ declarations = [] := by
  cases declarations with
  | nil => simp [latest?]
  | cons first rest =>
      unfold latest?
      split
      · simp
      · split <;> simp

theorem startLine_le_of_latest? (latest : latest? declarations = some declaration) :
    ∀ other ∈ declarations, other.startLine ≤ declaration.startLine := by
  induction declarations generalizing declaration with
  | nil => simp
  | cons first rest ih =>
      unfold latest? at latest
      split at latest
      · rename_i nothing
        cases latest
        simp [latest?_eq_none_iff.mp nothing]
      · rename_i found later
        have below := ih later
        split at latest
        · rename_i less
          cases latest
          exact List.forall_mem_cons.mpr ⟨le_refl _, fun other other_mem =>
            (below other other_mem).trans less.le⟩
        · rename_i notLess
          cases latest
          exact List.forall_mem_cons.mpr ⟨Nat.le_of_not_lt notLess, below⟩

theorem declarationAt?_eq_none_iff :
    declarationAt? declarations line = none ↔
      ∀ declaration ∈ declarations, declaration.coversLine line = false := by
  unfold declarationAt?
  split
  · rename_i first found
    have starts := List.find?_some found
    have covers : first.coversLine line = true := by simp [Declaration.coversLine, starts]
    simp only [reduceCtorEq, false_iff, not_forall]
    exact ⟨first, List.mem_of_find?_eq_some found, by simp [covers]⟩
  · simp [latest?_eq_none_iff]

/-- No declaration that covers a line starts after the one that is found there. -/
theorem startLine_le_of_declarationAt? (here : declarationAt? declarations line = some declaration)
    {other : Declaration} (other_mem : other ∈ declarations)
    (covers : other.coversLine line = true) : other.startLine ≤ declaration.startLine := by
  unfold declarationAt? at here
  split at here
  · rename_i first found
    cases here
    have starts : declaration.startLine = line := by simpa using List.find?_some found
    rw [starts]
    exact startLine_le_of_coversLine covers
  · exact startLine_le_of_latest? here other (List.mem_filter.mpr ⟨other_mem, covers⟩)

/-- On the line where a declaration starts, the first one that starts there is found. -/
theorem exists_first_of_mem (declared : declaration ∈ declarations) :
    ∃ first, declarations.find? (fun other => other.startLine == declaration.startLine) =
        some first ∧
      declarationAt? declarations declaration.startLine = some first := by
  cases found : declarations.find? fun other => other.startLine == declaration.startLine with
  | none => simpa using List.find?_eq_none.mp found declaration declared
  | some first => exact ⟨first, rfl, by simp [declarationAt?, found]⟩

end Line

/-- What is found for a line of a tree is nothing if no declaration covers the line, and else one
that does, starts no earlier than all others that do, and on the same line as those nested in it
that do. -/
structure FindsInnermost (tree : Node) (file : Path) (line : Nat) (items : List Item) : Prop where
  nothing : items = [] ↔ ∀ declaration ∈ declarationsOf tree, declaration.coversLine line = false
  found : ∀ item ∈ items, ∃ node ∈ definitionsOf tree,
    items = [Item.ofDeclaration file (recordOf node)] ∧
      (recordOf node).coversLine line = true ∧
      (∀ other ∈ declarationsOf tree, other.coversLine line = true →
        other.startLine ≤ (recordOf node).startLine) ∧
      ∀ inner ∈ definitionsOf tree, node.Contains inner →
        (recordOf inner).coversLine line = true →
          (recordOf inner).startLine = (recordOf node).startLine

theorem startLine_recordOf {node : Cursor} (named : isNamedDefinition node = true) :
    (recordOf node).startLine = node.span.startLine := by
  rw [Declaration.startLine, span_of_declaration? (declaration?_recordOf named)]

/-- A definition starts no later than those nested in it. -/
theorem startLine_le_of_contains {tree : Node} (nested : tree.SpansNested) {node inner : Cursor}
    (node_mem : node ∈ definitionsOf tree) (inner_mem : inner ∈ definitionsOf tree)
    (contains : node.Contains inner) : (recordOf node).startLine ≤ (recordOf inner).startLine := by
  rcases mem_definitionsOf_iff.mp node_mem with ⟨inside, named⟩
  rcases mem_definitionsOf_iff.mp inner_mem with ⟨-, inner_named⟩
  rw [startLine_recordOf named, startLine_recordOf inner_named]
  exact Span.startLine_le_of_first_le (nested.of_contains inside contains).1

theorem findsInnermost_declarationAt? {tree : Node} (nested : tree.SpansNested) (file : Path)
    (line : Nat) :
    FindsInnermost tree file line
      ((declarationAt? (declarationsOf tree) line).map (Item.ofDeclaration file)).toList := by
  constructor
  · simp [declarationAt?_eq_none_iff]
  · intro item item_mem
    rcases Option.map_eq_some_iff.mp (Option.mem_toList.mp item_mem) with ⟨declaration, here, -⟩
    have declared := declarationsOf_eq_map tree
    rcases declarationAt?_spec here with ⟨declaration_mem, covers⟩
    rw [declared] at declaration_mem
    rcases List.mem_map.mp declaration_mem with ⟨node, node_mem, rfl⟩
    refine ⟨node, node_mem, by simp [here], covers, ?_, ?_⟩
    · intro other other_mem
      exact startLine_le_of_declarationAt? here other_mem
    · intro inner inner_mem contains inner_covers
      have inner_declared : recordOf inner ∈ declarationsOf tree := by
        rw [declared]
        exact List.mem_map_of_mem inner_mem
      exact le_antisymm (startLine_le_of_declarationAt? here inner_declared inner_covers)
        (startLine_le_of_contains nested node_mem inner_mem contains)

/-- The item that a symbol stands for. -/
def FileSymbol.item (symbol : FileSymbol) : Item where
  name := symbol.name
  qualifiedName := symbol.qualifiedName
  kind := symbol.kind
  file := symbol.location.file
  line := symbol.location.line
  column := symbol.location.column
  endLine := symbol.location.endLine
  detail := symbol.detail

namespace Session

theorem prepare_of_load {session after : Session} {files : FileSystem} {file path : Path}
    {position : Position} {loaded : LoadedFile} {declaration : Declaration}
    (resolved : session.resolve file = .ok path)
    (load : session.load files path = (some loaded, after))
    (here : declarationAt? loaded.declarations position.line = some declaration) :
    session.prepare files ⟨file, position⟩ =
      (.ok [Item.ofDeclaration loaded.path declaration], after) := by
  rw [prepare, withFile_of_load resolved load, here]
  rfl

/-- Preparing at a position finds the innermost declaration around its line, and at the line of a
listed symbol the first listed symbol that starts there. -/
theorem prepare_finds_innermost {session after : Session} {files : FileSystem} {file path : Path}
    {source : SourceFile} (resolved : session.resolve file = .ok path)
    (load : session.load files path = (some (LoadedFile.ofSource path source), after))
    (nested : source.tree.SpansNested) :
    (∀ position, ∃ items, session.prepare files ⟨file, position⟩ = (.ok items, after) ∧
        FindsInnermost source.tree path position.line items) ∧
      ∃ symbols, session.symbols files file = (.ok symbols, after) ∧
        ∀ symbol ∈ symbols, ∃ first,
          symbols.find? (fun other => other.location.line == symbol.location.line) = some first ∧
            ∀ column, session.prepare files ⟨file, ⟨symbol.location.line, column⟩⟩ =
              (.ok [first.item], after) := by
  constructor
  · intro position
    exact ⟨_, withFile_of_load resolved load _,
      findsInnermost_declarationAt? nested path position.line⟩
  · refine ⟨_, withFile_of_load resolved load _, ?_⟩
    intro symbol symbol_mem
    rcases List.mem_map.mp symbol_mem with ⟨declaration, declared, rfl⟩
    rcases exists_first_of_mem declared with ⟨first, found, here⟩
    refine ⟨FileSymbol.ofDeclaration path first, ?_, ?_⟩
    · rw [List.find?_map]
      exact congrArg (Option.map _) found
    · intro column
      exact prepare_of_load resolved load here

/-- A class with a method of two lines, and an empty line after it. -/
def methodSource : SourceFile :=
  let className : Node := ⟨"identifier", true, some "name", ⟨6, 7, 1, 7, 1, 8⟩, "A", []⟩
  let name : Node := ⟨"identifier", true, some "name", ⟨17, 18, 2, 9, 2, 10⟩, "f", []⟩
  let method : Node := ⟨"function_definition", true, none, ⟨13, 34, 2, 5, 3, 13⟩,
    "def f():\n        pass", [name]⟩
  let body : Node := ⟨"block", true, some "body", ⟨13, 34, 2, 5, 3, 13⟩,
    "def f():\n        pass", [method]⟩
  let outer : Node := ⟨"class_definition", true, none, ⟨0, 34, 1, 1, 3, 13⟩,
    "class A:\n    def f():\n        pass", [className, body]⟩
  ⟨"class A:\n    def f():\n        pass\n\n".toUTF8,
    ⟨"module", true, none, ⟨0, 36, 1, 1, 5, 1⟩, "class A:\n    def f():\n        pass\n\n",
      [outer]⟩⟩

/-- On its last line, which the class covers as well, the method is found. -/
theorem prepare_finds_innermost_of_methodSource :
    let files := oneFile methodSource
    atOneFile.resolve ⟨"a.py"⟩ = .ok ⟨"/p/a.py"⟩ ∧
      atOneFile.load files ⟨"/p/a.py"⟩ =
        (some (LoadedFile.ofSource ⟨"/p/a.py"⟩ methodSource), holdingOneFile methodSource) ∧
      methodSource.tree.SpansNested ∧
      (∃ item, atOneFile.prepare files ⟨⟨"a.py"⟩, ⟨3, 9⟩⟩ =
          (.ok [item], holdingOneFile methodSource) ∧
        item.qualifiedName = "A.f" ∧
        FindsInnermost methodSource.tree ⟨"/p/a.py"⟩ 3 [item]) ∧
      ∃ symbols, atOneFile.symbols files ⟨"a.py"⟩ = (.ok symbols, holdingOneFile methodSource) ∧
        symbols.map FileSymbol.qualifiedName = ["A", "A.f"] ∧
        ∀ symbol ∈ symbols, ∃ first,
          symbols.find? (fun other => other.location.line == symbol.location.line) = some first ∧
            ∀ column, atOneFile.prepare files ⟨⟨"a.py"⟩, ⟨symbol.location.line, column⟩⟩ =
              (.ok [first.item], holdingOneFile methodSource) := by
  intro files
  have load := load_oneFile methodSource
  have nested : methodSource.tree.SpansNested := by decide +kernel
  rcases prepare_finds_innermost resolve_atOneFile load nested with
    ⟨innermost, listing, listed, prepared⟩
  refine ⟨resolve_atOneFile, load, nested, ?_, listing, listed, ?_, prepared⟩
  · have last : (declarationAt? (declarationsOf methodSource.tree) 3).map
        Declaration.qualifiedName = some "A.f" := by decide +kernel
    rcases Option.map_eq_some_iff.mp last with ⟨method, here, qualified⟩
    have answered : atOneFile.prepare files ⟨⟨"a.py"⟩, ⟨3, 9⟩⟩ =
        (.ok [Item.ofDeclaration ⟨"/p/a.py"⟩ method], holdingOneFile methodSource) :=
      prepare_of_load resolve_atOneFile load here
    rcases innermost ⟨3, 9⟩ with ⟨items, found, finds⟩
    obtain rfl : items = [Item.ofDeclaration ⟨"/p/a.py"⟩ method] := by
      simpa using found.symm.trans answered
    exact ⟨_, answered, qualified, finds⟩
  · have names : (declarationsOf methodSource.tree).map Declaration.qualifiedName =
        ["A", "A.f"] := by decide +kernel
    rw [Session.symbols, withFile_of_load resolve_atOneFile load] at listed
    obtain rfl : _ = listing := by simpa using listed
    rw [List.map_map]
    exact names

end Session

end CodeFacts.Calls
