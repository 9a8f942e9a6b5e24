import CodeFacts.Proofs.Firsts
import CodeFacts.Proofs.Tree.Preorder
import CodeFacts.Unused.Analysis

/-!
# What it means that a name is unused

An unused parameter or local variable is described here without the walks and tables of the
analysis. A function declares identifiers in an order: its parameters, then what the nodes of its
body bind in preorder, where nothing below a nested function or class belongs to it. The body
itself is always looked into, even where it is a function. A name is unread if every identifier in
the body that would read it is one of the declaring identifiers, compared by their place in the
tree. The issues of a file report exactly the first declarations of unread names.

The options may leave out the pass over the functions of a tree or the one over its classes. Since
the two find symbols of different kinds, this comes to leaving out symbols by their kind.
-/

namespace CodeFacts.Unused

/-- Whether the options report symbols of a kind. -/
def Options.reports (options : Options) : SymbolKind → Bool
  | .parameter => options.unusedParameters
  | .localVariable => options.unusedLocals
  | .privateField => options.unusedPrivateFields

theorem Options.reportsName_eq_reports (options : Options) {kind : SymbolKind}
    (isName : kind ≠ .privateField) : options.reportsName kind = options.reports kind := by
  cases kind with
  | parameter => rfl
  | localVariable => rfl
  | privateField => contradiction

theorem mem_dropRepeats (issues : List Issue) (issue : Issue) :
    issue ∈ dropRepeats issues ↔ issue ∈ issues := by
  fun_induction dropRepeats issues with
  | case1 => rfl
  | case2 only => rfl
  | case3 second rest ih => simp [ih]
  | case4 first second rest different ih => simp [ih]

theorem mem_sortIssues (issues : List Issue) (issue : Issue) :
    issue ∈ sortIssues issues ↔ issue ∈ issues := by
  rw [sortIssues, mem_dropRepeats, List.mem_mergeSort]

theorem mem_issuesOf_iff {language : Language} {options : Options} {file : String} {root : Node}
    {issue : Issue} :
    issue ∈ issuesOf language options file root ↔
      ∃ symbol ∈ (policyFor language).unusedSymbols options root,
        Issue.ofSymbol file symbol = issue := by
  rw [issuesOf, Policy.issues, mem_sortIssues, List.mem_map]

/-- Symbols that are found in the order of their issues need no sorting. -/
theorem issuesOf_eq_of_sorted {language : Language} {options : Options} {file : String}
    {root : Node} {symbols : List Symbol}
    (found : (policyFor language).unusedSymbols options root = symbols)
    (sorted : (symbols.map (Issue.ofSymbol file)).Pairwise (Issue.le · ·)) :
    issuesOf language options file root = dropRepeats (symbols.map (Issue.ofSymbol file)) := by
  rw [issuesOf, Policy.issues, found, sortIssues, List.mergeSort_of_pairwise sorted]

theorem distinct_eq_firstsBy (cursors : List Cursor) :
    distinct cursors = firstsBy Cursor.address cursors := by
  induction cursors with
  | nil => rfl
  | cons head rest ih => simp [distinct, firstsBy, ih, Cursor.isSame, bne]

theorem firstOfEachName_eq_firstsBy (symbols : List Symbol) :
    firstOfEachName symbols = firstsBy Symbol.name symbols := by
  induction symbols with
  | nil => rfl
  | cons head rest ih => simp [firstOfEachName, firstsBy, ih]

theorem mem_firstOfEachName_iff (symbols : List Symbol) (symbol : Symbol) :
    symbol ∈ firstOfEachName symbols ↔
      ∃ before after, symbols = before ++ symbol :: after ∧
        ∀ other ∈ before, other.name ≠ symbol.name := by
  rw [firstOfEachName_eq_firstsBy, mem_firstsBy_iff]

/-- Leaving out the symbols without a name does not change which ones come first. -/
theorem firstOfEachName_filter (symbols : List Symbol) :
    firstOfEachName (symbols.filter fun symbol => symbol.name != "") =
      (firstOfEachName symbols).filter fun symbol => symbol.name != "" := by
  simp only [firstOfEachName_eq_firstsBy]
  exact firstsBy_filter Symbol.name (fun name => name != "") symbols

namespace Policy

variable (policy : Policy)

/-- The nodes of a body whose bindings belong to its function: the body, and in preorder what is
reached below it without passing through a function or a class. -/
def ownNodes (body : Cursor) : List Cursor :=
  body :: body.children.flatMap (Cursor.preorder fun cursor => policy.role cursor == .other)

/-- The identifiers that a body binds for its function, in order. -/
def ownBindings (body : Cursor) : List Cursor :=
  (policy.ownNodes body).flatMap policy.localBindings

/-- The identifiers that a function declares, in order, each with what it is declared as. -/
def declaredIdentifiers (function body : Cursor) : List (SymbolKind × Cursor) :=
  ((policy.parameters function).filter fun identifier =>
      identifier.text ∉ policy.selfNames).map (Prod.mk .parameter) ++
    (policy.ownBindings body).map (Prod.mk .localVariable)

/-- The first identifier of a name that a function declares is of a kind and stands on a line. -/
def DeclaresFirst (function body : Cursor) (kind : SymbolKind) (line : Nat) (name : String) :
    Prop :=
  ∃ before identifier after,
    policy.declaredIdentifiers function body = before ++ (kind, identifier) :: after ∧
      identifier.text = name ∧ identifier.line = line ∧ ∀ other ∈ before, other.2.text ≠ name

/-- Whatever would read a name in the body, in nested functions too, stands at the place of one of
the function's own parameters and bindings. -/
def NeverReads (function body : Cursor) (name : String) : Prop :=
  ∀ cursor, body.Contains cursor → policy.isUse cursor = true → cursor.text = name →
    ∃ site ∈ policy.parameters function ++ policy.ownBindings body, site.isSame cursor = true

/-- A function declares a name that is not exempt, and never reads it. -/
structure DeclaresUnread (function body : Cursor) (kind : SymbolKind) (line : Nat)
    (name : String) : Prop where
  named : name ≠ ""
  notExempt : startsWithUnderscore name = false
  first : policy.DeclaresFirst function body kind line name
  unread : policy.NeverReads function body name

theorem bindingNodes_eq_ownNodes (body : Cursor) :
    policy.bindingNodes body = policy.ownNodes body := by
  have self : body.isSame body = true := by simp [Cursor.isSame]
  rw [bindingNodes, Cursor.walk_eq_preorder, Cursor.preorder_eq, self, Bool.true_or, if_pos rfl,
    ownNodes]
  -- Below the body the test for the body itself never succeeds, since addresses get longer.
  refine congrArg (body :: ·) (List.flatMap_congr ?_)
  intro child child_mem
  apply Cursor.preorder_congr
  intro cursor inside
  rw [Cursor.isSame_eq_false_of_child child_mem inside, Bool.false_or]

theorem localDeclarations_eq (body : Cursor) :
    policy.localDeclarations body = policy.ownBindings body := by
  rw [localDeclarations, bindingNodes_eq_ownNodes, ownBindings]

theorem declarations_eq (function body : Cursor) :
    policy.declarations function body =
      (policy.declaredIdentifiers function body).map fun declared =>
        Symbol.declaredBy declared.1 declared.2 := by
  simp [declarations, declaredIdentifiers, localDeclarations_eq, Function.comp_def]

/-- A name belongs to no class, and its first symbol comes from the identifier that declares it
first. -/
theorem mem_firstOfEachName_declarations_iff (function body : Cursor) (symbol : Symbol) :
    symbol ∈ firstOfEachName (policy.declarations function body) ↔
      symbol.className = none ∧
        policy.DeclaresFirst function body symbol.kind symbol.line symbol.name := by
  rw [mem_firstOfEachName_iff, declarations_eq]
  constructor
  · rintro ⟨before, after, split, others⟩
    rcases List.map_eq_append_iff.mp split with ⟨earlier, rest, whole, rfl, later⟩
    rcases List.map_eq_cons_iff.mp later with ⟨declared, identifiers, rfl, rfl, rfl⟩
    refine ⟨rfl, earlier, declared.2, identifiers, whole, rfl, rfl, ?_⟩
    intro other other_mem
    exact others _ (List.mem_map_of_mem other_mem)
  · rcases symbol with ⟨name, kind, line, className⟩
    rintro ⟨rfl, before, identifier, after, split, rfl, rfl, others⟩
    refine ⟨_, _, by rw [split, List.map_append]; rfl, ?_⟩
    intro other other_mem
    rcases List.mem_map.mp other_mem with ⟨declared, declared_mem, rfl⟩
    exact others declared declared_mem

/-- What is declared as a parameter is no name of the receiving instance. -/
theorem DeclaresFirst.kind_cases {policy : Policy} {function body : Cursor} {kind : SymbolKind}
    {line : Nat} {name : String} (first : policy.DeclaresFirst function body kind line name) :
    kind = .parameter ∧ name ∉ policy.selfNames ∨ kind = .localVariable := by
  rcases first with ⟨before, identifier, after, split, rfl, -, -⟩
  have declared : (kind, identifier) ∈ policy.declaredIdentifiers function body := by
    simp [split]
  simp only [declaredIdentifiers, List.mem_append, List.mem_map, List.mem_filter,
    decide_eq_true_eq, Prod.mk.injEq] at declared
  rcases declared with ⟨parameter, ⟨-, notSelf⟩, rfl, rfl⟩ | ⟨binding, -, rfl, -⟩
  · exact Or.inl ⟨rfl, notSelf⟩
  · exact Or.inr rfl

theorem mem_readIdentifiers_iff (function body cursor : Cursor) :
    cursor ∈ policy.readIdentifiers function body ↔
      body.Contains cursor ∧ policy.isUse cursor = true ∧
        ¬∃ site ∈ policy.parameters function ++ policy.ownBindings body,
          site.isSame cursor = true := by
  simp [readIdentifiers, declarationSites, localDeclarations_eq, Cursor.mem_descendants_iff,
    Cursor.isSame, or_imp, forall_and]

theorem neverReads_iff (function body : Cursor) (name : String) :
    policy.NeverReads function body name ↔
      ∀ cursor ∈ policy.readIdentifiers function body, cursor.text ≠ name := by
  simp only [mem_readIdentifiers_iff, NeverReads]
  constructor
  · rintro unread cursor ⟨contains, isUse, elsewhere⟩ text
    exact elsewhere (unread cursor contains isUse text)
  · intro unread cursor contains isUse text
    by_contra elsewhere
    exact unread cursor ⟨contains, isUse, elsewhere⟩ text

theorem mem_unusedNames_iff (function : Cursor) (symbol : Symbol) :
    symbol ∈ policy.unusedNames function ↔
      ∃ body, body? function = some body ∧ symbol.name ≠ "" ∧
        startsWithUnderscore symbol.name = false ∧
        symbol ∈ firstOfEachName (policy.declarations function body) ∧
        policy.NeverReads function body symbol.name := by
  simp only [unusedNames, scope?, neverReads_iff]
  cases body? function with
  | none => simp
  | some body =>
      simp only [firstOfEachName_filter, Scope.unused, Scope.uses, List.mem_filter,
        Option.some.injEq, exists_eq_left']
      constructor
      · rintro ⟨⟨first, named⟩, unused⟩
        simp only [Bool.and_eq_true, Bool.not_eq_true', List.contains_eq_mem,
          decide_eq_false_iff_not, List.mem_map, not_exists, not_and] at unused
        exact ⟨by simpa using named, unused.2, first, unused.1⟩
      · rintro ⟨named, notExempt, first, unread⟩
        refine ⟨⟨first, by simpa using named⟩, ?_⟩
        simp only [Bool.and_eq_true, Bool.not_eq_true', List.contains_eq_mem,
          decide_eq_false_iff_not, List.mem_map, not_exists, not_and]
        exact ⟨unread, notExempt⟩

theorem mem_unusedNames_iff_declaresUnread (function : Cursor) (symbol : Symbol) :
    symbol ∈ policy.unusedNames function ↔
      symbol.className = none ∧ ∃ body, body? function = some body ∧
        policy.DeclaresUnread function body symbol.kind symbol.line symbol.name := by
  rw [mem_unusedNames_iff]
  constructor
  · rintro ⟨body, hasBody, named, notExempt, first, unread⟩
    rcases (policy.mem_firstOfEachName_declarations_iff function body symbol).mp first with
      ⟨noClass, declares⟩
    exact ⟨noClass, body, hasBody, named, notExempt, declares, unread⟩
  · rintro ⟨noClass, body, hasBody, declares⟩
    refine ⟨body, hasBody, declares.named, declares.notExempt, ?_, declares.unread⟩
    exact (policy.mem_firstOfEachName_declarations_iff function body symbol).mpr
      ⟨noClass, declares.first⟩

theorem kind_of_mem_unusedPrivateFields {classNode : Cursor} {symbol : Symbol}
    (symbol_mem : symbol ∈ policy.unusedPrivateFields classNode) :
    symbol.kind = .privateField := by
  unfold unusedPrivateFields at symbol_mem
  split at symbol_mem
  · simp at symbol_mem
  · rcases List.mem_map.mp symbol_mem with ⟨field, -, rfl⟩
    rfl

theorem kind_of_mem_unusedNames {function : Cursor} {symbol : Symbol}
    (symbol_mem : symbol ∈ policy.unusedNames function) : symbol.kind ≠ .privateField := by
  rcases (policy.mem_unusedNames_iff_declaresUnread function symbol).mp symbol_mem with
    ⟨-, body, -, declares⟩
  rcases declares.first.kind_cases with ⟨kind, -⟩ | kind <;> simp [kind]

theorem reportedNames_eq_filter (options : Options) (root : Node) :
    policy.reportedNames options root =
      ((policy.nodesWithRole .function root).flatMap policy.unusedNames).filter
        fun symbol => options.reports symbol.kind := by
  have isName {function : Cursor} {symbol : Symbol}
      (symbol_mem : symbol ∈ policy.unusedNames function) :
      options.reportsName symbol.kind = options.reports symbol.kind :=
    options.reportsName_eq_reports (policy.kind_of_mem_unusedNames symbol_mem)
  unfold reportedNames
  split
  · rw [List.filter_flatMap]
    refine List.flatMap_congr fun function _ => List.filter_congr fun symbol symbol_mem => ?_
    exact isName symbol_mem
  · rename_i disabled
    symm
    rw [List.filter_eq_nil_iff]
    intro symbol symbol_mem
    rcases List.mem_flatMap.mp symbol_mem with ⟨function, -, unused⟩
    rw [← isName unused]
    cases symbol.kind <;> simp_all [Options.reportsName]

theorem reportedFields_eq_filter (options : Options) (root : Node) :
    policy.reportedFields options root =
      ((policy.nodesWithRole .classLike root).flatMap policy.unusedPrivateFields).filter
        fun symbol => options.reports symbol.kind := by
  have isField : ∀ symbol ∈
      (policy.nodesWithRole .classLike root).flatMap policy.unusedPrivateFields,
      options.reports symbol.kind = options.unusedPrivateFields := by
    intro symbol symbol_mem
    rcases List.mem_flatMap.mp symbol_mem with ⟨classNode, -, unused⟩
    rw [policy.kind_of_mem_unusedPrivateFields unused, Options.reports]
  rw [List.filter_congr isField, reportedFields]
  cases options.unusedPrivateFields <;> simp

/-- Reporting symbols in two passes, of which each is left out if there is nothing to report, is
the same as leaving out symbols of all that are found. -/
theorem unusedSymbols_eq_filter_found (options : Options) (root : Node) :
    policy.unusedSymbols options root =
      ((policy.nodesWithRole .function root).flatMap policy.unusedNames ++
        (policy.nodesWithRole .classLike root).flatMap policy.unusedPrivateFields).filter
          fun symbol => options.reports symbol.kind := by
  rw [unusedSymbols, reportedNames_eq_filter, reportedFields_eq_filter, List.filter_append]

theorem issueKind_injective {first second : SymbolKind}
    (same : first.issueKind = second.issueKind) : first = second := by
  cases first <;> cases second <;> simp_all [SymbolKind.issueKind]

/-- An issue of a kind is reported on a line for a name. -/
def Reports (options : Options) (file : String) (root : Node) (kind : SymbolKind) (line : Nat)
    (name : String) : Prop :=
  ∃ issue ∈ policy.issues options file root,
    issue.kind = kind.issueKind ∧ issue.line = line ∧ issue.symbolName = name

theorem reports_iff_exists_symbol (options : Options) (file : String) (root : Node)
    (kind : SymbolKind) (line : Nat) (name : String) :
    policy.Reports options file root kind line name ↔
      ∃ symbol ∈ policy.unusedSymbols options root,
        symbol.kind = kind ∧ symbol.line = line ∧ symbol.name = name := by
  simp only [Reports, issues, mem_sortIssues, List.mem_map]
  constructor
  · rintro ⟨_, ⟨symbol, symbol_mem, rfl⟩, sameKind, line_eq, name_eq⟩
    exact ⟨symbol, symbol_mem, issueKind_injective sameKind, line_eq, name_eq⟩
  · rintro ⟨symbol, symbol_mem, rfl, rfl, rfl⟩
    exact ⟨_, ⟨symbol, symbol_mem, rfl⟩, rfl, rfl, rfl⟩

theorem mem_unusedSymbols_iff {options : Options} {root : Node} {symbol : Symbol}
    (isName : symbol.kind ≠ .privateField) :
    symbol ∈ policy.unusedSymbols options root ↔
      options.reports symbol.kind = true ∧
        ∃ function, (Cursor.ofRoot root).Contains function ∧ policy.role function = .function ∧
          symbol ∈ policy.unusedNames function := by
  have noField : ∀ classNode, symbol ∉ policy.unusedPrivateFields classNode :=
    fun _ symbol_mem => isName (policy.kind_of_mem_unusedPrivateFields symbol_mem)
  simp only [unusedSymbols_eq_filter_found, nodesWithRole, List.mem_filter, List.mem_append, List.mem_flatMap,
    Cursor.mem_descendants_iff, noField, beq_iff_eq, and_false, exists_false, or_false, and_assoc]
  exact and_comm

/-- A parameter or local variable is reported exactly where some function declares it first and
never reads it. -/
theorem reports_iff {options : Options} {kind : SymbolKind} (isName : kind ≠ .privateField)
    (file : String) (root : Node) (line : Nat) (name : String) :
    policy.Reports options file root kind line name ↔
      options.reports kind = true ∧
        ∃ function body, (Cursor.ofRoot root).Contains function ∧
          policy.role function = .function ∧ body? function = some body ∧
          policy.DeclaresUnread function body kind line name := by
  rw [reports_iff_exists_symbol]
  constructor
  · rintro ⟨symbol, symbol_mem, rfl, rfl, rfl⟩
    rcases (policy.mem_unusedSymbols_iff isName).mp symbol_mem with
      ⟨enabled, function, inside, role, unused⟩
    rcases (policy.mem_unusedNames_iff_declaresUnread function symbol).mp unused with
      ⟨-, body, hasBody, declares⟩
    exact ⟨enabled, function, body, inside, role, hasBody, declares⟩
  · rintro ⟨enabled, function, body, inside, role, hasBody, declares⟩
    refine ⟨⟨name, kind, line, none⟩, (policy.mem_unusedSymbols_iff isName).mpr ?_, rfl, rfl, rfl⟩
    exact ⟨enabled, function, inside, role,
      (policy.mem_unusedNames_iff_declaresUnread _ _).mpr ⟨rfl, body, hasBody, declares⟩⟩

/-- The reported parameters and local variables are those that a function of the tree declares
first and never reads, if their kind is to be reported. -/
theorem issues_report_exactly_unread_names (options : Options) (file : String) (root : Node)
    (line : Nat) (name : String) :
    (policy.Reports options file root .parameter line name ↔
        options.unusedParameters = true ∧
          ∃ function body, (Cursor.ofRoot root).Contains function ∧
            policy.role function = .function ∧ body? function = some body ∧
            policy.DeclaresUnread function body .parameter line name) ∧
      (policy.Reports options file root .localVariable line name ↔
        options.unusedLocals = true ∧
          ∃ function body, (Cursor.ofRoot root).Contains function ∧
            policy.role function = .function ∧ body? function = some body ∧
            policy.DeclaresUnread function body .localVariable line name) :=
  ⟨policy.reports_iff (by simp) file root line name,
    policy.reports_iff (by simp) file root line name⟩

/-- The lines `def f(x):` and `    x = 1`. -/
def reassigningTree : Node :=
  let identifier (byte line column : Nat) (field : Option String) : Node :=
    ⟨"identifier", true, field, ⟨byte, byte + 1, line, column, line, column + 1⟩, "x", []⟩
  let assignment : Node :=
    ⟨"assignment", true, none, ⟨14, 19, 2, 5, 2, 10⟩, "x = 1",
      [identifier 14 2 5 (some "left"),
        ⟨"integer", true, some "right", ⟨18, 19, 2, 9, 2, 10⟩, "1", []⟩]⟩
  let function : Node :=
    ⟨"function_definition", true, none, ⟨0, 19, 1, 1, 2, 10⟩, "def f(x):\n    x = 1",
      [⟨"parameters", true, some "parameters", ⟨5, 8, 1, 6, 1, 9⟩, "(x)", [identifier 6 1 7 none]⟩,
        ⟨"block", true, some "body", ⟨14, 19, 2, 5, 2, 10⟩, "x = 1",
          [⟨"expression_statement", true, none, ⟨14, 19, 2, 5, 2, 10⟩, "x = 1", [assignment]⟩]⟩]⟩
  ⟨"module", true, none, ⟨0, 20, 1, 1, 3, 1⟩, "def f(x):\n    x = 1\n", [function]⟩

/-- A parameter to which a function assigns is declared twice and never read. It is reported as a
parameter, and not as the local variable that has its name. -/
theorem issues_report_reassigned_parameter :
    Python.policy.issues {} "a.py" reassigningTree =
        [⟨.unusedParameter, "a.py", 1, "x", none⟩] ∧
      (∃ function body, (Cursor.ofRoot reassigningTree).Contains function ∧
        Python.policy.role function = .function ∧ body? function = some body ∧
        Python.policy.DeclaresUnread function body .parameter 1 "x") ∧
      ¬∃ function body, (Cursor.ofRoot reassigningTree).Contains function ∧
        Python.policy.role function = .function ∧ body? function = some body ∧
        Python.policy.DeclaresUnread function body .localVariable 2 "x" := by
  have reported : Python.policy.issues {} "a.py" reassigningTree =
      [⟨.unusedParameter, "a.py", 1, "x", none⟩] := by decide +kernel
  refine ⟨reported, ?_, ?_⟩
  · apply And.right
    apply (Python.policy.issues_report_exactly_unread_names {} "a.py" reassigningTree 1 "x").1.mp
    exact ⟨_, by rw [reported]; exact List.mem_cons_self, rfl, rfl, rfl⟩
  · intro declared
    have asLocal :=
      (Python.policy.issues_report_exactly_unread_names {} "a.py" reassigningTree 2 "x").2.mpr
        ⟨rfl, declared⟩
    rcases asLocal with ⟨issue, issue_mem, kind, -, -⟩
    rw [reported, List.mem_singleton] at issue_mem
    rw [issue_mem] at kind
    contradiction

end Policy

end CodeFacts.Unused
