import CodeFacts.Proofs.Unused.DeclarationSites

/-!
# Declarations that are taken for reads

Whether an identifier in the body of a function declares a name or reads it is told by its place:
the function's own parameters and bindings declare, every other identifier reads. So a name that is
declared again by the function itself is still unread. But the parameters and bindings of nested
functions are none of the function's own, and each of them counts as a read of the outer name.
-/

namespace CodeFacts.Unused

namespace Policy

variable (policy : Policy)

/-- A node stands at the place of one of the identifiers that a function declares. -/
def DeclaredAt (function body cursor : Cursor) : Prop :=
  ∃ site ∈ policy.parameters function ++ policy.ownBindings body, site.isSame cursor = true

/-- A function in a body, or the body itself if it is one, declares an identifier. -/
def DeclaredInside (body site : Cursor) : Prop :=
  ∃ nested, body.Contains nested ∧ policy.role nested = .function ∧
    (site ∈ policy.parameters nested ∨
      ∃ nestedBody, body? nested = some nestedBody ∧ site ∈ policy.ownBindings nestedBody)

/-- The scope of a function lists a symbol as declared. -/
def Declares (function : Cursor) (symbol : Symbol) : Prop :=
  ∃ scope, policy.scope? function = some scope ∧ symbol ∈ scope.declared

variable {policy} {function body : Cursor}

theorem contains_of_mem_ownNodes {cursor : Cursor} (own : cursor ∈ policy.ownNodes body) :
    body.Contains cursor := by
  rcases List.mem_cons.mp own with rfl | below
  · exact Cursor.contains_self cursor
  · rcases List.mem_flatMap.mp below with ⟨child, child_mem, visited⟩
    exact (Cursor.contains_of_mem_preorder visited).of_child child_mem

theorem DeclaresWithin.ownBindings (within : policy.DeclaresWithin) {site : Cursor}
    (bound : site ∈ policy.ownBindings body) : body.Contains site := by
  rcases List.mem_flatMap.mp bound with ⟨cursor, own, site_mem⟩
  exact (contains_of_mem_ownNodes own).trans (within.localBindings cursor site site_mem)

theorem DeclaredInside.contains (within : policy.DeclaresWithin) {site : Cursor}
    (declared : policy.DeclaredInside body site) : body.Contains site := by
  rcases declared with ⟨nested, inside, -, parameter | ⟨nestedBody, hasBody, bound⟩⟩
  · exact inside.trans (within.parameters nested site parameter)
  · exact (inside.trans (Cursor.contains_of_childByField? hasBody)).trans
      (within.ownBindings bound)

theorem declaredAt_iff (cursor : Cursor) :
    policy.DeclaredAt function body cursor ↔
      cursor.address ∈ policy.declarationSites function body := by
  simp [DeclaredAt, declarationSites, localDeclarations_eq, Cursor.isSame, or_and_right, exists_or]

theorem declaredInside_of_parameter (within : policy.DeclaresWithin) {nested cursor : Cursor}
    (inside : body.Contains nested) (isFunction : policy.role nested = .function)
    (contains : body.Contains cursor)
    (isParameter : cursor.address ∈ (policy.parameters nested).map Cursor.address) :
    policy.DeclaredInside body cursor := by
  rcases List.mem_map.mp isParameter with ⟨site, site_mem, same⟩
  have site_inside := inside.trans (within.parameters nested site site_mem)
  obtain rfl := site_inside.eq_of_address contains same
  exact ⟨nested, inside, isFunction, Or.inl site_mem⟩

theorem declares_iff (hasBody : body? function = some body) (symbol : Symbol) :
    policy.Declares function symbol ↔
      symbol.name ≠ "" ∧ symbol ∈ firstOfEachName (policy.declarations function body) := by
  simp [Declares, scope?, hasBody, firstOfEachName_filter, and_comm]

/-- A declared symbol that is not exempt is reported exactly if its name is never read. -/
theorem mem_unusedNames_iff_neverReads (hasBody : body? function = some body) {symbol : Symbol}
    (declared : policy.Declares function symbol)
    (notExempt : startsWithUnderscore symbol.name = false) :
    symbol ∈ policy.unusedNames function ↔ policy.NeverReads function body symbol.name := by
  rcases (declares_iff hasBody symbol).mp declared with ⟨named, first⟩
  rw [mem_unusedNames_iff]
  constructor
  · rintro ⟨body', hasBody', -, -, -, unread⟩
    rw [hasBody] at hasBody'
    rwa [Option.some.inj hasBody']
  · intro unread
    exact ⟨body, hasBody, named, notExempt, first, unread⟩

/-- The first declaration of a parameter's name is a parameter, since these come first. -/
theorem exists_first_parameter {parameter : Cursor}
    (isParameter : parameter ∈ policy.parameters function)
    (noSelf : parameter.text ∉ policy.selfNames) (body : Cursor) :
    ∃ symbol ∈ firstOfEachName (policy.declarations function body),
      symbol.kind = .parameter ∧ symbol.name = parameter.text := by
  let parameters := ((policy.parameters function).filter fun identifier =>
    !policy.selfNames.contains identifier.text).map (Symbol.declaredBy .parameter)
  let locals := (policy.localDeclarations body).map (Symbol.declaredBy .localVariable)
  have listed : Symbol.declaredBy .parameter parameter ∈ parameters := by
    apply List.mem_map_of_mem
    simpa [isParameter] using noSelf
  cases found : parameters.find? fun symbol => symbol.name == parameter.text with
  | none => exact absurd (List.find?_eq_none.mp found _ listed) (by simp [Symbol.declaredBy])
  | some first =>
      rcases List.find?_eq_some_iff_append.mp found with ⟨named, before, after, split, others⟩
      have isFirst : first ∈ parameters := List.mem_of_find?_eq_some found
      rcases List.mem_map.mp isFirst with ⟨identifier, -, rfl⟩
      refine ⟨_, (mem_firstOfEachName_iff _ _).mpr ⟨before, after ++ locals, ?_, ?_⟩, rfl,
        eq_of_beq named⟩
      · change parameters ++ locals = _
        rw [split, List.append_assoc, List.cons_append]
      · intro other other_mem
        rw [eq_of_beq named]
        simpa using others other other_mem

end Policy

/-- Let a name occur in the body of a function only where the function or one nested in it declares
it. Then it is reported exactly if every nested declaration that could be a use by its kind is one
of the function's own. -/
theorem unused_iff_not_declared_again_inside (language : Language) {function body : Cursor}
    (hasBody : body? function = some body) {symbol : Symbol}
    (declared : (policyFor language).Declares function symbol)
    (notExempt : startsWithUnderscore symbol.name = false)
    (onlyDeclared : ∀ cursor, body.Contains cursor → (policyFor language).isUse cursor = true →
      cursor.text = symbol.name →
        (policyFor language).DeclaredAt function body cursor ∨
          (policyFor language).DeclaredInside body cursor) :
    symbol ∈ (policyFor language).unusedNames function ↔
      ∀ site, (policyFor language).DeclaredInside body site →
        (policyFor language).isUse site = true → site.text = symbol.name →
          (policyFor language).DeclaredAt function body site := by
  rw [Policy.mem_unusedNames_iff_neverReads hasBody declared notExempt]
  constructor
  · intro unread site inside isUse text
    exact unread site (inside.contains (declaresWithin_policyFor language)) isUse text
  · intro ownOnly cursor contains isUse text
    rcases onlyDeclared cursor contains isUse text with own | inside
    · exact own
    · exact ownOnly cursor inside isUse text

/-- A stretch of the first line. -/
def lineSpan (first last : Nat) : Span :=
  ⟨first, last, 1, first + 1, 1, last + 1⟩

/-- The list `(a)` of one parameter. -/
def parameterList (start : Nat) : Node :=
  ⟨"formal_parameters", true, some "parameters", lineSpan start (start + 3), "(a)",
    [⟨"identifier", true, none, lineSpan (start + 1) (start + 2), "a", []⟩]⟩

/-- The function `function f(a) { var a = 1; return ({ a }) => 1; }`. -/
def redeclaringFunction : Node :=
  let name : Node := ⟨"identifier", true, some "name", lineSpan 20 21, "a", []⟩
  let value : Node := ⟨"number", true, some "value", lineSpan 24 25, "1", []⟩
  let declarator : Node :=
    ⟨"variable_declarator", true, none, lineSpan 20 25, "a = 1", [name, value]⟩
  let declaration : Node :=
    ⟨"variable_declaration", true, none, lineSpan 16 26, "var a = 1;", [declarator]⟩
  let innerName : Node :=
    ⟨"shorthand_property_identifier_pattern", true, none, lineSpan 37 38, "a", []⟩
  let pattern : Node :=
    ⟨"object_pattern", true, none, lineSpan 35 40, "\x7b a \x7d", [innerName]⟩
  let inner : Node :=
    ⟨"arrow_function", true, none, lineSpan 34 46, "(\x7b a \x7d) => 1",
      [⟨"formal_parameters", true, some "parameters", lineSpan 34 41, "(\x7b a \x7d)", [pattern]⟩,
        ⟨"number", true, some "body", lineSpan 45 46, "1", []⟩]⟩
  let result : Node :=
    ⟨"return_statement", true, none, lineSpan 27 47, "return (\x7b a \x7d) => 1;", [inner]⟩
  let text := "\x7b var a = 1; return (\x7b a \x7d) => 1; \x7d"
  ⟨"function_declaration", true, none, lineSpan 0 49, "function f(a) " ++ text,
    [parameterList 10,
      ⟨"statement_block", true, some "body", lineSpan 14 49, text, [declaration, result]⟩]⟩

/-- The parameter `a` of a function on the first line. -/
def parameterA : Symbol :=
  ⟨"a", .parameter, 1, none⟩

/-- Neither the function's own second declaration nor a pattern inside counts as a read. -/
theorem unused_iff_not_declared_again_inside_of_redeclaringFunction :
    let function := Cursor.ofRoot redeclaringFunction
    ∃ body, body? function = some body ∧ (policyFor .javaScript).Declares function parameterA ∧
      parameterA ∈ (policyFor .javaScript).unusedNames function ∧
      ∀ site, (policyFor .javaScript).DeclaredInside body site →
        (policyFor .javaScript).isUse site = true → site.text = parameterA.name →
          (policyFor .javaScript).DeclaredAt function body site := by
  intro function
  have declared : (policyFor .javaScript).Declares function parameterA :=
    ⟨⟨[parameterA], []⟩, by decide +kernel, List.mem_singleton.mpr rfl⟩
  have unused : parameterA ∈ (policyFor .javaScript).unusedNames function := by decide +kernel
  refine ⟨_, rfl, declared, unused, ?_⟩
  apply (unused_iff_not_declared_again_inside .javaScript rfl declared (by decide) ?_).mp unused
  intro cursor contains
  rw [Policy.declaredAt_iff]
  rw [← Cursor.mem_descendants_iff] at contains
  intro isUse text
  left
  revert cursor
  decide +kernel

/-- The function `function f(a) { return function (a) {}; }`. -/
def shadowedFunction : Node :=
  let innerBody : Node := ⟨"statement_block", true, some "body", lineSpan 36 38, "\x7b\x7d", []⟩
  let inner : Node :=
    ⟨"function_expression", true, none, lineSpan 23 38, "function (a) \x7b\x7d",
      [parameterList 32, innerBody]⟩
  let result : Node :=
    ⟨"return_statement", true, none, lineSpan 16 39, "return function (a) \x7b\x7d;", [inner]⟩
  let text := "\x7b return function (a) \x7b\x7d; \x7d"
  ⟨"function_declaration", true, none, lineSpan 0 41, "function f(a) " ++ text,
    [parameterList 10, ⟨"statement_block", true, some "body", lineSpan 14 41, text, [result]⟩]⟩

/-- The parameter of the inner function is taken for a read of the outer one, which is therefore
not reported although nothing reads it. -/
theorem shadowedFunction_hides_unread_parameter :
    let function := Cursor.ofRoot shadowedFunction
    ∃ body, body? function = some body ∧ (policyFor .javaScript).Declares function parameterA ∧
      startsWithUnderscore parameterA.name = false ∧
      (∀ cursor, body.Contains cursor → (policyFor .javaScript).isUse cursor = true →
        cursor.text = parameterA.name →
          (policyFor .javaScript).DeclaredAt function body cursor ∨
            (policyFor .javaScript).DeclaredInside body cursor) ∧
      parameterA ∉ (policyFor .javaScript).unusedNames function := by
  intro function
  have declared : (policyFor .javaScript).Declares function parameterA :=
    ⟨⟨[parameterA], ["a"]⟩, by decide +kernel, List.mem_singleton.mpr rfl⟩
  refine ⟨_, rfl, declared, by decide, ?_, by decide +kernel⟩
  intro cursor contains isUse text
  right
  apply Policy.declaredInside_of_parameter JavaScript.declaresWithin
    (@Cursor.contains_of_descend? _ _ [0, 0] rfl) rfl contains
  rw [← Cursor.mem_descendants_iff] at contains
  revert cursor
  decide +kernel

/-- A node stands in the parameter list of a function. -/
def Ecma.InParameterList (function cursor : Cursor) : Prop :=
  ∃ parameter ∈ parameterNodes function, parameter.Contains cursor

/-- A parameter that the body of its function reads, outside of the function's own declarations, is
not reported. One that neither the body nor the parameter list reads is reported, even where the
body declares its name again. -/
theorem parameter_reported_only_if_body_never_reads_it {language : Language}
    (isEcmaScript : language.isEcmaScript = true) {function body : Cursor}
    (hasBody : body? function = some body) {parameter : Cursor}
    (isParameter : parameter ∈ (policyFor language).parameters function) :
    ((∃ read, body.Contains read ∧ (policyFor language).isUse read = true ∧
          read.text = parameter.text ∧ ¬(policyFor language).DeclaredAt function body read) →
        ∀ symbol ∈ (policyFor language).unusedNames function, symbol.name ≠ parameter.text) ∧
      (parameter.text ≠ "" → startsWithUnderscore parameter.text = false →
        parameter.text ≠ "this" →
        (∀ read, Ecma.InParameterList function read ∨ body.Contains read →
          (policyFor language).isUse read = true → read.text = parameter.text →
            (policyFor language).DeclaredAt function body read) →
        ∃ symbol ∈ (policyFor language).unusedNames function,
          symbol.kind = .parameter ∧ symbol.name = parameter.text) := by
  have selfNames : (policyFor language).selfNames = ["this"] := by
    cases language with
    | javaScript => rfl
    | typeScript => rfl
    | tsx => rfl
    | python => exact absurd isEcmaScript (by decide)
    | go => exact absurd isEcmaScript (by decide)
    | java => exact absurd isEcmaScript (by decide)
  constructor
  · rintro ⟨read, contains, isUse, text, notDeclared⟩ symbol unused name
    rcases ((policyFor language).mem_unusedNames_iff function symbol).mp unused with
      ⟨body', hasBody', -, -, -, unread⟩
    obtain rfl := Option.some.inj (hasBody.symm.trans hasBody')
    exact notDeclared (unread read contains isUse (text.trans name.symm))
  · intro named notExempt noSelf declaredOnly
    have first := Policy.exists_first_parameter isParameter (by simpa [selfNames] using noSelf) body
    rcases first with ⟨symbol, isFirst, kind, name⟩
    rw [← name] at named notExempt declaredOnly
    refine ⟨symbol, ?_, kind, name⟩
    rw [Policy.mem_unusedNames_iff]
    refine ⟨body, hasBody, named, notExempt, isFirst, ?_⟩
    intro cursor contains isUse text
    exact declaredOnly cursor (Or.inr contains) isUse text

/-- The body of `function f(a, b, c = a) { var b = 1; return c; }`. -/
def defaultedBody : Node :=
  let name : Node := ⟨"identifier", true, some "name", lineSpan 30 31, "b", []⟩
  let value : Node := ⟨"number", true, some "value", lineSpan 34 35, "1", []⟩
  let declarator : Node :=
    ⟨"variable_declarator", true, none, lineSpan 30 35, "b = 1", [name, value]⟩
  let declaration : Node :=
    ⟨"variable_declaration", true, none, lineSpan 26 36, "var b = 1;", [declarator]⟩
  let read : Node := ⟨"identifier", true, none, lineSpan 44 45, "c", []⟩
  let result : Node := ⟨"return_statement", true, none, lineSpan 37 46, "return c;", [read]⟩
  ⟨"statement_block", true, some "body", lineSpan 24 48, "\x7b var b = 1; return c; \x7d",
    [declaration, result]⟩

/-- The function `function f(a, b, c = a) { var b = 1; return c; }`. -/
def defaultedFunction : Node :=
  let first : Node := ⟨"identifier", true, none, lineSpan 11 12, "a", []⟩
  let second : Node := ⟨"identifier", true, none, lineSpan 14 15, "b", []⟩
  let left : Node := ⟨"identifier", true, some "left", lineSpan 17 18, "c", []⟩
  let right : Node := ⟨"identifier", true, some "right", lineSpan 21 22, "a", []⟩
  let third : Node := ⟨"assignment_pattern", true, none, lineSpan 17 22, "c = a", [left, right]⟩
  let parameters : Node :=
    ⟨"formal_parameters", true, some "parameters", lineSpan 10 23, "(a, b, c = a)",
      [first, second, third]⟩
  ⟨"function_declaration", true, none, lineSpan 0 48,
    "function f(a, b, c = a) " ++ defaultedBody.text, [parameters, defaultedBody]⟩

theorem parameter_reported_only_if_body_never_reads_it_of_defaultedFunction :
    let function := Cursor.ofRoot defaultedFunction
    (∀ symbol ∈ (policyFor .javaScript).unusedNames function, symbol.name ≠ "c") ∧
      ∃ symbol ∈ (policyFor .javaScript).unusedNames function,
        symbol.kind = .parameter ∧ symbol.name = "b" := by
  intro function
  let body : Cursor := ⟨defaultedBody, [(defaultedFunction, 1)]⟩
  have hasBody : body? function = some body := rfl
  have listed : ∀ name ∈ ["b", "c"],
      name ∈ ((policyFor .javaScript).parameters function).map Cursor.text := by
    decide +kernel
  rcases List.mem_map.mp (listed "b" (by decide)) with ⟨second, second_mem, second_text⟩
  rcases List.mem_map.mp (listed "c" (by decide)) with ⟨third, third_mem, third_text⟩
  constructor
  · rw [← third_text]
    apply (parameter_reported_only_if_body_never_reads_it rfl hasBody third_mem).1
    rw [third_text]
    refine ⟨_, @Cursor.contains_of_descend? body _ [1, 0] rfl, rfl, rfl, ?_⟩
    rw [Policy.declaredAt_iff]
    decide +kernel
  · rw [← second_text]
    apply (parameter_reported_only_if_body_never_reads_it rfl hasBody second_mem).2
    all_goals rw [second_text]
    · decide
    · decide
    · decide
    · intro read inside
      have visited : read ∈ function.descendants := by
        rw [Cursor.mem_descendants_iff]
        rcases inside with ⟨parameter, parameter_mem, contains⟩ | contains
        · exact (Ecma.contains_of_mem_parameterNodes parameter_mem).trans contains
        · exact (Cursor.contains_of_childByField? hasBody).trans contains
      rw [Policy.declaredAt_iff]
      clear inside
      revert read
      decide +kernel

/-- The default of one parameter reads another, and the body declares a third again; both are
reported. -/
theorem defaultedFunction_reports_parameters_that_occur_again :
    let function := Cursor.ofRoot defaultedFunction
    ∃ body inList inBody, body? function = some body ∧
      Ecma.InParameterList function inList ∧ body.Contains inBody ∧
      (∀ read ∈ [inList, inBody], (policyFor .javaScript).isUse read = true ∧
        ∀ parameter ∈ (policyFor .javaScript).parameters function,
          parameter.isSame read = false) ∧
      (policyFor .javaScript).unusedNames function =
        [⟨inList.text, .parameter, 1, none⟩, ⟨inBody.text, .parameter, 1, none⟩] := by
  intro function
  let body : Cursor := ⟨defaultedBody, [(defaultedFunction, 1)]⟩
  refine ⟨body, _, _, rfl,
    ⟨_, .tail _ (.tail _ (.head _)), @Cursor.contains_of_descend? _ _ [1] rfl⟩,
    @Cursor.contains_of_descend? body _ [0, 0, 0] rfl, ?_, ?_⟩
  · decide +kernel
  · decide +kernel

end CodeFacts.Unused
