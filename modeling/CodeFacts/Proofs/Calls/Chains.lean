import CodeFacts.Proofs.Calls.Targets
import CodeFacts.Proofs.Tree.DocumentOrder

/-!
# Definitions at the position of a call

The definition at a position is looked up with the first recorded call, in document order, whose
called text covers the position. The first is the outermost: in `f().g()` both calls start at the
same position, and the name that is looked up there is `g`. So a call is resolved as itself exactly
if it does not stand in what another call calls, on the first line of that and within its length.
-/

namespace CodeFacts.Calls

/-- A name without a point is its own last segment. -/
theorem CallSite.lastSegment_of_not_mem {name : String} (bare : '.' ∉ name.toList) :
    lastSegment name = name := by
  have whole : name.toList.reverse.takeWhile (· != '.') = name.toList.reverse := by
    apply List.takeWhile_eq_self_iff.mpr
    intro char char_mem
    have different : char ≠ '.' := by
      rintro rfl
      exact bare (List.mem_reverse.mp char_mem)
    simpa using different
  rw [lastSegment, whole, List.reverse_reverse, String.ofList_toList]

/-- A node of a tree is a call that is recorded as a site. -/
structure IsRecordedAs (tree : Node) (call : Cursor) (site : CallSite) : Prop where
  inside : (Cursor.ofRoot tree).Contains call
  isCall : call.kind = "call"
  recorded : callSite? call = some site

/-- A call starts with what it calls, and the bracket that opens its arguments stands between that
and the calls in them. -/
structure OpensArguments (call callee : Cursor) : Prop where
  starts : callee.span.first = call.span.first
  ends : callee.span.last < call.span.last
  inner : ∀ other, call.Contains other → other.kind = "call" →
    other = call ∨ callee.Contains other ∨ callee.span.last < other.span.first

/-- In all calls of a tree the arguments follow what is called. -/
def ArgumentsFollow (tree : Node) : Prop :=
  ∀ call callee, (Cursor.ofRoot tree).Contains call → call.kind = "call" →
    call.childByField? "function" = some callee → OpensArguments call callee

/-- Whether the arguments follow is told by the spans and addresses of the calls. -/
theorem argumentsFollow_iff (tree : Node) :
    ArgumentsFollow tree ↔ ∀ call ∈ (Cursor.ofRoot tree).descendantsOfKind "call",
      ∀ callee ∈ call.childByField? "function",
        callee.span.first = call.span.first ∧ callee.span.last < call.span.last ∧
          ∀ other ∈ call.descendantsOfKind "call",
            other.address = call.address ∨ callee.address <:+ other.address ∨
              callee.span.last < other.span.first := by
  have addresses {call callee other : Cursor} (inside : (Cursor.ofRoot tree).Contains call)
      (calls : call.childByField? "function" = some callee) (below : call.Contains other) :
      (other = call ↔ other.address = call.address) ∧
        (callee.Contains other ↔ callee.address <:+ other.address) :=
    ⟨⟨congrArg Cursor.address, (inside.trans below).eq_of_address inside⟩,
      Cursor.contains_iff_address_suffix
        (inside.trans (Cursor.contains_of_childByField? calls)) (inside.trans below)⟩
  simp only [Cursor.mem_descendantsOfKind_iff]
  constructor
  · rintro follow call ⟨inside, isCall⟩ callee calls
    rcases follow call callee inside isCall calls with ⟨starts, ends, inner⟩
    refine ⟨starts, ends, ?_⟩
    rintro other ⟨below, other_isCall⟩
    rw [← (addresses inside calls below).1, ← (addresses inside calls below).2]
    exact inner other below other_isCall
  · intro follow call callee inside isCall calls
    rcases follow call ⟨inside, isCall⟩ callee calls with ⟨starts, ends, inner⟩
    refine ⟨starts, ends, ?_⟩
    intro other below other_isCall
    rw [(addresses inside calls below).1, (addresses inside calls below).2]
    exact inner other ⟨below, other_isCall⟩

instance (tree : Node) : Decidable (ArgumentsFollow tree) :=
  decidable_of_iff _ (argumentsFollow_iff tree).symm

/-- A recorded call obscures what stands in the text that it calls, on the first line of that and
within its length. -/
def Obscures (tree : Node) (outer inner : Cursor) : Prop :=
  ∃ site callee, IsRecordedAs tree outer site ∧ outer.childByField? "function" = some callee ∧
    callee.Contains inner ∧ site.line = inner.span.startLine ∧
    inner.span.startColumn ≤ site.column + site.callee.length

/-- Whether the text that a call calls covers a position. -/
def CallSite.covers (site : CallSite) (position : Position) : Bool :=
  site.line == position.line && site.calleeCovers position.column

section Record

variable {tree : Node} {call : Cursor} {site : CallSite}

theorem IsRecordedAs.position (recorded : IsRecordedAs tree call site) :
    site.position = ⟨call.span.startLine, call.span.startColumn⟩ := by
  rcases Option.map_eq_some_iff.mp recorded.recorded with ⟨callee, -, rfl⟩
  rfl

theorem IsRecordedAs.exists_callee (recorded : IsRecordedAs tree call site) :
    ∃ callee, call.childByField? "function" = some callee ∧ site.callee = callee.text := by
  rcases Option.map_eq_some_iff.mp recorded.recorded with ⟨text, named, rfl⟩
  unfold callee? at named
  split at named
  · contradiction
  · rename_i callee found
    refine ⟨callee, found, ?_⟩
    split at named
    · split at named
      · contradiction
      · exact (Option.some.inj named).symm
    · exact (Option.some.inj named).symm
    · contradiction

theorem CallSite.covers_iff {position : Position} :
    site.covers position = true ↔
      site.line = position.line ∧ site.column ≤ position.column ∧
        position.column ≤ site.column + site.callee.length := by
  simp [covers, calleeCovers]

theorem CallSite.covers_position (site : CallSite) : site.covers site.position = true := by
  simp [covers_iff, CallSite.position]

/-- What is found first in an ordered list comes before all else that could be found. -/
theorem eq_or_rel_of_find? {α : Type} {relation : α → α → Prop} {wanted : α → Bool} {list : List α}
    (ordered : list.Pairwise relation) {first other : α} (found : list.find? wanted = some first)
    (other_mem : other ∈ list) (isWanted : wanted other = true) :
    other = first ∨ relation first other := by
  rcases List.find?_eq_some_iff_append.mp found with ⟨-, before, after, rfl, missed⟩
  rcases List.mem_append.mp other_mem with earlier | later
  · simpa [isWanted] using missed other earlier
  · refine (List.mem_cons.mp later).imp_right fun after_mem => ?_
    exact List.rel_of_pairwise_cons (List.pairwise_append.mp ordered).2.1 after_mem

/-- The first call that covers a position comes before all others that do. -/
theorem exists_first_covering {relation : Cursor → Cursor → Prop} {position : Position}
    (ordered : ((Cursor.ofRoot tree).preorder fun _ => true).Pairwise relation)
    (recorded : IsRecordedAs tree call site) (covers : site.covers position = true) :
    ∃ first firstSite, IsRecordedAs tree first firstSite ∧ firstSite.covers position = true ∧
      (callsOf tree).find? (fun found => found.covers position) = some firstSite ∧
      ∀ other otherSite, IsRecordedAs tree other otherSite → otherSite.covers position = true →
        other = first ∨ relation first other := by
  have calls_ordered : ((Cursor.ofRoot tree).descendantsOfKind "call").Pairwise relation := by
    rw [← Cursor.walk_eq_preorder] at ordered
    exact ordered.filter _
  have search := @List.find?_filterMap _ _ ((Cursor.ofRoot tree).descendantsOfKind "call")
    callSite? fun found => found.covers position
  change (callsOf tree).find? _ = _ at search
  -- Among the nodes that are searched are all calls of the tree.
  have reached {node : Cursor} {found : CallSite} (recorded : IsRecordedAs tree node found)
      (covers : found.covers position = true) :
      node ∈ (Cursor.ofRoot tree).descendantsOfKind "call" ∧
        (callSite? node).any (fun found => found.covers position) = true :=
    ⟨Cursor.mem_descendantsOfKind_iff.mpr ⟨recorded.inside, recorded.isCall⟩,
      by simp [recorded.recorded, covers]⟩
  cases found : ((Cursor.ofRoot tree).descendantsOfKind "call").find? fun node =>
      (callSite? node).any fun found => found.covers position with
  | none =>
      rcases reached recorded covers with ⟨call_mem, call_covers⟩
      exact absurd call_covers (List.find?_eq_none.mp found call call_mem)
  | some first =>
      rcases Cursor.mem_descendantsOfKind_iff.mp (List.mem_of_find?_eq_some found) with
        ⟨first_inside, first_isCall⟩
      have passes := List.find?_some found
      rcases (Option.any_eq_true _ _).mp passes with ⟨firstSite, first_recorded, first_covers⟩
      refine ⟨first, firstSite, ⟨first_inside, first_isCall, first_recorded⟩, first_covers, ?_, ?_⟩
      · rw [search, found]
        exact first_recorded
      · intro other otherSite other_recorded other_covers
        rcases reached other_recorded other_covers with ⟨other_mem, isWanted⟩
        exact eq_or_rel_of_find? calls_ordered found other_mem isWanted

end Record

section Layout

variable {tree : Node} {outer inner : Cursor} {site innerSite : CallSite}

/-- A call does not cover what starts after the text that it calls. -/
theorem not_covers_of_callee_before (laid : tree.LaidOut) (follow : ArgumentsFollow tree)
    (recorded : IsRecordedAs tree outer site) {callee : Cursor}
    (calls : outer.childByField? "function" = some callee) (named : site.callee = callee.text)
    (before : callee.span.last < inner.span.first) :
    ¬site.covers ⟨inner.span.startLine, inner.span.startColumn⟩ = true := by
  intro covers
  rcases CallSite.covers_iff.mp covers with ⟨line, -, within⟩
  have callee_inside : (Cursor.ofRoot tree).Contains callee :=
    recorded.inside.trans (Cursor.contains_of_childByField? calls)
  have starts := toLex.injective
    (follow outer callee recorded.inside recorded.isCall calls).starts
  have forward := laid.forward callee callee_inside
  have fits := laid.fits callee callee_inside
  have position := recorded.position
  simp only [CallSite.position, Position.mk.injEq, Prod.mk.injEq] at starts position
  rw [Span.last, Span.first, Prod.Lex.toLex_lt_toLex] at before
  rw [Span.last, Span.first, Prod.Lex.toLex_le_toLex] at forward
  dsimp only at before forward within line
  rw [named] at within
  omega

/-- A call that covers the start of a later one obscures it. -/
theorem obscures_of_covers (laid : tree.LaidOut) (follow : ArgumentsFollow tree)
    (recorded : IsRecordedAs tree outer site) (inner_recorded : IsRecordedAs tree inner innerSite)
    (covers : site.covers innerSite.position = true) (different : inner ≠ outer)
    (ordered : outer.Contains inner ∨ outer.span.last ≤ inner.span.first) :
    Obscures tree outer inner := by
  rw [inner_recorded.position] at covers
  rcases recorded.exists_callee with ⟨callee, calls, named⟩
  have not_before : ¬callee.span.last < inner.span.first := fun before =>
    not_covers_of_callee_before laid follow recorded calls named before covers
  have opens := follow outer callee recorded.inside recorded.isCall calls
  rcases CallSite.covers_iff.mp covers with ⟨line, -, within⟩
  refine ⟨site, callee, recorded, calls, ?_, line, within⟩
  rcases ordered with contains | after
  · rcases opens.inner inner contains inner_recorded.isCall with same | below | before
    · exact absurd same different
    · exact below
    · exact absurd before not_before
  · exact absurd (opens.ends.trans_le after) not_before

theorem Obscures.contains (obscures : Obscures tree outer inner) : outer.Contains inner := by
  rcases obscures with ⟨-, callee, -, calls, contains, -⟩
  exact (Cursor.contains_of_childByField? calls).trans contains

theorem Obscures.exists_covering (laid : tree.LaidOut) (obscures : Obscures tree outer inner) :
    ∃ site, IsRecordedAs tree outer site ∧
      site.covers ⟨inner.span.startLine, inner.span.startColumn⟩ = true := by
  have contains := obscures.contains
  rcases obscures with ⟨site, callee, recorded, -, -, line, within⟩
  have position := recorded.position
  have nested := (laid.nested.of_contains recorded.inside contains).1
  rw [Span.first, Span.first, Prod.Lex.toLex_le_toLex] at nested
  simp only [CallSite.position, Position.mk.injEq] at position
  refine ⟨site, recorded, CallSite.covers_iff.mpr ⟨line, ?_, within⟩⟩
  dsimp only at nested ⊢
  omega

/-- Of a call and those that obscure it, the outermost one. -/
structure IsOutermost (tree : Node) (call outer : Cursor) (site : CallSite) : Prop where
  recorded : IsRecordedAs tree outer site
  obscures : outer = call ∨ Obscures tree outer call
  outermost : ∀ other, Obscures tree other call → outer.Contains other

/-- The call that is found at the start of a call is the outermost one. -/
theorem exists_isOutermost (laid : tree.LaidOut) (follow : ArgumentsFollow tree) {call : Cursor}
    (recorded : IsRecordedAs tree call site) :
    ∃ outer outerSite, IsOutermost tree call outer outerSite ∧
      (callsOf tree).find? (fun found => found.covers site.position) = some outerSite := by
  have ordered := (Cursor.not_contains_of_later (fun _ => true) (Cursor.ofRoot tree)).and
    (laid.contains_or_before fun _ => true)
  rcases exists_first_covering ordered recorded site.covers_position with
    ⟨outer, outerSite, outer_recorded, covers, found, first⟩
  have obscures : outer = call ∨ Obscures tree outer call := by
    rcases first call site recorded site.covers_position with same | ⟨-, before⟩
    · exact Or.inl same.symm
    · by_cases same : call = outer
      · exact Or.inl same.symm
      · exact Or.inr (obscures_of_covers laid follow outer_recorded recorded covers same before)
  have contains : outer.Contains call := by
    rcases obscures with rfl | obscures
    · exact Cursor.contains_self outer
    · exact obscures.contains
  refine ⟨outer, outerSite, ⟨outer_recorded, obscures, ?_⟩, found⟩
  -- What obscures the call covers its start too, so it is not found before the outermost.
  intro other other_obscures
  rcases other_obscures.exists_covering laid with ⟨otherSite, other_recorded, other_covers⟩
  rw [← recorded.position] at other_covers
  rcases first other otherSite other_recorded other_covers with rfl | ⟨notAround, -⟩
  · exact Cursor.contains_self other
  · exact (contains.total other_obscures.contains).resolve_right notAround

end Layout

/-- The places where a file declares a name. -/
def LoadedFile.locationsNamed (file : LoadedFile) (name : String) : List SourceLocation :=
  (file.declarations.filter fun declaration => declaration.name == name).map (locationOf file.path)

/-- The places where loaded files declare a name, those of one file first. -/
def Store.locationsNamed (store : Store) (own : LoadedFile) (name : String) : List SourceLocation :=
  own.locationsNamed name ++
    (store.files.filter fun other => decide (other ≠ own)).flatMap fun other =>
      other.locationsNamed name

theorem Store.map_location_declarationsNamed {store : Store} {own : LoadedFile}
    (own_mem : own ∈ store.files) (name : String) :
    (store.declarationsNamed name own.path).map Item.location = store.locationsNamed own name := by
  have located (file : LoadedFile) :
      (file.itemsNamed name).map Item.location = file.locationsNamed name := by
    rw [LoadedFile.itemsNamed, List.map_map]
    rfl
  simp only [declarationsNamed_eq own_mem, List.map_append, List.map_flatMap, located,
    locationsNamed]

theorem Store.definition_of_covering {store : Store} {file : LoadedFile} {position : Position}
    {site : CallSite}
    (found : file.calls.find? (fun call => call.covers position) = some site) :
    store.definition file position =
      (store.declarationsNamed site.bareName file.path).map Item.location := by
  have search : file.calls.find? (fun call =>
      call.line == position.line && call.calleeCovers position.column) = some site := found
  simp only [definition, search]

namespace Session

/-- The definition at the position of a bare call which no other call covers is that of the call
itself. In a tree that is laid out as a text, the definition at the position of any call is that of
the outermost call which obscures it, and its own if none does. -/
theorem definition_at_call_resolves_outermost (steps : List Step) (files : FileSystem)
    {file path : Path} {source : SourceFile} {after : Session}
    (resolved : (new.run steps).resolve file = .ok path)
    (load : (new.run steps).load files path = (some (LoadedFile.ofSource path source), after))
    {call : Cursor} {site : CallSite} (recorded : IsRecordedAs source.tree call site) :
    ('.' ∉ site.callee.toList →
        (∀ other otherSite, IsRecordedAs source.tree other otherSite →
          otherSite.covers site.position = true → other = call) →
        (new.run steps).definition files ⟨file, site.position⟩ =
          (.ok (after.store.locationsNamed (LoadedFile.ofSource path source) site.callee),
            after)) ∧
      (source.tree.LaidOut → ArgumentsFollow source.tree →
        ∃ outer outerSite, IsOutermost source.tree call outer outerSite ∧
          (new.run steps).definition files ⟨file, site.position⟩ =
            (.ok (after.store.locationsNamed (LoadedFile.ofSource path source)
              (CallSite.lastSegment outerSite.callee)), after)) := by
  have wellFormed : (new.run steps).WellFormed := wellFormed_new.run steps
  rcases wellFormed.mem_files_of_load resolved load with ⟨loaded_mem, -⟩
  have answered {found : CallSite}
      (first : (callsOf source.tree).find? (fun call => call.covers site.position) = some found) :
      (new.run steps).definition files ⟨file, site.position⟩ =
        (.ok (after.store.locationsNamed (LoadedFile.ofSource path source)
          (CallSite.lastSegment found.callee)), after) := by
    rw [definition, withFile_of_load resolved load, Store.definition_of_covering first,
      Store.map_location_declarationsNamed loaded_mem]
    rfl
  constructor
  · intro bare alone
    rcases exists_first_covering (List.pairwise_of_forall fun _ _ => trivial) recorded
      site.covers_position with ⟨first, firstSite, first_recorded, covers, found, -⟩
    obtain rfl := alone first firstSite first_recorded covers
    obtain rfl := Option.some.inj (recorded.recorded.symm.trans first_recorded.recorded)
    rw [answered found, CallSite.lastSegment_of_not_mem bare]
  · intro laid follow
    rcases exists_isOutermost laid follow recorded with ⟨outer, outerSite, outermost, found⟩
    exact ⟨outer, outerSite, outermost, answered found⟩

/-- Functions `f` and `g` on a line each, then the lines `f().g()` and `g()`. -/
def chainSource : SourceFile :=
  let function (byte line : Nat) (name : String) : Node :=
    ⟨"function_definition", true, none, ⟨byte, byte + 13, line, 1, line, 14⟩,
      "def " ++ name ++ "(): pass",
      [⟨"identifier", true, some "name", ⟨byte + 4, byte + 5, line, 5, line, 6⟩, name, []⟩]⟩
  let arguments (byte line column : Nat) : Node :=
    ⟨"argument_list", true, some "arguments",
      ⟨byte, byte + 2, line, column, line, column + 2⟩, "()", []⟩
  let bareCall (byte line : Nat) (field : Option String) (name : String) : Node :=
    ⟨"call", true, field, ⟨byte, byte + 3, line, 1, line, 4⟩, name ++ "()",
      [⟨"identifier", true, some "function", ⟨byte, byte + 1, line, 1, line, 2⟩, name, []⟩,
        arguments (byte + 1) line 2]⟩
  let method : Node :=
    ⟨"attribute", true, some "function", ⟨28, 33, 3, 1, 3, 6⟩, "f().g",
      [bareCall 28 3 (some "object") "f",
        ⟨"identifier", true, some "attribute", ⟨32, 33, 3, 5, 3, 6⟩, "g", []⟩]⟩
  let chain : Node :=
    ⟨"call", true, none, ⟨28, 35, 3, 1, 3, 8⟩, "f().g()", [method, arguments 33 3 6]⟩
  ⟨"def f(): pass\ndef g(): pass\nf().g()\ng()\n".toUTF8,
    ⟨"module", true, none, ⟨0, 40, 1, 1, 5, 1⟩,
      "def f(): pass\ndef g(): pass\nf().g()\ng()\n",
      [function 0 1 "f", function 14 2 "g",
        ⟨"expression_statement", true, none, ⟨28, 35, 3, 1, 3, 8⟩, "f().g()", [chain]⟩,
        ⟨"expression_statement", true, none, ⟨36, 39, 4, 1, 4, 4⟩, "g()",
          [bareCall 36 4 none "g"]⟩]⟩⟩

/-- The directory of the chain is opened. -/
def chainSteps : List Step :=
  [⟨oneFile chainSource, .openAt ⟨"."⟩⟩]

theorem run_chainSteps : new.run chainSteps = atOneFile :=
  openAt_oneFile chainSource

theorem resolve_chainSteps : (new.run chainSteps).resolve ⟨"a.py"⟩ = .ok ⟨"/p/a.py"⟩ := by
  rw [run_chainSteps]
  exact resolve_atOneFile

theorem load_chainSteps :
    (new.run chainSteps).load (oneFile chainSource) ⟨"/p/a.py"⟩ =
      (some (LoadedFile.ofSource ⟨"/p/a.py"⟩ chainSource), holdingOneFile chainSource) := by
  rw [run_chainSteps]
  exact load_oneFile chainSource

/-- On the third line `f` is called first, by a bare name. -/
theorem exists_chained_call : ∃ call, IsRecordedAs chainSource.tree call ⟨"f", 3, 1, []⟩ := by
  have found : ∃ call, (Cursor.ofRoot chainSource.tree).descend? [2, 0, 0, 0] = some call ∧
      call.kind = "call" ∧ callSite? call = some ⟨"f", 3, 1, []⟩ :=
    ⟨_, rfl, rfl, rfl⟩
  rcases found with ⟨call, descends, isCall, recorded⟩
  exact ⟨call, Cursor.contains_of_descend? descends, isCall, recorded⟩

/-- On the fourth line only `g` is called. -/
theorem exists_lone_call : ∃ call, IsRecordedAs chainSource.tree call ⟨"g", 4, 1, []⟩ ∧
    ∀ other otherSite, IsRecordedAs chainSource.tree other otherSite →
      otherSite.covers ⟨4, 1⟩ = true → other = call := by
  have found : ∃ call, (Cursor.ofRoot chainSource.tree).descend? [3, 0] = some call ∧
      call.kind = "call" ∧ callSite? call = some ⟨"g", 4, 1, []⟩ ∧ call.address = [0, 3] :=
    ⟨_, rfl, rfl, rfl, rfl⟩
  have lone : ∀ other ∈ (Cursor.ofRoot chainSource.tree).descendantsOfKind "call",
      ∀ otherSite ∈ callSite? other, otherSite.covers ⟨4, 1⟩ = true → other.address = [0, 3] := by
    decide +kernel
  rcases found with ⟨call, descends, isCall, recorded, address⟩
  have inside := Cursor.contains_of_descend? descends
  refine ⟨call, ⟨inside, isCall, recorded⟩, ?_⟩
  intro other otherSite other_recorded covers
  refine other_recorded.inside.eq_of_address inside ?_
  rw [address]
  exact lone other
    (Cursor.mem_descendantsOfKind_iff.mpr ⟨other_recorded.inside, other_recorded.isCall⟩)
    otherSite other_recorded.recorded covers

/-- Alone on its line a call leads to its own definition, and in the chain to that of the call which
stands around it. -/
theorem definition_at_call_resolves_outermost_of_chainSource :
    let files := oneFile chainSource
    let own := LoadedFile.ofSource ⟨"/p/a.py"⟩ chainSource
    let after := holdingOneFile chainSource
    (new.run chainSteps).resolve ⟨"a.py"⟩ = .ok ⟨"/p/a.py"⟩ ∧
      (new.run chainSteps).load files ⟨"/p/a.py"⟩ = (some own, after) ∧
      (∃ call, IsRecordedAs chainSource.tree call ⟨"g", 4, 1, []⟩ ∧
        (new.run chainSteps).definition files ⟨⟨"a.py"⟩, ⟨4, 1⟩⟩ =
          (.ok (after.store.locationsNamed own "g"), after)) ∧
      chainSource.tree.LaidOut ∧ ArgumentsFollow chainSource.tree ∧
      ∃ call, IsRecordedAs chainSource.tree call ⟨"f", 3, 1, []⟩ ∧
        ∃ outer outerSite, IsOutermost chainSource.tree call outer outerSite ∧
          (new.run chainSteps).definition files ⟨⟨"a.py"⟩, ⟨3, 1⟩⟩ =
            (.ok (after.store.locationsNamed own (CallSite.lastSegment outerSite.callee)),
              after) := by
  intro files own after
  have laid : chainSource.tree.LaidOut := by decide +kernel
  have follow : ArgumentsFollow chainSource.tree := by decide +kernel
  rcases exists_lone_call with ⟨lone, lone_recorded, alone⟩
  rcases exists_chained_call with ⟨chained, chained_recorded⟩
  refine ⟨resolve_chainSteps, load_chainSteps, ⟨lone, lone_recorded, ?_⟩, laid, follow, chained,
    chained_recorded, ?_⟩
  · exact (definition_at_call_resolves_outermost chainSteps files resolve_chainSteps
      load_chainSteps lone_recorded).1 (by decide) alone
  · exact (definition_at_call_resolves_outermost chainSteps files resolve_chainSteps
      load_chainSteps chained_recorded).2 laid follow

/-- In `f().g()` the definition at the call of `f` is that of `g`. -/
theorem chained_call_leads_to_other_definition :
    let files := oneFile chainSource
    let own := LoadedFile.ofSource ⟨"/p/a.py"⟩ chainSource
    let after := holdingOneFile chainSource
    (∃ call, IsRecordedAs chainSource.tree call ⟨"f", 3, 1, []⟩) ∧ '.' ∉ "f".toList ∧
      (new.run chainSteps).load files ⟨"/p/a.py"⟩ = (some own, after) ∧
      (new.run chainSteps).definition files ⟨⟨"a.py"⟩, ⟨3, 1⟩⟩ =
        (.ok [⟨⟨"/p/a.py"⟩, 2, 1, some 2⟩], after) ∧
      after.store.locationsNamed own "f" = [⟨⟨"/p/a.py"⟩, 1, 1, some 1⟩] := by
  intro files own after
  have found : after.store.definition own ⟨3, 1⟩ = [⟨⟨"/p/a.py"⟩, 2, 1, some 2⟩] := by
    decide +kernel
  refine ⟨exists_chained_call, by decide, load_chainSteps, ?_, by decide +kernel⟩
  rw [definition, withFile_of_load resolve_chainSteps load_chainSteps, found]

end Session

end CodeFacts.Calls
