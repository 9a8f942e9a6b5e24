import CodeFacts.Calls.CallSite
import CodeFacts.Proofs.Tree.DocumentOrder

/-!
# Recorded calls and their arguments

Every call of a dotted name, or of a name that is no built-in function, is recorded once, in
document order and at the place where it starts. Its arguments are read off the named children of
the list of arguments. Comments are named children too, so a comment in the list is recorded as an
argument; a list without comments gives the arguments of the call, each in full or cut to its first
characters.
-/

namespace CodeFacts.Calls

/-- A call node calls a dotted name, or a name that is no built-in function. -/
inductive CallsName (call callee : Cursor) : Prop
  | dotted : call.childByField? "function" = some callee → callee.kind = "attribute" →
      CallsName call callee
  | bare : call.childByField? "function" = some callee → callee.kind = "identifier" →
      callee.text ∉ builtins → CallsName call callee

/-- A text of up to 50 characters is shown in full, a longer one by its first 50 characters and
three dots. -/
structure IsShownAs (text shown : String) : Prop where
  short : text.length ≤ 50 → shown = text
  long : 50 < text.length → ∃ kept rest, text = kept ++ rest ∧ kept.length = 50 ∧
    shown = kept ++ "..."

/-- The texts of nodes are shown one after the other. -/
def ShowTexts (nodes : List Cursor) (shown : List String) : Prop :=
  List.Forall₂ (fun node text => IsShownAs node.text text) nodes shown

/-- The arguments in a list of arguments. -/
def realArguments (list : Cursor) : List Cursor :=
  list.namedChildren.filter fun child => child.kind != "comment"

/-- A record tells what a call calls, where it starts and what stands in its list of arguments. It
shows the arguments themselves exactly if there is no comment in the list. -/
structure RecordsCall (call : Cursor) (site : CallSite) : Prop where
  callee : ∃ callee, CallsName call callee ∧ site.callee = callee.text
  position : site.line = call.span.startLine ∧ site.column = call.span.startColumn
  withoutList : call.childByField? "arguments" = none → site.arguments = []
  parts : ∀ list, call.childByField? "arguments" = some list →
    ShowTexts list.namedChildren site.arguments
  real : ∀ list, call.childByField? "arguments" = some list → list.kind = "argument_list" →
    (ShowTexts (realArguments list) site.arguments ↔
      ∀ child ∈ list.namedChildren, child.kind ≠ "comment")

theorem isShownAs_truncateArgument (text : String) : IsShownAs text (truncateArgument text) := by
  constructor
  · intro short
    simp [truncateArgument, maxArgumentLength, short]
  · intro long
    have characters : text.toList.length = text.length := String.length_toList
    have longer : ¬text.length ≤ 50 := by omega
    refine ⟨String.ofList (text.toList.take 50), String.ofList (text.toList.drop 50), ?_, ?_, ?_⟩
    · simp [← String.ofList_append]
    · simp
      omega
    · simp [truncateArgument, maxArgumentLength, longer]

theorem showTexts_truncateArgument (nodes : List Cursor) :
    ShowTexts nodes (nodes.map fun node => truncateArgument node.text) := by
  simp only [ShowTexts, List.forall₂_map_right_iff, List.forall₂_same]
  intro node _
  exact isShownAs_truncateArgument node.text

theorem callee?_eq_some_iff {call : Cursor} {text : String} :
    callee? call = some text ↔ ∃ callee, CallsName call callee ∧ text = callee.text := by
  constructor
  · intro found
    unfold callee? at found
    split at found
    · simp at found
    · rename_i callee calls
      split at found
      · rename_i kind
        split at found
        · simp at found
        · rename_i unknown
          exact ⟨callee, .bare calls kind (by simpa using unknown), (Option.some.inj found).symm⟩
      · rename_i kind
        exact ⟨callee, .dotted calls kind, (Option.some.inj found).symm⟩
      · simp at found
  · rintro ⟨callee, named, rfl⟩
    cases named with
    | dotted calls kind => simp [callee?, calls, kind]
    | bare calls kind unknown => simp [callee?, calls, kind, unknown]

/-- What a partial function gives on a list belongs to the elements on which it gives something. -/
theorem forall₂_filterMap {α β : Type} (view : α → Option β) (elements : List α) :
    List.Forall₂ (fun element result => view element = some result)
      (elements.filter fun element => (view element).isSome) (elements.filterMap view) := by
  induction elements with
  | nil => simp
  | cons head rest ih =>
      cases seen : view head with
      | none => simpa [seen] using ih
      | some result => simpa [seen] using ih

/-- The arguments of a list and all that is named in it are the same unless there are comments. -/
theorem showTexts_realArguments_iff {list : Cursor} {shown : List String}
    (shows : ShowTexts list.namedChildren shown) :
    ShowTexts (realArguments list) shown ↔
      ∀ child ∈ list.namedChildren, child.kind ≠ "comment" := by
  constructor
  · intro real
    have length : (realArguments list).length = list.namedChildren.length :=
      real.length_eq.trans shows.length_eq.symm
    simpa [realArguments] using List.length_filter_eq_length_iff.mp length
  · intro uncommented
    have all : realArguments list = list.namedChildren :=
      List.filter_eq_self.mpr (by simpa using uncommented)
    rwa [all]

theorem recordsCall_of_callSite? {call : Cursor} {site : CallSite}
    (recorded : callSite? call = some site) : RecordsCall call site := by
  rcases Option.map_eq_some_iff.mp recorded with ⟨text, named, rfl⟩
  have parts : ∀ list, call.childByField? "arguments" = some list →
      ShowTexts list.namedChildren (argumentsOf call) := by
    intro list listed
    simpa [argumentsOf, listed] using showTexts_truncateArgument list.namedChildren
  refine ⟨callee?_eq_some_iff.mp named, ⟨rfl, rfl⟩, ?_, parts, ?_⟩
  · intro missing
    simp [argumentsOf, missing]
  · intro list listed _
    exact showTexts_realArguments_iff (parts list listed)

theorem isSome_callSite?_iff {call : Cursor} :
    (callSite? call).isSome = true ↔ ∃ callee, CallsName call callee := by
  simp only [callSite?, Option.isSome_map, Option.isSome_iff_exists, callee?_eq_some_iff]
  constructor
  · rintro ⟨_, callee, named, -⟩
    exact ⟨callee, named⟩
  · rintro ⟨callee, named⟩
    exact ⟨callee.text, callee, named, rfl⟩

/-- There is one record for each call of a dotted name, or of a name that is no built-in function,
in document order. Its arguments are those of the call exactly if its list of arguments has no
comment in it. -/
theorem callsOf_record_each_call (tree : Node) :
    ∃ calls : List Cursor, calls.Sublist ((Cursor.ofRoot tree).preorder fun _ => true) ∧
      calls.Nodup ∧
      (∀ call, call ∈ calls ↔ (Cursor.ofRoot tree).Contains call ∧ call.kind = "call" ∧
        ∃ callee, CallsName call callee) ∧
      List.Forall₂ RecordsCall calls (callsOf tree) := by
  let found := (Cursor.ofRoot tree).descendantsOfKind "call"
  have visited : found.Sublist ((Cursor.ofRoot tree).preorder fun _ => true) := by
    rw [← Cursor.walk_eq_preorder]
    exact List.filter_sublist
  let recorded := found.filter fun call => (callSite? call).isSome
  have ordered : recorded.Sublist ((Cursor.ofRoot tree).preorder fun _ => true) :=
    List.filter_sublist.trans visited
  refine ⟨recorded, ordered, ?_, ?_, ?_⟩
  · have distinct := (Cursor.not_contains_of_later (fun _ => true) (Cursor.ofRoot tree)).sublist
      ordered
    apply distinct.imp
    rintro first second outside rfl
    exact outside (Cursor.contains_self first)
  · intro call
    simp only [recorded, found, List.mem_filter, Cursor.mem_descendantsOfKind_iff,
      isSome_callSite?_iff, and_assoc]
  · apply (forall₂_filterMap callSite? found).imp
    intro call site
    exact recordsCall_of_callSite?

/-- The call `f(a, b)` on five lines, the first argument under a comment. -/
def commentedCall : Node :=
  let name (byte line column : Nat) (field : Option String) (text : String) : Node :=
    ⟨"identifier", true, field, ⟨byte, byte + 1, line, column, line, column + 1⟩, text, []⟩
  let sign (byte line column : Nat) (text : String) : Node :=
    ⟨text, false, none, ⟨byte, byte + 1, line, column, line, column + 1⟩, text, []⟩
  ⟨"call", true, none, ⟨0, 25, 1, 1, 5, 2⟩, "f(\n  # comment\n  a,\n  b\n)",
    [name 0 1 1 (some "function") "f",
      ⟨"argument_list", true, some "arguments", ⟨1, 25, 1, 2, 5, 2⟩,
        "(\n  # comment\n  a,\n  b\n)",
        [sign 1 1 2 "(", ⟨"comment", true, none, ⟨5, 14, 2, 3, 2, 12⟩, "# comment", []⟩,
          name 17 3 3 none "a", sign 18 3 4 ",", name 22 4 3 none "b", sign 24 5 1 ")"]⟩]⟩

/-- The tree of a file with only this call. -/
def commentedCallTree : Node :=
  ⟨"module", true, none, ⟨0, 26, 1, 1, 6, 1⟩, "f(\n  # comment\n  a,\n  b\n)\n",
    [⟨"expression_statement", true, none, ⟨0, 25, 1, 1, 5, 2⟩, "f(\n  # comment\n  a,\n  b\n)",
      [commentedCall]⟩]⟩

/-- A comment in a list of arguments is recorded as an argument. -/
theorem comment_recorded_as_argument :
    ∃ call list, (Cursor.ofRoot commentedCallTree).Contains call ∧ call.kind = "call" ∧
      call.childByField? "arguments" = some list ∧ list.kind = "argument_list" ∧
      (realArguments list).map Cursor.text = ["a", "b"] ∧
      callsOf commentedCallTree = [⟨"f", 1, 1, ["# comment", "a", "b"]⟩] := by
  have found : ∃ call, (Cursor.ofRoot commentedCallTree).descend? [0, 0] = some call ∧
      call.kind = "call" ∧ ∃ list, call.childByField? "arguments" = some list ∧
        list.kind = "argument_list" ∧ (realArguments list).map Cursor.text = ["a", "b"] :=
    ⟨_, rfl, rfl, _, rfl, rfl, by decide⟩
  rcases found with ⟨call, descends, isCall, list, listed, isList, real⟩
  exact ⟨call, list, Cursor.contains_of_descend? descends, isCall, listed, isList, real,
    by decide +kernel⟩

end CodeFacts.Calls
