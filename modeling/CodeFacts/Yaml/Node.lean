import CodeFacts.Yaml.Reader
import CodeFacts.Yaml.Token
import CodeFacts.Yaml.Token.Scan

/-!
# Documents

A document is a tree of scalars, sequences and mappings. An alias stays in the tree as a reference
by number, since a node may hold an alias to itself.

An anchor is numbered by how many different names stand before it. A name that is used again gets a
new number without counting as a new name, so the next name may get the same number; of the nodes
with one number the last counts.
-/

namespace CodeFacts.Yaml

/-- A node of a document. -/
inductive Node where
  | scalar (anchor : Option Nat) (tag : Option String) (text : String) (style : ScalarStyle)
  | sequence (anchor : Option Nat) (items : List Node)
  | mapping (anchor : Option Nat) (entries : List (Node × Node))
  | alias (number : Nat)
deriving Repr, Inhabited

/-- The tokens that are left, and the numbers of the anchors so far. -/
structure Pending where
  tokens : List Token
  anchors : List (String × Nat)
  /-- What the tag handles stand for. -/
  handles : List (String × String)
deriving Repr, Inhabited

namespace Pending

/-- The next token. -/
def next (pending : Pending) : Token :=
  pending.tokens.headD .streamEnd

/-- Passes over a token. -/
def skip (pending : Pending) : Pending :=
  { pending with tokens := pending.tokens.drop 1 }

/-- Whether the next token is one of a list. -/
def isAt (pending : Pending) (tokens : List Token) : Bool :=
  tokens.contains pending.next

/-- Numbers an anchor. -/
def addAnchor (pending : Pending) (name : String) : Pending × Nat :=
  let number := pending.anchors.length
  let others := pending.anchors.filter (·.1 != name)
  ({ pending with anchors := (name, number) :: others }, number)

/-- The number of the anchor that an alias names. -/
def anchorNumber (pending : Pending) (name : String) : Except Fault Nat :=
  match pending.anchors.lookup name with
  | some number => .ok number
  | none => .error (.unknownAnchor name)

/-- A tag in full. -/
def expandTag (pending : Pending) (handle suffix : String) : Except Fault String :=
  if handle.isEmpty then .ok suffix
  else
    match pending.handles.lookup handle with
    | some expansion => .ok (expansion ++ suffix)
    | none => .error (.unexpected "a known tag handle")

end Pending

/-- The anchor and the tag before a node. -/
structure Properties where
  anchor : Option String
  tag : Option String
deriving DecidableEq, Repr, Inhabited

/-- Reads an anchor and a tag, in either order, each at most once. -/
def readProperties (pending : Pending) : Except Fault (Pending × Properties) :=
  match pending.tokens with
  | .anchor name :: .tag handle suffix :: rest => do
    return ({ pending with tokens := rest }, ⟨some name, some (← pending.expandTag handle suffix)⟩)
  | .tag handle suffix :: .anchor name :: rest => do
    return ({ pending with tokens := rest }, ⟨some name, some (← pending.expandTag handle suffix)⟩)
  | .anchor name :: rest => .ok ({ pending with tokens := rest }, ⟨some name, none⟩)
  | .tag handle suffix :: rest => do
    return ({ pending with tokens := rest }, ⟨none, some (← pending.expandTag handle suffix)⟩)
  | _ => .ok (pending, ⟨none, none⟩)

/-- An empty plain scalar, which stands where a node is left out. -/
def Node.absent : Node :=
  .scalar none none "" .plain

/-- That a token does not fit. -/
def misplaced : Fault :=
  .unexpected "another token"

mutual

/-- Reads a node. Block collections may be read only outside of flow collections, and sequences
without an indentation of their own only in a block mapping. -/
def readNode (block indentless : Bool) : Nat → Pending → Except Fault (Pending × Node)
  | 0, _ => .error misplaced
  | fuel + 1, pending =>
    match pending.next with
    | .alias name => do
      return (pending.skip, .alias (← pending.anchorNumber name))
    | _ => do
      let (pending, properties) ← readProperties pending
      let (pending, anchor) := match properties.anchor with
        | some name => (pending.addAnchor name).map id some
        | none => (pending, none)
      match pending.next with
      | .scalar text style => return (pending.skip, .scalar anchor properties.tag text style)
      | .flowSequenceStart =>
        let (pending, items) ← readFlowItems true fuel pending.skip
        return (pending, .sequence anchor items)
      | .flowMappingStart =>
        let (pending, entries) ← readFlowEntries true fuel pending.skip
        return (pending, .mapping anchor entries)
      | .blockEntry =>
        if indentless then
          let (pending, items) ← readIndentlessItems fuel pending
          return (pending, .sequence anchor items)
        else if properties.anchor.isSome || properties.tag.isSome then
          return (pending, .scalar anchor properties.tag "" .plain)
        else throw misplaced
      | .blockSequenceStart =>
        if block then
          let (pending, items) ← readBlockItems fuel pending.skip
          return (pending, .sequence anchor items)
        else throw misplaced
      | .blockMappingStart =>
        if block then
          let (pending, entries) ← readBlockEntries fuel pending.skip
          return (pending, .mapping anchor entries)
        else throw misplaced
      | _ =>
        if properties.anchor.isSome || properties.tag.isSome then
          return (pending, .scalar anchor properties.tag "" .plain)
        else throw misplaced

/-- Reads a node, or none if one of some tokens comes next. -/
def readNodeUnless (stops : List Token) (block indentless : Bool) :
    Nat → Pending → Except Fault (Pending × Node)
  | 0, _ => .error misplaced
  | fuel + 1, pending =>
    if pending.isAt stops then .ok (pending, .absent) else readNode block indentless fuel pending

/-- Reads the items of a block sequence and its end. -/
def readBlockItems : Nat → Pending → Except Fault (Pending × List Node)
  | 0, _ => .error misplaced
  | fuel + 1, pending =>
    match pending.next with
    | .blockEntry => do
      let (pending, item) ← readNodeUnless [.blockEntry, .blockEnd] true false fuel pending.skip
      let (pending, items) ← readBlockItems fuel pending
      return (pending, item :: items)
    | .blockEnd => .ok (pending.skip, [])
    | _ => .error misplaced

/-- Reads the items of a sequence at the indentation of the mapping around it. -/
def readIndentlessItems : Nat → Pending → Except Fault (Pending × List Node)
  | 0, _ => .error misplaced
  | fuel + 1, pending =>
    match pending.next with
    | .blockEntry => do
      let (pending, item) ←
        readNodeUnless [.blockEntry, .key, .value, .blockEnd] true false fuel pending.skip
      let (pending, items) ← readIndentlessItems fuel pending
      return (pending, item :: items)
    | _ => .ok (pending, [])

/-- Reads the entries of a block mapping and its end. -/
def readBlockEntries : Nat → Pending → Except Fault (Pending × List (Node × Node))
  | 0, _ => .error misplaced
  | fuel + 1, pending =>
    match pending.next with
    | .key => do
      let (pending, key) ← readNodeUnless [.key, .value, .blockEnd] true true fuel pending.skip
      let (pending, value) ←
        if pending.isAt [.value] then
          readNodeUnless [.key, .value, .blockEnd] true true fuel pending.skip
        else .ok (pending, .absent)
      let (pending, entries) ← readBlockEntries fuel pending
      return (pending, (key, value) :: entries)
    | .blockEnd => .ok (pending.skip, [])
    | _ => .error misplaced

/-- Reads the value of a key within a flow collection, up to a comma or the end. -/
def readFlowValue (close : Token) : Nat → Pending → Except Fault (Pending × Node)
  | 0, _ => .error misplaced
  | fuel + 1, pending =>
    if pending.isAt [.value] then
      readNodeUnless [.flowEntry, close] false false fuel pending.skip
    else .ok (pending, .absent)

/-- Reads the items of a flow sequence and its end. A single pair is an item too. A pair whose key
is left out loses the token that shows it. -/
def readFlowItems (first : Bool) : Nat → Pending → Except Fault (Pending × List Node)
  | 0, _ => .error misplaced
  | fuel + 1, pending =>
    if pending.isAt [.flowSequenceEnd] then .ok (pending.skip, [])
    else if !first && !pending.isAt [.flowEntry] then .error misplaced
    else do
      let pending := if first then pending else pending.skip
      if pending.isAt [.flowSequenceEnd] then return (pending.skip, [])
      let (pending, item) ←
        if pending.isAt [.key] then do
          let pending := pending.skip
          let (pending, key) ←
            if pending.isAt [.value, .flowEntry, .flowSequenceEnd] then
              pure (pending.skip, Node.absent)
            else readNode false false fuel pending
          let (pending, value) ← readFlowValue .flowSequenceEnd fuel pending
          pure (pending, Node.mapping none [(key, value)])
        else readNode false false fuel pending
      let (pending, items) ← readFlowItems false fuel pending
      return (pending, item :: items)

/-- Reads the entries of a flow mapping and its end. -/
def readFlowEntries (first : Bool) : Nat → Pending → Except Fault (Pending × List (Node × Node))
  | 0, _ => .error misplaced
  | fuel + 1, pending =>
    if pending.isAt [.flowMappingEnd] then .ok (pending.skip, [])
    else if !first && !pending.isAt [.flowEntry] then .error misplaced
    else do
      let pending := if first then pending else pending.skip
      if pending.isAt [.flowMappingEnd] then return (pending.skip, [])
      let (pending, key, value) ←
        if pending.isAt [.key] then do
          let (pending, key) ←
            readNodeUnless [.value, .flowEntry, .flowMappingEnd] false false fuel pending.skip
          let (pending, value) ← readFlowValue .flowMappingEnd fuel pending
          pure (pending, key, value)
        else do
          let (pending, key) ← readNode false false fuel pending
          pure (pending, key, Node.absent)
      let (pending, entries) ← readFlowEntries false fuel pending
      return (pending, (key, value) :: entries)

end

/-- The tag handles that need no directive. -/
def standardHandles : List (String × String) :=
  [("!", "!"), ("!!", "tag:yaml.org,2002:")]

/-- Reads the directives before a document: at most one version, which has to be 1.1 or 1.2, and
tag handles that differ. -/
def readDirectives (versionSeen : Bool) (handles : List (String × String)) :
    List Token → Except Fault (List Token × List (String × String))
  | .versionDirective major minor :: rest =>
    if versionSeen || major != 1 || !(minor == 1 || minor == 2) then .error misplaced
    else readDirectives true handles rest
  | .tagDirective handle expansion :: rest =>
    if handles.any (·.1 == handle) then .error misplaced
    else readDirectives versionSeen (handles ++ [(handle, expansion)]) rest
  | rest => .ok (rest, handles ++ standardHandles)

/-- Reads the document of a text from its tokens. A text without a document is an absent node. -/
def readDocument (tokens : List Token) : Except Fault Node := do
  let fuel := 4 * tokens.length + 8
  let (pending, root) ←
    match tokens with
    | .streamEnd :: _ => pure (Pending.mk tokens [] [], Node.absent)
    | .versionDirective _ _ :: _ | .tagDirective _ _ :: _ | .documentStart :: _ => do
      let (rest, handles) ← readDirectives false [] tokens
      match rest with
      | .documentStart :: rest =>
        match rest with
        | .versionDirective _ _ :: _ | .tagDirective _ _ :: _ | .documentStart :: _
        | .documentEnd :: _ | .streamEnd :: _ => pure (Pending.mk rest [] handles, Node.absent)
        | _ => readNode true false fuel ⟨rest, [], handles⟩
      | _ => throw misplaced
    | _ => readNode true false fuel ⟨tokens, [], standardHandles⟩
  match pending.tokens.dropWhile (· == .documentEnd) with
  | .streamEnd :: _ => return root
  | .documentStart :: _ | .versionDirective _ _ :: _ | .tagDirective _ _ :: _ =>
    throw .severalDocuments
  | _ => throw misplaced

mutual

/-- The nodes of a tree that have an anchor, each with its number, in the order of the text. -/
def Node.anchored : Node → List (Nat × Node)
  | .scalar anchor tag text style =>
    (anchor.map fun number => (number, Node.scalar anchor tag text style)).toList
  | .sequence anchor items =>
    (anchor.map fun number => (number, Node.sequence anchor items)).toList ++ anchoredItems items
  | .mapping anchor entries =>
    (anchor.map fun number => (number, Node.mapping anchor entries)).toList ++
      anchoredEntries entries
  | .alias _ => []

/-- The nodes with an anchor of a list of items. -/
def Node.anchoredItems : List Node → List (Nat × Node)
  | [] => []
  | item :: items => item.anchored ++ Node.anchoredItems items

/-- The nodes with an anchor of a list of entries. -/
def Node.anchoredEntries : List (Node × Node) → List (Nat × Node)
  | [] => []
  | (key, value) :: entries => key.anchored ++ value.anchored ++ Node.anchoredEntries entries

end

/-- A document: its root, and the nodes that an alias may stand for. -/
structure Document where
  root : Node
  anchored : List (Nat × Node)
deriving Repr, Inhabited

namespace Document

/-- The document of a text. -/
def ofString (text : String) : Except Fault Document := do
  let root ← readDocument (← tokens text)
  return ⟨root, root.anchored⟩

/-- The node that an alias stands for, or the node itself. -/
def resolve (document : Document) (node : Node) : Node :=
  match node with
  | .alias number => (document.anchored.reverse.lookup number).getD Node.absent
  | other => other

end Document

end CodeFacts.Yaml
