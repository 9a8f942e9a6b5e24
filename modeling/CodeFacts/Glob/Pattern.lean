/-!
# Glob patterns

The parts of a pattern are single characters, `?`, `*`, character classes, alternatives in braces
and `**` where it fills a whole component. A pattern is read from left to right, and the first
fault found is reported; that a brace was left open shows only at the end.
-/

namespace CodeFacts.Glob

/-- Why a text is not a pattern. -/
inductive PatternError where
  | unclosedClass
  | invalidRange (low high : Char)
  | unclosedAlternates
  | unopenedAlternates
  | danglingEscape
deriving DecidableEq, Repr, Inhabited

/-- The fault in words. -/
def PatternError.message : PatternError → String
  | unclosedClass => "unclosed character class; missing ']'"
  | invalidRange low high =>
    "invalid range; '" ++ low.toString ++ "' > '" ++ high.toString ++ "'"
  | unclosedAlternates =>
    "unclosed alternate group; missing '\x7d' (maybe escape '\x7b' with '[\x7b]'?)"
  | unopenedAlternates =>
    "unopened alternate group; missing '\x7b' (maybe escape '\x7d' with '[\x7d]'?)"
  | danglingEscape => "dangling '\\'"

/-- A part of a pattern. -/
inductive Token where
  | literal (char : Char)
  /-- Written `?`: any one byte. -/
  | any
  /-- Written `*`: any run of bytes. -/
  | zeroOrMore
  /-- Written `**/` at the start: nothing, a slash, or anything that ends in a slash. -/
  | leadingDirectories
  /-- Written `/**` at the end: a slash and anything. -/
  | trailingDirectories
  /-- Written `/**/` in the middle: a slash, or anything between two slashes. -/
  | innerDirectories
  | charClass (negated : Bool) (ranges : List (Char × Char))
  | alternates (branches : List (List Token))
deriving Inhabited

/-- A brace group that is still open: its finished branches, and the branch outside of it that
the group will continue, both with their parts in reverse. -/
structure OpenGroup where
  branches : List (List Token)
  outer : List Token
deriving Inhabited

/-- What has been read of a pattern: the current branch in reverse, the groups around it, and the
character read last. -/
structure ParserState where
  current : List Token
  groups : List OpenGroup
  previous : Option Char
deriving Inhabited

namespace ParserState

/-- Adds a part to the current branch. -/
def push (state : ParserState) (token : Token) (previous : Char) : ParserState :=
  { state with current := token :: state.current, previous := some previous }

/-- Opens a brace group. -/
def openGroup (state : ParserState) : ParserState :=
  ⟨[], ⟨[], state.current⟩ :: state.groups, some '\x7b'⟩

/-- Closes a brace group. -/
def closeGroup (state : ParserState) : Except PatternError ParserState :=
  match state.groups with
  | [] => .error .unopenedAlternates
  | group :: rest =>
    let branches := (state.current.reverse :: group.branches).reverse
    .ok ⟨.alternates branches :: group.outer, rest, some '\x7d'⟩

/-- A comma starts a new branch inside of braces and is a plain character elsewhere. -/
def comma (state : ParserState) : ParserState :=
  match state.groups with
  | [] => state.push (.literal ',') ','
  | group :: rest =>
    ⟨[], { group with branches := state.current.reverse :: group.branches } :: rest, some ','⟩

/-- Two stars that do not fill a component. -/
def twoStars (state : ParserState) : ParserState :=
  (state.push .zeroOrMore '*').push .zeroOrMore '*'

/-- Turns the slash before `**` into a recursive part, unless such a part stands there already. -/
def recurse (state : ParserState) (token : Token) (previous : Char) : ParserState :=
  match state.current with
  | .leadingDirectories :: _ => { state with previous := some previous }
  | .trailingDirectories :: _ => { state with previous := some previous }
  | _ :: earlier => { state with current := token :: earlier, previous := some previous }
  | [] => { state with current := [token], previous := some previous }

/-- Whether `**` may start a component here: after a slash, or inside of braces after the brace
or a comma. -/
def startsComponent (state : ParserState) : Bool :=
  state.previous == some '/' ||
    (!state.groups.isEmpty && (state.previous == some ',' || state.previous == some '\x7b'))

end ParserState

/-- Closes a range of a class with its upper end. -/
def closeRange (ranges : List (Char × Char)) (high : Char) :
    Except PatternError (List (Char × Char)) :=
  match ranges with
  | [] => .ok [(high, high)]
  | (low, _) :: rest =>
    if high < low then .error (.invalidRange low high) else .ok ((low, high) :: rest)

/-- Reads a class up to its bracket: the ranges, latest first, and the rest of the text. A bracket
or a dash at the start stands for itself, and so does a dash at the end. -/
def readClass (ranges : List (Char × Char)) (first inRange : Bool) :
    (text : List Char) →
      Except PatternError (List (Char × Char) × { rest : List Char // rest.length ≤ text.length })
  | [] => .error .unclosedClass
  | char :: text => do
    let continueWith (ranges : List (Char × Char)) (inRange : Bool) := do
      let (ranges, ⟨rest, shorter⟩) ← readClass ranges false inRange text
      pure (ranges, ⟨rest, Nat.le_succ_of_le shorter⟩)
    if char = ']' && !first then
      let ranges := if inRange then ('-', '-') :: ranges else ranges
      pure (ranges, ⟨text, Nat.le_succ _⟩)
    else if char = '-' && !first && !inRange then
      continueWith ranges true
    else if inRange then
      let ranges ← closeRange ranges char
      continueWith ranges false
    else
      continueWith ((char, char) :: ranges) false

/-- Reads a pattern from where the state stands. -/
def readPattern (state : ParserState) (text : List Char) : Except PatternError (List Token) :=
  match text with
  | [] => if state.groups.isEmpty then .ok state.current.reverse else .error .unclosedAlternates
  | '?' :: rest => readPattern (state.push .any '?') rest
  | '*' :: '*' :: rest =>
    match rest with
    | [] =>
      if state.current.isEmpty then readPattern (state.push .leadingDirectories '*') []
      else if state.startsComponent then readPattern (state.recurse .trailingDirectories '*') []
      else readPattern state.twoStars []
    | next :: after =>
      if state.current.isEmpty then
        if next = '/' then readPattern (state.push .leadingDirectories '/') after
        else readPattern state.twoStars (next :: after)
      else if !state.startsComponent then
        readPattern state.twoStars (next :: after)
      else if next = '/' then
        readPattern (state.recurse .innerDirectories '/') after
      else if (next = ',' || next = '\x7d') && !state.groups.isEmpty then
        readPattern (state.recurse .trailingDirectories '*') (next :: after)
      else
        readPattern state.twoStars (next :: after)
  | '*' :: rest => readPattern (state.push .zeroOrMore '*') rest
  | '[' :: rest =>
    match rest with
    | [] => .error .unclosedClass
    | mark :: after =>
      if mark = '!' || mark = '^' then
        match readClass [] true false after with
        | .error fault => .error fault
        | .ok (ranges, ⟨remaining, _⟩) =>
          readPattern (state.push (.charClass true ranges.reverse) ']') remaining
      else
        match readClass [] true false (mark :: after) with
        | .error fault => .error fault
        | .ok (ranges, ⟨remaining, _⟩) =>
          readPattern (state.push (.charClass false ranges.reverse) ']') remaining
  | '\x7b' :: rest => readPattern state.openGroup rest
  | '\x7d' :: rest =>
    match state.closeGroup with
    | .error fault => .error fault
    | .ok state => readPattern state rest
  | ',' :: rest => readPattern state.comma rest
  | '\\' :: rest =>
    match rest with
    | [] => .error .danglingEscape
    | char :: after => readPattern (state.push (.literal char) char) after
  | char :: rest => readPattern (state.push (.literal char) char) rest
termination_by text.length
decreasing_by
  all_goals simp_all
  all_goals omega

/-- The parts of a pattern. -/
def parse (pattern : String) : Except PatternError (List Token) :=
  readPattern ⟨[], [], none⟩ pattern.toList

end CodeFacts.Glob
