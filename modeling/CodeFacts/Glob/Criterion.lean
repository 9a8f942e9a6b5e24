import CodeFacts.Glob.Pattern

/-!
# What patterns go by

Most patterns need not be held against the whole path: plain characters are compared with its text,
and a name or an extension with the name of the file. The shape of a pattern decides what it goes
by. This matters in two ways: only a path with a file name can match by that name, and only what
goes by the whole path has to be compiled.
-/

namespace CodeFacts.Glob

/-- The characters of a pattern if all its parts are plain. -/
def literalText? : List Token → Option (List Char)
  | [] => some []
  | .literal char :: rest => (literalText? rest).map (char :: ·)
  | _ :: _ => none

/-- The characters at the end of a pattern from its last dot on, if they are all plain and none
is a slash. -/
def finalExtension? (tokens : List Token) : Option (List Char) :=
  let rec collect (found : List Char) : List Token → Option (List Char)
    | .literal char :: rest =>
      if char = '/' then none
      else if char = '.' then some (char :: found)
      else collect (char :: found) rest
    | _ => none
  collect [] tokens.reverse

/-- What a pattern goes by when it is matched. -/
inductive Criterion where
  /-- The text of the path, of its start or of its end. -/
  | text
  /-- The name of the file or its extension. -/
  | fileName
  /-- The extension of the file first, and then the whole path. -/
  | extension
  /-- The whole path. -/
  | path
deriving DecidableEq, Repr, Inhabited

namespace Criterion

/-- Whether a file name is asked for, which a path that ends in `..` does not have. -/
def needsFileName : Criterion → Bool
  | text => false
  | fileName => true
  | extension => true
  | path => false

/-- Whether the characters after a star are an extension. -/
def isExtension (text : List Char) : Bool :=
  text.head? == some '.' && !(text.drop 1).contains '.' && !text.contains '/'

/-- Whether plain characters come before the one star, or the one `/**`, that ends a pattern. -/
def isPlainStart (tokens : List Token) : Bool :=
  match tokens.getLast? with
  | some .zeroOrMore => (literalText? tokens.dropLast).any fun text => !text.isEmpty
  | some .trailingDirectories => (literalText? tokens.dropLast).isSome
  | _ => false

/-- What a pattern goes by if it is neither plain nor a star before plain characters. -/
def ofMixed (tokens : List Token) : Criterion :=
  if isPlainStart tokens then text
  else if (finalExtension? tokens).isSome then extension
  else path

/-- What the parts after a leading `**/`, or all parts of a pattern without one, go by. -/
def ofRest (tokens rest : List Token) (plain : List Char → Criterion) : Criterion :=
  match literalText? rest with
  | some characters => if characters.isEmpty then path else plain characters
  | none =>
    match rest with
    | .zeroOrMore :: tail =>
      match literalText? tail with
      | some characters =>
        if isExtension characters then fileName
        else if characters.isEmpty || characters == ['/'] then path
        else text
      | none => ofMixed tokens
    | _ => ofMixed tokens

/-- What a pattern goes by: `**/name` by the name of the file, a star before an extension by the
extension, and plain characters with a star before or behind them by the text of the path. -/
def ofTokens (tokens : List Token) : Criterion :=
  match tokens with
  | .leadingDirectories :: rest =>
    ofRest tokens rest fun characters => if characters.contains '/' then text else fileName
  | _ => ofRest tokens tokens fun _ => text

end Criterion

end CodeFacts.Glob
