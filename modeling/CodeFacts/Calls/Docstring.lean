import CodeFacts.Text.Unicode
import CodeFacts.Tree.Cursor

/-!
# Docstrings

The docstring of a definition is the string statement that opens its body, comments aside. It is
read without its prefix letters, its quotes and the white space at its ends.
-/

namespace CodeFacts.Calls

/-- The letters that may stand before the quotes of a string. -/
def isLiteralMark (char : Char) : Bool :=
  "rRbBuUfF".toList.contains char

/-- The quotes of a string, longest first. -/
def quoteMarkers : List (List Char) :=
  [['"', '"', '"'], ['\'', '\'', '\''], ['"'], ['\'']]

/-- Whether a text starts and ends with a marker, the two not overlapping. -/
def isQuotedBy (text marker : List Char) : Bool :=
  decide (2 * marker.length ≤ text.length) && marker.isPrefixOf text && marker.isSuffixOf text

/-- What stands between the markers at the ends of a text. -/
def between (text marker : List Char) : List Char :=
  (text.drop marker.length).take (text.length - 2 * marker.length)

/-- The contents of a string literal, without white space at the ends. -/
def literalContents (literal : String) : String :=
  let text := literal.toList.dropWhile isLiteralMark
  let contents := match quoteMarkers.find? (isQuotedBy text) with
    | some marker => between text marker
    | none => text
  String.ofList (Text.trimBoth Text.isBlank contents)

/-- The docstring in a body. -/
def docstring? (body : Cursor) : Option String :=
  match body.namedChildren.find? fun statement => statement.kind != "comment" with
  | none => none
  | some first =>
    if first.kind == "expression_statement" then
      match first.namedChildren.head? with
      | none => none
      | some expression =>
        if expression.kind == "string" then some (literalContents expression.text) else none
    else
      none

end CodeFacts.Calls
