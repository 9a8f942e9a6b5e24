import CodeFacts.Calls.Lookup
import CodeFacts.Imports.Check
import CodeFacts.Path.Relative
import CodeFacts.Report.Record
import CodeFacts.Report.Style
import CodeFacts.Unused.Report

/-!
# Results as pages

What a check or a question found, laid out in lines for a reader. Every page starts with the
command and its target, and ends with an empty line.
-/

namespace CodeFacts.Report

/-- The text of a list of lines. -/
def ofLines (lines : List String) : String :=
  "".intercalate (lines.map (· ++ "\n"))

/-- The head of a page. -/
def header (terminal : Terminal) (command target : String) : List String :=
  ["", "  " ++ terminal.strongTint .cyan "codelens" ++ " v" ++ version ++ "  " ++
    terminal.dim command, "", "  " ++ terminal.dim "Target: " ++ target, ""]

/-- The lines of a check that could not be carried out. -/
def failureLines (terminal : Terminal) (summary : String) : List String :=
  ["  " ++ terminal.strongTint .red "ERROR" ++ "  " ++ summary, ""]

/-- The lines that say whether a check found anything. -/
def statusLines (terminal : Terminal) (clean : Bool) (summary : String) : List String :=
  let mark := if clean then terminal.tint .green "✓" else terminal.tint .red "✗"
  ["  " ++ mark ++ "  " ++ summary, ""]

/-- The line of a cycle with its number. -/
def cycleLine (terminal : Terminal) (number : Nat) (issue : Imports.CycleIssue) : String :=
  "    " ++ terminal.dim ("#" ++ padEnd 3 (toString number)) ++ " " ++
    terminal.tint .yellow issue.summary ++ "  " ++ terminal.dim s!"({issue.length} files)"

/-- The lines of numbered cycles, the first number given. -/
def cycleLines (terminal : Terminal) : Nat → List Imports.CycleIssue → List String
  | _, [] => []
  | number, issue :: issues =>
    cycleLine terminal number issue :: cycleLines terminal (number + 1) issues

/-- The page of a check for cycles. -/
def cyclePage (terminal : Terminal) (target : String) (report : Imports.CycleReport) : String :=
  ofLines (header terminal "circular" target ++
    if report.success then
      statusLines terminal report.issues.isEmpty report.summary ++
        cycleLines terminal 1 report.issues ++ (if report.issues.isEmpty then [] else [""])
    else failureLines terminal report.summary)

/-- The mark of a kind of unused symbols. -/
def kindMark (terminal : Terminal) : Unused.IssueKind → String
  | .unusedParameter => terminal.tint .yellow "PARAM "
  | .unusedLocalVariable => terminal.tint .yellow "LOCAL "
  | .unusedPrivateField => terminal.tint .magenta "FIELD "

/-- The lines of an unused symbol. -/
def issueLines (terminal : Terminal) (base : Path) (issue : Unused.Issue) : List String :=
  ["    " ++ kindMark terminal issue.kind ++ " " ++
    terminal.tint .blue (Path.displayIn base ⟨issue.file⟩) ++ terminal.dim s!":{issue.line}",
    "            " ++ issue.message]

/-- The lines that count the unused symbols of each kind; kinds without any are left out. -/
def breakdownLines (terminal : Terminal) (counts : List (Unused.IssueKind × Nat)) : List String :=
  ("  " ++ terminal.strong "Breakdown:") ::
    ((counts.filter fun (_, count) => 0 < count).map fun (kind, count) =>
      "    " ++ padEnd 24 kind.id ++ " " ++ padStart 4 (toString count)) ++ [""]

/-- The page of a check for unused symbols. Files are shown relative to a base. -/
def unusedPage (terminal : Terminal) (target : String) (base : Path) (report : Unused.Report) :
    String :=
  ofLines (header terminal "dead-code" target ++
    if report.success then
      statusLines terminal report.issues.isEmpty report.summary ++
        if report.issues.isEmpty then []
        else report.issues.flatMap (issueLines terminal base) ++ [""] ++
          breakdownLines terminal report.counts
    else failureLines terminal report.summary)

/-- The lines of a symbol of a file; what a class contains is indented. -/
def symbolLines (terminal : Terminal) (symbol : Calls.FileSymbol) : List String :=
  let indent := if symbol.container.isSome then "      " else "    "
  let name :=
    if symbol.exported then terminal.strong symbol.qualifiedName else symbol.qualifiedName
  (indent ++ terminal.dim (padEnd 9 symbol.kind.id) ++ name ++ "  " ++
    terminal.dim s!":{symbol.location.line}") ::
    (symbol.detail.map fun detail => indent ++ "    " ++ terminal.dim detail).toList

/-- The page of the symbols of a file. -/
def symbolsPage (terminal : Terminal) (target : String) (symbols : List Calls.FileSymbol) :
    String :=
  ofLines (header terminal "symbols" target ++
    if symbols.isEmpty then ["  " ++ terminal.dim "No symbols found", ""]
    else symbols.flatMap (symbolLines terminal) ++ [""])

/-- A location relative to a base. -/
def locationText (base : Path) (location : Calls.SourceLocation) : String :=
  s!"{Path.displayIn base location.file}:{location.line}:{location.column}"

/-- The lines of the places of calls. -/
def rangeLines (terminal : Terminal) (ranges : List Calls.Position) : List String :=
  ranges.map fun range => "        " ++ terminal.dim ("call at " ++ range.label)

/-- The lines of a caller. -/
def incomingLines (terminal : Terminal) (base : Path) (call : Calls.IncomingCall) : List String :=
  ("    " ++ terminal.tint .cyan call.caller.qualifiedName ++ "  " ++
    terminal.tint .blue (locationText base call.caller.location)) :: rangeLines terminal call.ranges

/-- The lines of a callee. -/
def outgoingLines (terminal : Terminal) (base : Path) (call : Calls.OutgoingCall) : List String :=
  let place := match call.target with
    | some target => "  → " ++ terminal.tint .blue (locationText base target.location)
    | none => "  " ++ terminal.dim "(unresolved)"
  ("    " ++ terminal.tint .cyan call.callee ++ place) :: rangeLines terminal call.ranges

/-- The lines of the results of a question about calls. -/
def answerLines (terminal : Terminal) (base : Path) : Calls.Answer → List String
  | .incoming calls => calls.flatMap (incomingLines terminal base)
  | .outgoing calls => calls.flatMap (outgoingLines terminal base)
  | .references locations | .definition locations =>
    locations.map fun location => "    " ++ terminal.tint .blue (locationText base location)

/-- The title above the results for a direction. -/
def directionTitle : Calls.Direction → String
  | .incoming => "Callers"
  | .outgoing => "Callees"
  | .references => "References"
  | .definition => "Definitions"

/-- The page of the answer to a question about calls. -/
def answerPage (terminal : Terminal) (target : String) (base : Path) (answer : Calls.Answer) :
    String :=
  ofLines (header terminal "calls" target ++
    if answer.size == 0 then ["  " ++ terminal.dim "No results", ""]
    else
      ("  " ++ terminal.strong (directionTitle answer.direction) ++ s!" ({answer.size}):") ::
        answerLines terminal base answer ++ [""])

end CodeFacts.Report
