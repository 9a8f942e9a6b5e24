import CodeFacts.Calls.Lookup
import CodeFacts.Imports.Check
import CodeFacts.Report.Json
import CodeFacts.Unused.Report

/-!
# Results as records

What a check or a question found, as a value that can be written as JSON, and the record around it
that says which command was run on what.
-/

namespace CodeFacts.Report

/-- The version that reports show. -/
def version : String := "0.1.0"

/-- The record around a result. -/
def envelope (command target : String) (result : Json) : Json :=
  .record [("version", .text version), ("command", .text command), ("path", .text target),
    ("result", result)]

/-- The record of a cycle. -/
def cycleIssueRecord (issue : Imports.CycleIssue) : Json :=
  .record [("files", .texts issue.files), ("summary", .text issue.summary),
    ("length", .number issue.length)]

/-- The record of a check for cycles. -/
def cycleReportRecord (report : Imports.CycleReport) : Json :=
  .record ([("success", .bool report.success),
    ("issues", .list (report.issues.map cycleIssueRecord)), ("summary", .text report.summary),
    ("files_analyzed", .number report.filesAnalyzed)] ++
    Json.optionalField "error" (report.error.map Json.text))

/-- The record of an unused symbol. -/
def issueRecord (issue : Unused.Issue) : Json :=
  .record ([("kind", .text issue.kind.id), ("file", .text issue.file),
    ("line", .number issue.line), ("symbol_name", .text issue.symbolName)] ++
    Json.optionalField "class_name" (issue.className.map Json.text))

/-- The record of a check for unused symbols. -/
def unusedReportRecord (report : Unused.Report) : Json :=
  .record ([("success", .bool report.success),
    ("issues", .list (report.issues.map issueRecord)),
    ("files_analyzed", .number report.filesAnalyzed), ("summary", .text report.summary)] ++
    Json.optionalField "error" (report.error.map Json.text))

/-- The record of a position. -/
def positionRecord (position : Calls.Position) : Json :=
  .record [("line", .number position.line), ("column", .number position.column)]

/-- The record of a location. -/
def locationRecord (location : Calls.SourceLocation) : Json :=
  .record ([("file", .text location.file.text), ("line", .number location.line),
    ("column", .number location.column)] ++
    Json.optionalField "end_line" (location.endLine.map Json.number))

/-- The record of an item of a call hierarchy. -/
def itemRecord (item : Calls.Item) : Json :=
  .record ([("name", .text item.name), ("qualified_name", .text item.qualifiedName),
    ("kind", .text item.kind.id), ("file", .text item.file.text), ("line", .number item.line),
    ("column", .number item.column)] ++
    Json.optionalField "end_line" (item.endLine.map Json.number) ++
    Json.optionalField "detail" (item.detail.map Json.text))

/-- The record of a symbol of a file. -/
def symbolRecord (symbol : Calls.FileSymbol) : Json :=
  .record ([("name", .text symbol.name), ("qualified_name", .text symbol.qualifiedName),
    ("kind", .text symbol.kind.id), ("location", locationRecord symbol.location)] ++
    Json.optionalField "container" (symbol.container.map Json.text) ++
    [("exported", .bool symbol.exported)] ++
    Json.optionalField "detail" (symbol.detail.map Json.text))

/-- The record of a caller. -/
def incomingRecord (call : Calls.IncomingCall) : Json :=
  .record [("from", itemRecord call.caller),
    ("from_ranges", .list (call.ranges.map positionRecord))]

/-- The record of a callee. -/
def outgoingRecord (call : Calls.OutgoingCall) : Json :=
  .record [("callee", .text call.callee), ("to", (call.target.map itemRecord).getD .null),
    ("from_ranges", .list (call.ranges.map positionRecord))]

/-- The record of the answer to a question about calls. -/
def answerRecord (answer : Calls.Answer) : Json :=
  let results := match answer with
    | .incoming calls => calls.map incomingRecord
    | .outgoing calls => calls.map outgoingRecord
    | .references locations => locations.map locationRecord
    | .definition locations => locations.map locationRecord
  .record [("direction", .text answer.direction.id), ("results", .list results)]

end CodeFacts.Report
