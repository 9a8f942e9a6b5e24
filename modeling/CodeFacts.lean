import CodeFacts.Calls.CallSite
import CodeFacts.Calls.Declaration
import CodeFacts.Calls.Docstring
import CodeFacts.Calls.Hierarchy
import CodeFacts.Calls.Lookup
import CodeFacts.Calls.Session
import CodeFacts.Calls.Store
import CodeFacts.CommandLine.Grammar
import CodeFacts.CommandLine.Invocation
import CodeFacts.CommandLine.Reading
import CodeFacts.CommandLine.Run
import CodeFacts.Config
import CodeFacts.Failure
import CodeFacts.FileSystem.Basic
import CodeFacts.FileSystem.Walk
import CodeFacts.Glob.Criterion
import CodeFacts.Glob.Excludes
import CodeFacts.Glob.Expression
import CodeFacts.Glob.Match
import CodeFacts.Glob.Pattern
import CodeFacts.Imports.Build
import CodeFacts.Imports.Check
import CodeFacts.Imports.Cycle
import CodeFacts.Imports.Graph
import CodeFacts.Imports.ModuleFacts
import CodeFacts.Language
import CodeFacts.Main
import CodeFacts.OrderedList
import CodeFacts.Path.Basic
import CodeFacts.Path.Map
import CodeFacts.Path.Normal
import CodeFacts.Path.Order
import CodeFacts.Path.Relative
import CodeFacts.Proofs.Imports.CycleSoundness
import CodeFacts.Proofs.Imports.Trail
import CodeFacts.Report.Json
import CodeFacts.Report.Page
import CodeFacts.Report.Record
import CodeFacts.Report.Style
import CodeFacts.Snapshot
import CodeFacts.Text.Quoted
import CodeFacts.Text.Unicode
import CodeFacts.Text.Utf8
import CodeFacts.Tree.Cursor
import CodeFacts.Tree.Listing
import CodeFacts.Tree.Node
import CodeFacts.Tree.Walk
import CodeFacts.Unused.Analysis
import CodeFacts.Unused.Field
import CodeFacts.Unused.Issue
import CodeFacts.Unused.Pattern
import CodeFacts.Unused.Policy
import CodeFacts.Unused.Policy.Ecma
import CodeFacts.Unused.Policy.Go
import CodeFacts.Unused.Policy.Java
import CodeFacts.Unused.Policy.JavaScript
import CodeFacts.Unused.Policy.Python
import CodeFacts.Unused.Policy.TypeScript
import CodeFacts.Unused.Report
import CodeFacts.Unused.Scope
import CodeFacts.Yaml.Node
import CodeFacts.Yaml.Reader
import CodeFacts.Yaml.Token
import CodeFacts.Yaml.Token.Property
import CodeFacts.Yaml.Token.Scalar
import CodeFacts.Yaml.Token.Scan
import CodeFacts.Yaml.Value
import CodeFacts.Proofs.Imports.FeedbackEdges
import CodeFacts.Proofs.OrderedList
import CodeFacts.Proofs.Imports.Link
import CodeFacts.Proofs.Path.Segments
import CodeFacts.Proofs.Path.Tidy
import CodeFacts.Proofs.Path.Map
import CodeFacts.Proofs.FileSystem.Walk
import CodeFacts.Proofs.Imports.Build
import CodeFacts.Proofs.Imports.Check
import CodeFacts.Proofs.FileSystem.Descent
import CodeFacts.Proofs.Calls.Store
import CodeFacts.Proofs.Calls.Run
import CodeFacts.Proofs.Calls.FirstLoad
import CodeFacts.Proofs.Tree.Preorder
import CodeFacts.Proofs.Unused.UnreadNames
import CodeFacts.Proofs.Calls.Groups
import CodeFacts.Proofs.Calls.References
import CodeFacts.Proofs.Calls.Duality
import CodeFacts.Proofs.Calls.Lifecycle
import CodeFacts.Proofs.Calls.LoadOrder
import CodeFacts.Proofs.Calls.Visibility
import CodeFacts.Proofs.Path.Climb
import CodeFacts.Proofs.Path.Under
import CodeFacts.Proofs.FileSystem.Respelling
import CodeFacts.Proofs.FileSystem.WorkingDirectory
import CodeFacts.Proofs.Imports.Candidates
import CodeFacts.Proofs.Imports.Moving
import CodeFacts.Proofs.Imports.Respelling
import CodeFacts.Proofs.Imports.NodePaths
import CodeFacts.Proofs.Imports.Spelling
import CodeFacts.Proofs.Unused.Kinds
import CodeFacts.Proofs.Imports.InsertionOrder
import CodeFacts.Proofs.FileSystem.Reached
import CodeFacts.Proofs.Unused.Directory
import CodeFacts.Proofs.Calls.Preload
import CodeFacts.Proofs.Imports.Limits
import CodeFacts.Proofs.Imports.ClosingEdges
import CodeFacts.Proofs.Path.Lexical
import CodeFacts.Proofs.Path.Parent
import CodeFacts.Proofs.Path.NormalForm
import CodeFacts.Proofs.Imports.RelativeSpecifier
import CodeFacts.Proofs.Imports.Growth
import CodeFacts.Proofs.FileSystem.Collected
import CodeFacts.Proofs.Unused.DeclarationSites
import CodeFacts.Proofs.Unused.Redeclarations
import CodeFacts.Proofs.Unused.Repetitions
import CodeFacts.Proofs.Imports.Comments
import CodeFacts.Proofs.Unused.Fields
import CodeFacts.Proofs.Unused.FieldOwners
import CodeFacts.Proofs.Unused.FieldRedeclarations
import CodeFacts.Proofs.Unused.Exemptions
import CodeFacts.Proofs.Unused.Occurrences
import CodeFacts.Proofs.Tree.DocumentOrder
import CodeFacts.Proofs.Calls.Nesting
import CodeFacts.Proofs.Calls.Targets
import CodeFacts.Proofs.Calls.Innermost
import CodeFacts.Proofs.Calls.Chains
import CodeFacts.Proofs.Imports.Specifiers
import CodeFacts.Proofs.Calls.Arguments
import CodeFacts.Proofs.Calls.Decorators
import CodeFacts.Proofs.CheckOutcomes
import CodeFacts.Proofs.Imports.Arrivals
import CodeFacts.Proofs.PrivateNames
import CodeFacts.Proofs.DisplayedPaths
import CodeFacts.Proofs.Tree.Walks
import CodeFacts.Proofs.Unused.PatternNames
import CodeFacts.Proofs.Calls.Literals
