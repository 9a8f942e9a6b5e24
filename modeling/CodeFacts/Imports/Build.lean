import CodeFacts.FileSystem.Walk
import CodeFacts.Glob.Excludes
import CodeFacts.Imports.Graph
import CodeFacts.Imports.ModuleFacts

/-!
# Graphs of directories

The dependency graph of a directory has a node for every ECMAScript file below it that can be
read. A file that cannot be read is left out.
-/

namespace CodeFacts.Imports

/-- The node of a file, before it is linked. -/
def fileNode (path : Path) (facts : ModuleFacts) : FileNode where
  path := path
  exportedNames := OrderedList.ofList Ord.compare facts.exports
  importPaths := OrderedList.ofList Ord.compare (facts.imports.map ImportSpec.specifier)
  importsFrom := []
  importedBy := []
  ordered :=
    ⟨OrderedList.increasing_ofList _, OrderedList.increasing_ofList _, OrderedList.increasing_nil,
      OrderedList.increasing_nil⟩

/-- The node of a file of a file system, if the file can be read. -/
def readNode? (files : FileSystem) (path : Path) : Option FileNode :=
  match Language.ofPath? path, files.read path with
  | some language, .ok source => some (fileNode path (moduleFacts language source.tree))
  | _, _ => none

/-- The dependency graph of a directory. -/
def buildGraph (files : FileSystem) (root : Path) (excludePatterns : List String) :
    Except Failure Graph := do
  let excluded ← Glob.Excludes.compile excludePatterns
  let paths ← files.sourceFiles root excluded.excludes Language.isEcmaScript
  let nodes := paths.filterMap (readNode? files)
  return (nodes.foldl Graph.insert (Graph.empty root)).link

end CodeFacts.Imports
