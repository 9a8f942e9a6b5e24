import CodeFacts.Path.Basic

/-!
# Languages

The languages whose syntax trees the library understands, with their identifiers and file
extensions.
-/

namespace CodeFacts

/-- A language that the analyses know. -/
inductive Language where
  | python
  | javaScript
  | typeScript
  | tsx
  | go
  | java
deriving DecidableEq, Repr, Inhabited

namespace Language

/-- Every language, in the order in which extensions are looked up. -/
def all : List Language :=
  [python, javaScript, typeScript, tsx, go, java]

/-- The identifier of a language. -/
def id : Language → String
  | python => "python"
  | javaScript => "javascript"
  | typeScript => "typescript"
  | tsx => "tsx"
  | go => "go"
  | java => "java"

/-- The file extensions of a language, without the dot. -/
def extensions : Language → List String
  | python => ["py", "pyi"]
  | javaScript => ["js", "jsx", "mjs", "cjs"]
  | typeScript => ["ts", "mts", "cts"]
  | tsx => ["tsx"]
  | go => ["go"]
  | java => ["java"]

/-- The language of a file extension. -/
def ofExtension? (extension : String) : Option Language :=
  all.find? fun language => language.extensions.contains extension

/-- The language of a file by the extension of its name. -/
def ofPath? (path : Path) : Option Language :=
  path.extension?.bind ofExtension?

/-- Whether files of the language are ECMAScript modules. -/
def isEcmaScript : Language → Bool
  | javaScript | typeScript | tsx => true
  | python | go | java => false

/-- The language with a given name; case does not matter, and common short names are known. All
names are ASCII, so lower-casing ASCII letters is enough. -/
def ofName? (name : String) : Option Language :=
  match name.toLower with
  | "python" => some python
  | "py" => some python
  | "javascript" => some javaScript
  | "js" => some javaScript
  | "typescript" => some typeScript
  | "ts" => some typeScript
  | "tsx" => some tsx
  | "go" => some go
  | "golang" => some go
  | "java" => some java
  | _ => none

end Language

end CodeFacts
