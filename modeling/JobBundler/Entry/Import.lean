import JobBundler.Entry.Basic
import JobBundler.Path.Specifier

/-! # Reduced imports

The imports of a source are written anew for an entry module: only the names in use are kept, and
relative specifiers are rebased to the directory of the entry. -/

namespace JobBundler

namespace NamedImport

/-- Whether a name can be written without quotes. -/
def isIdentifier (name : String) : Bool :=
  match name.toList with
  | [] => false
  | c :: cs =>
    (Text.isAlphabetic c || c == '_' || c == '$') &&
      cs.all fun c => Text.isAlphanumeric c || c == '_' || c == '$'

/-- The specifier as it stands between the braces of an import. -/
def render (n : NamedImport) : String :=
  (if n.typeOnly then "type " else "") ++
    (if isIdentifier n.imported then n.imported else singleQuoted n.imported) ++
    (if n.imported = n.binding then "" else s!" as {n.binding}")

end NamedImport

namespace ImportDecl

/-- The clauses that bind a default name, a namespace and named imports. A namespace and named
imports cannot stand in one clause, so both together make two. -/
def clauses (defaultBinding namespaceBinding : Option String) (named : List String) :
    List String :=
  let braces := "\x7b " ++ ", ".intercalate named ++ " \x7d"
  let star (name : String) := s!"* as {name}"
  let withDefault (clause : String) := match defaultBinding with
    | some name => s!"{name}, {clause}"
    | none => clause
  match namespaceBinding, named with
  | none, [] => defaultBinding.toList
  | some name, [] => [withDefault (star name)]
  | none, _ :: _ => [withDefault braces]
  | some name, _ :: _ => [withDefault (star name), braces]

/-- The declaration for a module of `entryDir`, with the names in `used` only: a line for each
clause that is left. `source` is the text of the module in `sourceDir` that it stands in. -/
def reduce (used : NameSet) (source : String) (sourceDir entryDir : Path) (d : ImportDecl) :
    List String :=
  let keyword := if d.typeOnly then "import type" else "import"
  let specifier := singleQuoted (Specifier.rebase d.specifier sourceDir entryDir)
  let attributes := match d.attributes with
    | some span => " " ++ span.slice source
    | none => ""
  let named := d.named.filter fun n => used.contains n.binding
  (clauses (d.defaultBinding.filter used.contains) (d.namespaceBinding.filter used.contains)
    (named.map (·.render))).map fun clause => s!"{keyword} {clause} from {specifier}{attributes};"

end ImportDecl
end JobBundler
