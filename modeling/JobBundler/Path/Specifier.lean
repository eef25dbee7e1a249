import JobBundler.Path.Normal

/-! # Module specifiers

A relative specifier names a module by a path from the importing file's directory. Written in
another directory the same module needs another specifier, which `rebase` computes. Any other
specifier names a package and stays as it is. -/

namespace JobBundler.Specifier

/-- Whether the specifier is relative to the importing file. -/
def isRelative (spec : String) : Bool :=
  let cs := spec.toList
  cs == ['.'] || cs == ['.', '.'] || ['.', '/'].isPrefixOf cs || ['.', '.', '/'].isPrefixOf cs

/-- Whether the specifier ends in a separator and so names a directory. -/
def endsInSlash (spec : String) : Bool :=
  spec.toList.getLast? == some '/'

/-- The length of the common start of two lists. -/
def commonLength {α : Type} [DecidableEq α] : List α → List α → Nat
  | a :: as, b :: bs => if a = b then commonLength as bs + 1 else 0
  | _, _ => 0

/-- The specifier of a path of steps from the importing file's directory, of which the first `ups`
lead upwards. -/
def ofSteps (ups : Nat) (steps : List String) : String :=
  let path := String.ofList (List.intercalate ['/'] (steps.map String.toList))
  if steps.isEmpty then "." else if ups = 0 then "./" ++ path else path

/-- The specifier that leads from a directory to a target. It starts with `./` or `../`, or is
`.`, so it is never taken for a package. -/
def relative (fromDir target : Path) : String :=
  let source := fromDir.normalize.components
  let target := target.normalize.components
  let common := commonLength source target
  let ups := source.length - common
  ofSteps ups (List.replicate ups ".." ++ (target.drop common).map (·.text))

/-- The specifier that means in a file of `entryDir` what `spec` means in a file of `sourceDir`.
A slash at its end is kept, since it makes the module a directory. -/
def rebase (spec : String) (sourceDir entryDir : Path) : String :=
  if isRelative spec then
    let rebased := relative entryDir (sourceDir / spec).normalize
    if endsInSlash spec && !endsInSlash rebased then rebased ++ "/" else rebased
  else spec

end JobBundler.Specifier
