import JobBundler.Job.Validation

/-! # Entry modules

An entry module is the source text that the bundler starts from, one for each artifact. -/

namespace JobBundler

structure EntryModule where
  /-- The name of the entry, which is the artifact's path without its extension. -/
  key : String
  path : Path
  text : String
  deriving DecidableEq, Repr

/-- What ends the file name of an entry module. -/
def entrySuffix : String :=
  ".entry.ts"

def jobEntryKey (id : String) : String :=
  s!"jobs/{id}"

def groupEntryKey (name : String) : String :=
  s!"groups/{name}"

/-- A source that validated jobs come from is not as it was when they were found. -/
inductive SynthesisError where
  | classNotFound (id className : String) (file : Path)
  | sourceMissing (id : String) (file : Path)
  | references (className : String) (file : Path) (error : LexicalError)
  deriving DecidableEq, Repr

def SynthesisError.message : SynthesisError → String
  | classNotFound id className file =>
    s!"internal error: class {className} not found in {file.text} while synthesizing job {id}"
  | sourceMissing id file =>
    s!"internal error: source {file.text} for job {id} was not discovered"
  | references className file error =>
    s!"internal error: failed to scan class {className} in {file.text}: {error.message}"

/-- A module specifier or the name of an import between single quotes. -/
def singleQuoted (text : String) : String :=
  String.ofList ('\'' :: text.toList.flatMap escapeQuote ++ ['\''])
where
  escapeQuote (c : Char) : List Char :=
    if c = '\\' ∨ c = '\'' then ['\\', c] else [c]

end JobBundler
