import JobBundler.Entry.Basic
import JobBundler.Path.Specifier

/-! # Entry modules of groups

The entry module of a group imports each source file of its jobs once, as a namespace, and exports a
registry that leads from each job's id to its class. -/

namespace JobBundler

/-- The source files of the jobs, each once, in the order of their first jobs. -/
def sourceFiles (js : List Job) : List Path :=
  js.foldl (fun files j => if files.any (·.same j.sourceFile) then files
    else files ++ [j.sourceFile]) []

/-- The name under which the `n`-th source file is imported. -/
def fileAlias (n : Nat) : String :=
  s!"__ej{n}"

/-- The path that a module is imported by: without the extension, if a bundler finds the module by
itself then. -/
def modulePath (file : Path) : Path :=
  if ["ts", "tsx", "js", "jsx"].contains (file.extension?.getD "") then file.withExtension ""
  else file

namespace GroupName

/-- The text of the entry module of a group. -/
def entryText (name : GroupName) (js : List Job) (entryDir : Path) : String :=
  let files := sourceFiles js
  let imports := files.zipIdx.map fun (file, n) =>
    s!"import * as {fileAlias n} from " ++
      s!"{singleQuoted (Specifier.relative entryDir (modulePath file))};\n"
  let jobs := js.map fun j =>
    let n := (files.findIdx? (·.same j.sourceFile)).getD 0
    s!"  \"{j.id.text}\": {fileAlias n}.{j.exportMember},\n"
  s!"// generated by ej for group {name.text}\n" ++ String.join imports ++
    "\nexport const jobs = \x7b\n" ++ String.join jobs ++ "\x7d;\n"

/-- The entry module in `entryDir` of a group with these jobs. -/
def entry (name : GroupName) (js : List Job) (entryDir : Path) : EntryModule :=
  { key := groupEntryKey name.text
    path := entryDir / (name.text ++ entrySuffix)
    text := name.entryText js entryDir }

end GroupName
end JobBundler
