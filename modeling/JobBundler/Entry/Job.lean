import JobBundler.Entry.Import

/-! # Entry modules of jobs

The entry module of a job holds the text of its class as it stands in the source, and of the
imports only what this text refers to. -/

namespace JobBundler

namespace Job

/-- The class of a job in its source. -/
def findClass (j : Job) (source : SourceFile) : Except SynthesisError ClassDecl :=
  let found := match j.className with
    | some name => source.outline.classNamed? name
    | none => source.outline.defaultClass?
  match found with
  | some c => .ok c
  | none => .error (.classNotFound j.id.text (displayClass j.className) source.path)

/-- The text of the entry module, given the lines of its imports and the text of the class. -/
def entryText (j : Job) (imports : List String) (classText : String) : String :=
  s!"// generated by ej for {j.id.text}\n" ++
    String.join (imports.map (· ++ "\n")) ++ "\n" ++ classText ++ "\n" ++
    match j.exported, j.className with
    | .byDefault, _ | _, none => ""
    | _, some name => s!"\nexport default {name};\n"

/-- The entry module of a job in `entryDir`. -/
def entry (j : Job) (source : SourceFile) (entryDir : Path) (strategy : ReferenceStrategy) :
    Except SynthesisError EntryModule := do
  let c ← j.findClass source
  let classText := c.span.slice source.text
  let bindings := source.outline.imports.flatMap ImportDecl.bindings
  match referencedNames strategy classText bindings with
  | .error e => throw (.references (displayClass j.className) source.path e)
  | .ok used =>
    let sourceDir := source.path.parent?.getD ⟨""⟩
    let imports := source.outline.imports.flatMap
      (ImportDecl.reduce used source.text sourceDir entryDir)
    return { key := jobEntryKey j.id.text
             path := entryDir / (j.id.text ++ entrySuffix)
             text := j.entryText imports classText }

end Job
end JobBundler
