import JobBundler.Shell.Tool.Condition
import JobBundler.Shell.Tool.Files
import JobBundler.Shell.Tool.Printing
import JobBundler.Shell.Tool.Reading
import JobBundler.Shell.Tool.Translation

/-! # The tools by their names -/

namespace JobBundler.Shell.Tool

def pwd : Tool := fun _ _ => do
  return .ofText ("/" ++ "/".intercalate (← get).workingDir ++ "\n")

/-- A path without the separators at its end. -/
def withoutSeparators (path : String) : List Char :=
  (path.toList.reverse.dropWhile (· == '/')).reverse

/-- Prints what comes after the last separator, without an ending. -/
def basename : Tool := fun arguments _ =>
  let path := withoutSeparators (arguments.headD "")
  let name := if path.isEmpty ∧ !arguments.all (·.isEmpty) then "/"
    else String.ofList (path.reverse.takeWhile (· != '/')).reverse
  let shown := match arguments with
    | [_, ending] => if name.endsWith ending ∧ name ≠ ending then name.dropEnd ending.length else name
    | _ => name
  return .ofText s!"{shown}\n"

/-- Prints what comes before the last separator. -/
def dirname : Tool := fun arguments _ =>
  let path := withoutSeparators (arguments.headD "")
  let parent := withoutSeparators (String.ofList (path.reverse.dropWhile (· != '/')).reverse)
  let shown := if !path.contains '/' then "." else if parent.isEmpty then "/" else String.ofList parent
  return .ofText s!"{shown}\n"

/-- Prints numbers up to a last one. -/
def seq : Tool := fun arguments _ =>
  let (first, last) := match arguments.map (·.toNat?.getD 0) with
    | [first, last] => (first, last)
    | [last] => (1, last)
    | _ => (1, 0)
  return .ofText (ofLines ((List.range (last + 1 - first)).map fun n => toString (first + n)))

/-- The tools by their names. -/
def all : List (String × Tool) :=
  [("true", ending 0), ("false", ending 1), ("sleep", ending 0), ("sync", ending 0),
   ("echo", echo), ("printf", printf),
   ("mkdir", mkdir), ("rm", rm), ("rmdir", rmdir), ("touch", touch), ("cp", cp), ("mv", mv),
   ("chmod", chmod), ("tee", tee),
   ("cat", cat), ("grep", grep), ("wc", wc), ("head", head), ("tail", tail), ("sort", sort),
   ("cut", cut), ("ls", ls), ("tr", tr),
   ("test", test), ("[", bracket),
   ("pwd", pwd), ("basename", basename), ("dirname", dirname), ("seq", seq)]

def find? (name : String) : Option Tool :=
  (all.find? (·.1 == name)).map (·.2)

end JobBundler.Shell.Tool
