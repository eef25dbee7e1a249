/-! # File system errors

Why an operation on the file system fails, and the text that there is for it. Names and other texts
are handed to the operating system with a NUL as their end, so one that holds a NUL is refused before
it gets there. -/

namespace JobBundler

/-- Whether a text holds a NUL. -/
def hasNul (text : String) : Bool :=
  text.toList.contains '\x00'

inductive FileError where
  | notFound
  | permissionDenied
  | alreadyExists
  | notDirectory
  | isDirectory
  | directoryNotEmpty
  /-- A directory that is in use as such. -/
  | busy
  /-- A name or a whole path that is longer than any can be. -/
  | nameTooLong
  /-- A path with a NUL in it. -/
  | nulInPath
  /-- A NUL in what a program is started with. -/
  | nulInCommand
  /-- A file that is no program. -/
  | notExecutable
  /-- A file whose bytes are not UTF-8. -/
  | notText
  deriving DecidableEq, Repr

def FileError.message : FileError → String
  | notFound => "No such file or directory (os error 2)"
  | permissionDenied => "Permission denied (os error 13)"
  | alreadyExists => "File exists (os error 17)"
  | notDirectory => "Not a directory (os error 20)"
  | isDirectory => "Is a directory (os error 21)"
  | directoryNotEmpty => "Directory not empty (os error 39)"
  | busy => "Device or resource busy (os error 16)"
  | nameTooLong => "File name too long (os error 36)"
  | nulInPath => "file name contained an unexpected NUL byte"
  | nulInCommand => "nul byte found in provided data"
  | notExecutable => "Exec format error (os error 8)"
  | notText => "stream did not contain valid UTF-8"

end JobBundler
