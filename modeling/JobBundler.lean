import JobBundler.Build
import JobBundler.Bundle.Program
import JobBundler.CommandLine.Run
import JobBundler.Dispatch.Dispatcher
import JobBundler.Dispatch.Program
import JobBundler.Main
import JobBundler.Proofs.Action
import JobBundler.Proofs.Index
import JobBundler.Proofs.Path.Components
import JobBundler.Proofs.Path.Place
import JobBundler.Proofs.Path.Specifier
import JobBundler.Proofs.Token.Reads
import JobBundler.Proofs.Token.Printed
import JobBundler.Proofs.Token.Locality
import JobBundler.Proofs.Token.Nesting
import JobBundler.Proofs.Token.Balance
import JobBundler.Proofs.Token.Placement
import JobBundler.Proofs.Token.Excerpt
import JobBundler.Proofs.Token.Relocation
import JobBundler.Proofs.Token.Joined
import JobBundler.Proofs.Token.Written
import JobBundler.Proofs.Token.Lossless
import JobBundler.Proofs.Token.Substitutions
import JobBundler.Proofs.Outline.Passes
import JobBundler.Proofs.Outline.Imports
import JobBundler.Proofs.Outline.Classes
import JobBundler.Proofs.Outline.Delimitation
import JobBundler.Proofs.Outline.ClassText
import JobBundler.Proofs.Outline.Relocation
import JobBundler.Proofs.Outline.Relocation.Classes
import JobBundler.Proofs.Outline.Relocation.Imports
import JobBundler.Proofs.Outline.Joined
import JobBundler.Proofs.Outline.LaidOut
import JobBundler.Proofs.Outline.Spans
import JobBundler.Proofs.Entry.ImportLexemes
import JobBundler.Proofs.Entry.ImportSpecifiers
import JobBundler.Proofs.Entry.ImportReading
import JobBundler.Proofs.Entry.ImportAttributes
import JobBundler.Proofs.Path.Extension
import JobBundler.Proofs.Disk.Location
import JobBundler.Proofs.Disk.Frame
import JobBundler.Proofs.Disk.WellFormed
import JobBundler.Proofs.Disk.Directories
import JobBundler.Proofs.Disk.Files
import JobBundler.Proofs.Disk.Keeping
import JobBundler.Proofs.Path.FileName
import JobBundler.Proofs.Disk.Above
import JobBundler.Proofs.Disk.Beside
import JobBundler.Proofs.Disk.Writer
import JobBundler.Proofs.Disk.Below
import JobBundler.Proofs.Disk.Removal
import JobBundler.Proofs.Glob.Components
import JobBundler.Proofs.Glob.Search
import JobBundler.Proofs.Json.Tokens
import JobBundler.Proofs.Manifest
import JobBundler.Proofs.Build.Stages
import JobBundler.Proofs.Entry.Plan
import JobBundler.Proofs.Entry.Coverage
import JobBundler.Proofs.Entry.Synthesis
import JobBundler.Proofs.Build.WorkingDirectory
import JobBundler.Proofs.Build.Frames
import JobBundler.Proofs.Build.Losses
import JobBundler.Proofs.Build.Sources
import JobBundler.Proofs.Manifest.Saving
import JobBundler.Proofs.Build.Steps
import JobBundler.Proofs.Build.Failures
import JobBundler.Proofs.Build.Bundlers
import JobBundler.Proofs.Build.Course
import JobBundler.Proofs.Build.Rebuild
import JobBundler.Proofs.Dispatch.Resolve
import JobBundler.Proofs.Entry.Specifiers
import JobBundler.Proofs.Entry.ReducedImports
import JobBundler.Proofs.Entry.ClassSection
import JobBundler.Proofs.Manifest.Reading
import JobBundler.Proofs.Manifest.Concurrent
import JobBundler.Proofs.Dispatch.Course
import JobBundler.Proofs.Job.Validation
import JobBundler.Proofs.Reference.Words
import JobBundler.Proofs.Token.Decimal
import JobBundler.Proofs.Reference.Expression
import JobBundler.Proofs.Entry.SourceFiles
import JobBundler.Proofs.Entry.GroupModule
import JobBundler.Proofs.Entry.GroupImports
import JobBundler.Proofs.Path.Rebase
import JobBundler.Proofs.Token.Escapes
import JobBundler.Proofs.Token.Spaced
import JobBundler.Proofs.Job.Spaced
import JobBundler.Proofs.Dispatch.Guess
import JobBundler.Proofs.Bundle.Externals
import JobBundler.Proofs.Bundle.Program
import JobBundler.Proofs.Dispatch.Program
import JobBundler.Proofs.Source.Places
import JobBundler.Proofs.Source.Carets
import JobBundler.Proofs.Path.Normal
import JobBundler.Proofs.Token.Quoting
import JobBundler.Proofs.Token.Unclosed
