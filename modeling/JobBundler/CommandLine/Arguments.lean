import JobBundler.Config.Basic

/-! # Arguments of the command line

The arguments name a root, a command, and what the command needs. They are read from left to right,
and the first request for help or the first mistake decides. -/

namespace JobBundler.CommandLine

inductive Task where
  | build (mode : Option BuildMode)
  /-- Runs a job; without an id the usage is explained. -/
  | run (jobId : Option String) (noBuild : Bool)
  deriving DecidableEq, Repr

structure Invocation where
  root : Option Path
  task : Task
  deriving DecidableEq, Repr

/-- Why there is no command to run. -/
inductive Refusal where
  /-- Help or the version is asked for. -/
  | help
  | misuse
  deriving DecidableEq, Repr

/-- What an argument is, apart from being the name of a command. -/
inductive Argument where
  /-- All after it are values. -/
  | escape
  | long (name : String) (value : Option String)
  | short (letters : List Char)
  | value (text : String)
  deriving DecidableEq, Repr

namespace Argument

def ofText (text : String) : Argument :=
  match text.toList with
  | ['-', '-'] => escape
  | '-' :: '-' :: cs =>
    let name := cs.takeWhile (· != '=')
    long (String.ofList name) ((cs[name.length]?).map fun _ =>
      String.ofList (cs.drop (name.length + 1)))
  | ['-'] => value text
  | '-' :: cs => short cs
  | _ => value text

end Argument

/-- The value of an option, which is given with it or in the next argument, and the arguments after
it. -/
def optionValue (given : Option String) (rest : List String) :
    Except Refusal (String × List String) :=
  match given, rest with
  | some text, rest => .ok (text, rest)
  | none, a :: rest =>
    match Argument.ofText a with
    | .value text => .ok (text, rest)
    | _ => .error .misuse
  | none, [] => .error .misuse

/-- A root after the ones that were given: at most one for each command, and it is not empty. -/
def setRoot (root : Option Path) (text : String) : Except Refusal (Option Path) :=
  if root.isSome ∨ text.isEmpty then .error .misuse else .ok (some ⟨text⟩)

theorem optionValue_length_le {given : Option String} {rest more : List String} {text : String}
    (h : optionValue given rest = .ok (text, more)) : more.length ≤ rest.length := by
  unfold optionValue at h
  split at h
  · cases h
    exact Nat.le_refl _
  · split at h
    · cases h
      exact Nat.le_succ _
    · cases h
  · cases h

/-- What the letters of a short option ask for. Only the first one counts, as none of them needs
another. -/
def shortOption (letters : List Char) (known : List Char) : Refusal :=
  if letters.head?.any known.contains then .help else .misuse

/-- Reads the arguments of a build after its name. -/
def readBuild (root : Option Path) (mode : Option BuildMode) (arguments : List String) :
    Except Refusal (Option Path × Task) :=
  match arguments with
  | [] => .ok (root, .build mode)
  | a :: rest =>
    match Argument.ofText a with
    | .escape => if rest.isEmpty then .ok (root, .build mode) else .error .misuse
    | .long "help" none => .error .help
    | .long "root" given =>
      match _h : optionValue given rest with
      | .ok (text, more) => do readBuild (← setRoot root text) mode more
      | .error e => .error e
    | .long "mode" given =>
      match _h : optionValue given rest with
      | .ok (text, more) =>
        match BuildMode.parse text, mode with
        | .ok m, none => readBuild root (some m) more
        | _, _ => .error .misuse
      | .error e => .error e
    | .short letters => .error (shortOption letters ['h'])
    | _ => .error .misuse
termination_by arguments.length
decreasing_by
  all_goals exact Nat.lt_succ_of_le (optionValue_length_le _h)

/-- Reads the arguments of a run after its name. -/
def readRun (root : Option Path) (jobId : Option String) (noBuild : Bool)
    (arguments : List String) : Except Refusal (Option Path × Task) :=
  match arguments with
  | [] => .ok (root, .run jobId noBuild)
  | a :: rest =>
    match Argument.ofText a with
    | .escape =>
      match jobId.toList ++ rest with
      | [] => .ok (root, .run none noBuild)
      | [id] => .ok (root, .run (some id) noBuild)
      | _ => .error .misuse
    | .long "help" none => .error .help
    | .long "root" given =>
      match _h : optionValue given rest with
      | .ok (text, more) => do readRun (← setRoot root text) jobId noBuild more
      | .error e => .error e
    | .long "no-build" none =>
      if noBuild then .error .misuse else readRun root jobId true rest
    | .short letters => .error (shortOption letters ['h'])
    | .value text =>
      if jobId.isSome then .error .misuse else readRun root (some text) noBuild rest
    | _ => .error .misuse
termination_by arguments.length
decreasing_by
  · exact Nat.lt_succ_of_le (optionValue_length_le _h)
  · exact Nat.lt_succ_self _
  · exact Nat.lt_succ_self _

/-- Reads the names after the command that explains others, itself included. -/
def readHelp : List String → Refusal
  | [] | ["build"] | ["run"] | ["help"] => .help
  | _ => .misuse

/-- An invocation with the root of the command, or else with the one before it. -/
def invocation (outer : Option Path) (r : Option Path × Task) : Invocation :=
  ⟨r.1.or outer, r.2⟩

/-- The root that is given, when `waiting` is the value of one more that nobody has looked at. -/
def settleRoot (root : Option Path) (waiting : Option String) : Except Refusal (Option Path) :=
  match waiting with
  | none => .ok root
  | some text => setRoot root text

/-- Reads the arguments from the first one that is not yet read.

A root in an argument of its own waits until the next option. Before a command it waits until the
arguments of that command are read, so that a mistake or a request for help among them decides
first, and the command that explains others never looks at it. -/
def read (root : Option Path) (waiting : Option String) (arguments : List String) :
    Except Refusal Invocation :=
  match arguments with
  | [] => .error (if root.isNone ∧ waiting.isNone then .help else .misuse)
  | "build" :: rest => do
    let own ← readBuild none none rest
    return invocation (← settleRoot root waiting) own
  | "run" :: rest => do
    let own ← readRun none none false rest
    return invocation (← settleRoot root waiting) own
  | "help" :: rest => .error (readHelp rest)
  | a :: rest => do
    let root ← settleRoot root waiting
    match Argument.ofText a with
    | .escape => .error (if root.isNone ∧ rest.isEmpty then .help else .misuse)
    | .long "help" none | .long "version" none => .error .help
    | .long "root" (some text) => do read (← setRoot root text) none rest
    | .long "root" none =>
      match _h : optionValue none rest with
      | .ok (text, more) => read root (some text) more
      | .error e => .error e
    | .short letters => .error (shortOption letters ['h', 'V'])
    | _ => .error .misuse
termination_by arguments.length
decreasing_by
  · exact Nat.lt_succ_self _
  · exact Nat.lt_succ_of_le (optionValue_length_le _h)

end JobBundler.CommandLine
