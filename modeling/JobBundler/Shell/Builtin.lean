import JobBundler.Shell.State
import JobBundler.Text.Blank

/-! # Commands of the shell itself

Those that change the shell, or that end its loops, its functions or itself. -/

namespace JobBundler.Shell

/-- The signal that a text names, by its number or by its name. -/
def signal? (text : String) : Option Nat :=
  match text.toNat? with
  | some n => some n
  | none => (signals.find? (·.1 == "SIG" ++ text)).map (·.2)

/-- The signal that the arguments of `kill` name, and the processes that it goes to. -/
def killArguments? : List String → Option (Nat × List String)
  | "-s" :: name :: targets => (signal? name).map (·, targets)
  | a :: targets =>
    match a.toList with
    | '-' :: name => (signal? (String.ofList name)).map (·, targets)
    | _ => some (15, a :: targets)
  | [] => none

/-- Chooses what is run when the script ends or when a signal comes. -/
def setTraps : List String → Run Unit
  | action :: names => do
    let chosen := names.filterMap fun name => if name = "EXIT" then some 0 else signal? name
    modify fun st =>
      let others := st.traps.filter (!chosen.contains ·.1)
      { st with
        traps := if action = "-" then others else chosen.map (·, action) ++ others
        status := 0 }
  | [] => setStatus 0

/-- Ends the script, with the status of the last command if none is given. -/
def exit (arguments : List String) : Run Unit := do
  match arguments with
  | [] => throw (.ended (.exited (← get).status))
  | code :: _ => match code.toNat? with
    | some n => throw (.ended (.exited (n % 256)))
    | none =>
      complain s!"exit: Illegal number: {code}"
      throw (.ended (.exited 2))

/-- Gets a signal. It ends the script unless something else is to be run. Signal `9` always does. -/
def receive (signal : Nat) : Run Unit := do
  let st ← get
  match st.traps.lookup signal with
  | some action =>
    if signal = 9 then throw (.ended (.killed signal))
    set { st with pending := st.pending ++ [action] }
  | none => throw (.ended (.killed signal))

/-- Sends a signal, which may go to this process. -/
def kill (arguments : List String) : Run Unit := do
  match killArguments? arguments with
  | none =>
    complain "kill: Illegal option"
    setStatus 2
  | some (signal, targets) =>
    if targets.contains (toString (← get).processId) then
      setStatus 0
      if signal ≠ 0 then receive signal
    else setStatus 1

/-- Changes the working directory. -/
def changeDirectory (arguments : List String) : Run Unit := do
  let st ← get
  let target := arguments.headD "/"
  match st.disk.isDirectory ⟨target⟩, st.disk.locate ⟨target⟩ with
  | true, .ok workingDir =>
    set { st with disk := { st.disk with workingDir }, status := 0 }
  | _, _ =>
    complain s!"cd: can't cd to {target}"
    setStatus 2

/-- Turns options on, or sets the arguments. -/
def setOptions (arguments : List String) : Run Unit := do
  let flags := arguments.takeWhile fun a => a != "--" && a.toList.head? = some '-'
  modify fun st => { st with options := st.options.add (flags.flatMap (·.toList)), status := 0 }
  match arguments.drop flags.length with
  | [] => return
  | "--" :: more | more => modify fun st => { st with arguments := more }

/-- The name and the value in an assignment that is an argument. -/
def splitAssignment (text : String) : String × Option String :=
  match text.splitOn "=" with
  | name :: part :: parts => (name, some ("=".intercalate (part :: parts)))
  | _ => (text, none)

/-- Hands variables to programs. -/
def exportAll (arguments : List String) : Run Unit :=
  modify fun st =>
    { arguments.foldl (fun st a =>
        let (name, value) := splitAssignment a
        st.exportVariable name value) st with status := 0 }

/-- Gives values to variables. -/
def declare (arguments : List String) : Run Unit :=
  modify fun st =>
    { arguments.foldl (fun st a =>
        match splitAssignment a with
        | (name, some value) => st.assign name value
        | (_, none) => st) st with status := 0 }

/-- Gives values to variables until the commands with a name end that are running. -/
def declareLocally (arguments : List String) : Run Unit := do
  match (← get).locals with
  | none =>
    complain "local: not in a function"
    throw (.ended (.exited 2))
  | some names =>
    modify fun st => { st with locals := some ((arguments.map (splitAssignment · |>.1)) ++ names) }
    declare arguments

/-- Forgets variables. -/
def unset (arguments : List String) : Run Unit :=
  let without (e : Environment) : Environment :=
    .ofList (e.toList.filter fun v => !arguments.contains v.1)
  modify fun st => { st with own := without st.own, exported := without st.exported, status := 0 }

/-- A line at the front of the input, whether it has an end, and the input after it. Unless the line
is taken as it is, a backslash goes, and a line feed after it does not end the line. -/
def takeLine (asIs : Bool) : List UInt8 → List UInt8 × Bool × List UInt8
  | [] => ([], false, [])
  | 0x5c :: b :: bs =>
    if asIs then
      let (line, rest) := takeLine asIs (b :: bs)
      (0x5c :: line, rest)
    else
      let (line, rest) := takeLine asIs bs
      (if b = 0x0a then line else b :: line, rest)
  | b :: bs =>
    if b = 0x0a then ([], true, bs)
    else
      let (line, rest) := takeLine asIs bs
      (b :: line, rest)

/-- The values of variables that a line is split into: the last one takes all that is left. -/
def lineValues (separators : List Char) (line : List Char) : List String → List (String × String)
  | [] => []
  | [name] =>
    let cs := line.dropWhile isOuter
    let word := cs.takeWhile (!separators.contains ·)
    let rest := (cs.drop word.length).dropWhile isOuter
    let all := (cs.reverse.dropWhile isOuter).reverse
    let isOneField := rest.head?.all separators.contains && rest.tail.all isOuter
    [(name, String.ofList (if isOneField then word else all))]
  | name :: names =>
    let cs := line.dropWhile isOuter
    let word := cs.takeWhile (!separators.contains ·)
    let rest := (cs.drop word.length).dropWhile isOuter
    let rest := if rest.head?.any separators.contains then rest.tail else rest
    (name, String.ofList word) :: lineValues separators rest names
where
  isOuter (c : Char) : Bool := separators.contains c && isSoft c

/-- Reads a line of the input into variables. -/
def readLine (arguments : List String) : Run Unit := do
  let st ← get
  let (line, complete, rest) := takeLine (arguments.contains "-r") st.input.toList
  let values := lineValues st.separators (charsOf line) (arguments.filter (· != "-r"))
  set { values.foldl (fun st (name, v) => st.assign name v) st with
    input := ⟨rest.toArray⟩, status := if complete then 0 else 1 }

/-- How many loops are meant. -/
def loopCount (arguments : List String) : Nat :=
  (arguments.head?.bind (·.toNat?)).getD 1

/-- Cuts loops short, of which there may be fewer than are meant. -/
def leaveLoops (stop : Nat → Stop) (arguments : List String) : Run Unit := do
  let st ← get
  setStatus 0
  if st.loopDepth ≠ 0 then throw (stop (min (loopCount arguments) st.loopDepth))

/-- Drops the first arguments. -/
def shift (arguments : List String) : Run Unit := do
  let n := loopCount arguments
  let st ← get
  if st.arguments.length < n then
    complain "shift: can't shift that many"
    throw (.ended (.exited 2))
  set { st with arguments := st.arguments.drop n, status := 0 }

/-- Ends the commands with a name. -/
def returnWith (arguments : List String) : Run Unit := do
  if let some n := arguments.head?.bind (·.toNat?) then setStatus n
  throw .function

/-- Prints the variables that programs get. -/
def printVariables : Run Unit := do
  let st ← get
  let text := String.join (st.exported.toList.map fun (name, v) => s!"{name}={v}\n")
  emit st.sinks.out text.toUTF8
  setStatus 0

/-- A command of the shell itself, if there is one of the name. -/
def builtin? (name : String) (arguments : List String) : Option (Run Unit) :=
  match name with
  | ":" | "wait" | "umask" | "hash" => some (setStatus 0)
  | "exit" => some (exit arguments)
  | "kill" => some (kill arguments)
  | "trap" => some (setTraps arguments)
  | "cd" => some (changeDirectory arguments)
  | "shift" => some (shift arguments)
  | "set" => some (setOptions arguments)
  | "export" => some (exportAll arguments)
  | "local" => some (declareLocally arguments)
  | "readonly" => some (declare arguments)
  | "unset" => some (unset arguments)
  | "read" => some (readLine arguments)
  | "break" => some (leaveLoops .loops arguments)
  | "continue" => some (leaveLoops .rounds arguments)
  | "return" => some (returnWith arguments)
  | "printenv" => some printVariables
  | _ => none

end JobBundler.Shell
