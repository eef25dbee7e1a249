import JobBundler.Shell.Arithmetic
import JobBundler.Shell.Builtin
import JobBundler.Shell.Parser
import JobBundler.Shell.Program

/-! # Running shell scripts

A script runs its commands one after the other. It ends after the last one, by `exit`, or by a
signal that it sends to itself. A script may go on for ever, so all that runs here takes a bounded
number of steps inside one another, and whatever needs more is killed. -/

namespace JobBundler.Shell

/-- Ends a script that goes on for too long. -/
def giveUp {α : Type} : Run α :=
  throw (.ended (.killed 9))

/-- Ends the script with a complaint. -/
def refuse {α : Type} (complaint : String) : Run α := do
  complain complaint
  throw (.ended (.exited 2))

/-- Ends the script if a command has failed that should not. -/
def checkFailure (tested : Bool) : Run Unit := do
  let st ← get
  if st.options.exitsOnFailure && st.status != 0 && !tested then
    throw (.ended (.exited st.status))

/-- The text that a script has written into a word: line feeds at its end do not count. -/
def outputText (bytes : ByteArray) : String :=
  String.ofList ((charsOf bytes.toList).reverse.dropWhile (· == '\n')).reverse

/-- The value of a name in arithmetic. -/
def State.number (st : State) (name : String) : Int :=
  ((st.value? name).bind (·.toInt?)).getD 0

/-- The tools that are part of the shell, which says so when they fail. -/
def ownTools : List String :=
  ["true", "false", "echo", "printf", "test", "[", "pwd"]

/-- Runs a tool. -/
def runTool (name : String) (tool : Tool) (arguments : List String) : Run Unit := do
  let st ← get
  let (out, disk) := (tool arguments st.input).run st.disk
  set { st with disk, status := out.status }
  if !out.stderr.isEmpty && ownTools.contains name then
    emit st.sinks.err s!"{st.name}: {st.line}: ".toUTF8
  emit st.sinks.err out.stderr.toUTF8
  emit st.sinks.out out.stdout

/-- What a shell is started for. -/
structure Launch where
  text : String
  name : String
  arguments : List String
  options : Options

/-- What a shell does by its command line: after options there is the text of a script if `-c` is one
of them, or else a file that holds one. Without a file the script is read. The failure is what is to
be said of a file that cannot be opened. -/
def Launch.ofArguments (st : State) (name : String) : Options → List String → Except String Launch
  | options, [] => .ok ⟨String.ofList (charsOf st.input.toList), name, [], options⟩
  | options, a :: more =>
    match a.toList with
    | '-' :: letters =>
      let options := options.add letters
      match letters.contains 'c', more with
      | true, text :: more => .ok ⟨text, more.headD name, more.tail, options⟩
      | _, more => ofArguments st name options more
    | _ => match scriptIn st.disk st.input a with
      | .ok text => .ok ⟨text, a, more, options⟩
      | .error e => .error (s!"cannot open {a}: " ++ openReason "No such file" e)

/-- The state in which another shell starts. -/
def State.forLaunch (st : State) (l : Launch) : State :=
  { st with
    own := ∅, functions := [], options := l.options, locals := none, traps := [], loopDepth := 0
    name := l.name, arguments := l.arguments
    processId := st.processId + 1, status := 0 }

/-- What a shell says when it has not yet read anything. -/
def launchFailure (name complaint : String) : String :=
  s!"{name}: 0: {complaint}\n"

/-- What starts a program. -/
inductive Starter where
  | shell
  /-- The shell, whose place the program takes. -/
  | exec
  | env
  deriving DecidableEq, Repr

/-- Fails because a program cannot be started. -/
def Starter.fail (s : Starter) (name : String) (e : FileError) : Run Unit := do
  match s with
  | .shell => complain (s!"{name}: " ++ openReason "not found" e)
  | .exec => complain (s!"exec: {name}: " ++ openReason "not found" e)
  | .env => emit (← get).sinks.err s!"env: '{name}': {reason e}\n".toUTF8
  setStatus (if e = .permissionDenied ∨ s = .env ∧ e ≠ .notFound then 126 else 127)

/-- What is said of a process that a signal has killed. -/
def signalText? : Nat → Option String
  | 1 => some "Hangup"
  | 6 => some "Aborted"
  | 9 => some "Killed"
  | 11 => some "Segmentation fault"
  | 15 => some "Terminated"
  | _ => none

/-- What becomes of a script. -/
def finalStatus (st : State) : Except Stop Unit → ExitStatus
  | .error (.ended status) => status
  | _ => .exited st.status

/-- Runs another shell, and takes its status. -/
def asProcess (start : State → State) (x : Run Unit) : Run Unit := do
  let status ← restoring (fun before after => before.afterIsolated after) do
    modify start
    let result : Except Stop Unit ← ExceptT.mk (Except.ok <$> x.run)
    return finalStatus (← get) result
  match status with
  | .exited code => setStatus code
  | .killed signal =>
    if let some text := signalText? signal then emit (← get).sinks.err s!"{text}\n".toUTF8
    setStatus (128 + signal)

/-- What a loop does after a round of it. -/
inductive AfterRound where
  | goOn
  | leave
  deriving DecidableEq, Repr

/-- Runs something inside a loop. -/
def insideLoop (x : Run Unit) : Run Unit :=
  restoring (fun before after => { after with loopDepth := before.loopDepth }) do
    modify fun st => { st with loopDepth := st.loopDepth + 1 }
    x

/-- Runs a round of a loop. It may end the loop, or loops around it. -/
def round (body : Run Unit) : Run AfterRound := do
  match ← ExceptT.mk (Except.ok <$> (insideLoop body).run) with
  | .ok _ => return .goOn
  | .error (.loops n) => if n ≤ 1 then return .leave else throw (.loops (n - 1))
  | .error (.rounds n) => if n ≤ 1 then return .goOn else throw (.rounds (n - 1))
  | .error stop => throw stop

/-- Runs a loop over values. -/
def overValues (body : String → Run Unit) : List String → Run Unit
  | [] => return
  | value :: values => do
    match ← round (body value) with
    | .goOn => overValues body values
    | .leave => return

/-- Some variables as they were before a command with assignments of its own. -/
def State.withVariablesOf (names : List String) (before after : State) : State :=
  { after with
    exported := restoreVariables names before.exported after.exported
    own := restoreVariables names before.own after.own }

/-- The outputs and the input before a command with redirections. -/
def State.withStreamsOf (rs : List Redirection) (before after : State) : State :=
  { after with
    sinks := before.sinks
    input := if rs.any (·.isInput) then before.input else after.input }

mutual

/-- The parts that the pieces of a word are. -/
def parts : (fuel : Nat) → Word → Run (List Part)
  | 0, _ => giveUp
  | fuel + 1, w => return (← w.mapM (piece fuel)).flatten

/-- The parts that a piece is. -/
def piece : (fuel : Nat) → Piece → Run (List Part)
  | 0, _ => giveUp
  | fuel + 1, p => do
    match p with
    | .char c quoted => return [.char c (if quoted then .quoted else .written)]
    | .quotes => return [.quotes]
    | .output script quoted =>
      let bytes ← captured (isolated (runText fuel script))
      modify fun st => { st with outputStatus := some st.status }
      return Part.ofValue quoted (outputText bytes)
    | .arithmetic expression quoted =>
      let text := Part.text (← parts fuel expression)
      match Arithmetic.eval? (← get).number text with
      | some n => return Part.ofValue quoted (toString n)
      | none => refuse s!"arithmetic expression: expecting primary: \"{text}\""
    | .parameter "@" .value _ quoted => return Part.ofValues quoted (← get).arguments
    | .parameter "*" .value _ false => return Part.ofValues false (← get).arguments
    | .parameter name use word quoted => parameter fuel name use word quoted

/-- The parts that a use of a parameter is. -/
def parameter : (fuel : Nat) → (name : String) → Use → Word → (quoted : Bool) → Run (List Part)
  | 0, _, _, _, _ => giveUp
  | fuel + 1, name, use, word, quoted => do
    let st ← get
    let value := st.value? name
    let present (orEmpty : Bool) : Bool := value.any fun v => !orEmpty || !v.isEmpty
    let shown : List Part := Part.ofValue quoted (value.getD "")
    let wordParts : Run (List Part) := do
      let ps ← parts fuel word
      return if quoted then ps.map Part.quote else ps
    match use with
    | .value =>
      if value.isNone && st.options.refusesUnset && name != "@" && name != "*" then
        refuse s!"{name}: parameter not set"
      return shown
    | .orElse orEmpty => if present orEmpty then return shown else wordParts
    | .orAssign orEmpty =>
      if present orEmpty then return shown
      let text := Part.text (← parts fuel word)
      modify fun st => st.assign name text
      return Part.ofValue quoted text
    | .orFail orEmpty =>
      if present orEmpty then return shown
      let text := Part.text (← parts fuel word)
      refuse (name ++ ": " ++ if text.isEmpty then "parameter not set" else text)
    | .instead orEmpty => if present orEmpty then wordParts else return []
    | .length => return Part.ofValue quoted (toString (value.getD "").utf8ByteSize)
    | .withoutStart longest =>
      let ts := patternOf (← parts fuel word)
      let rest := withoutStart ts longest (value.getD "").toList
      return Part.ofValue quoted (String.ofList rest)
    | .withoutEnd longest =>
      let ts := patternOf (← parts fuel word)
      let rest := withoutEnd ts longest (value.getD "").toList
      return Part.ofValue quoted (String.ofList rest)

/-- Follows redirections. Says whether all of them can be followed. -/
def redirect : (fuel : Nat) → List Redirection → Run Bool
  | 0, _ => giveUp
  | _, [] => return true
  | fuel + 1, r :: rs => do
    let followed ← match r with
      | .duplicate output source => do
        duplicateOutput output source
        pure true
      | .read file => do redirectInput (Part.text (← parts fuel file))
      | .document text => do
        let text := Part.text (← parts fuel text)
        modify fun st => { st with input := text.toUTF8 }
        pure true
      | .write output append file => do
        redirectOutput output append (Part.text (← parts fuel file))
    if followed then redirect fuel rs else return false

/-- Runs something with redirections. -/
def redirected : (fuel : Nat) → List Redirection → Run Unit → Run Unit
  | 0, _, _ => giveUp
  | fuel + 1, rs, x => restoring (State.withStreamsOf rs) do
    if ← redirect fuel rs then x else setStatus 2

/-- Runs a command by its name and its arguments. -/
def call : (fuel : Nat) → (tested : Bool) → (name : String) → (arguments : List String) → Run Unit
  | 0, _, _, _ => giveUp
  | fuel + 1, tested, name, arguments => do
    match (← get).functions.find? (·.1 == name), builtin? name arguments with
    | some (_, body), _ =>
      restoring State.afterFunction do
        modify fun st => { st with arguments, locals := some [], loopDepth := 0 }
        match ← ExceptT.mk (Except.ok <$> (run fuel tested body).run) with
        | .ok _ | .error .function => return
        | .error stop => throw stop
    | none, some x => x
    | none, none =>
      match name, arguments with
      | "eval", words => runText fuel (" ".intercalate words)
      | ".", file :: _ =>
        if !file.toList.contains '/' then refuse s!".: {file}: not found"
        match scriptIn (← get).disk (← get).input file with
        | .ok text => runText fuel text
        | .error e => refuse (s!".: cannot open {file}: " ++ openReason "No such file" e)
      | "exec", name :: arguments =>
        runProgram fuel .exec name arguments
        throw (.ended (.exited (← get).status))
      | "command", "-v" :: name :: _ => findCommand fuel name
      | "command", name :: arguments => call fuel tested name arguments
      | name, arguments => runProgram fuel .shell name arguments

/-- Prints the name of a command if there is one. -/
def findCommand : (fuel : Nat) → (name : String) → Run Unit
  | 0, _ => giveUp
  | _ + 1, name => do
    let st ← get
    let isOwn := (builtin? name []).isSome || st.functions.any (·.1 == name)
    match isOwn, Program.find name st.disk with
    | true, _ | _, .ok _ =>
      emit st.sinks.out s!"{name}\n".toUTF8
      setStatus 0
    | false, .error _ => setStatus 127

/-- Runs a program with variables that stand before it, or prints all variables. Before them those
that there are may be taken away, all or one of them. -/
def withVariables : (fuel : Nat) → List String → Run Unit
  | 0, _ => giveUp
  | _, [] => printVariables
  | fuel + 1, "-i" :: words => do
    modify fun st => { st with exported := ∅ }
    withVariables fuel words
  | fuel + 1, "-u" :: name :: words => do
    modify fun st => { st with exported := restoreVariables [name] ∅ st.exported }
    withVariables fuel words
  | fuel + 1, word :: words =>
    match splitAssignment word with
    | (name, some value) => do
      modify fun st => st.exportVariable name (some value)
      withVariables fuel words
    | (name, none) => runProgram fuel .env name words

/-- Runs a program. -/
def runProgram : (fuel : Nat) → Starter → (name : String) → (arguments : List String) → Run Unit
  | 0, _, _, _ => giveUp
  | fuel + 1, starter, name, arguments => do
    match name, builtin? name arguments, Program.find name (← get).disk with
    | "env", _, _ | "/usr/bin/env", _, _ =>
      restoring State.afterExports (withVariables fuel arguments)
    | "kill", some x, _ => x
    | _, _, .ok (.tool t) => runTool name t arguments
    | _, _, .ok .shell => runShell fuel name arguments
    | _, _, .ok (.script options) => runShell fuel name (options ++ name :: arguments)
    | _, _, .error .notExecutable => runShell fuel name (name :: arguments)
    | _, _, .error e => starter.fail name e

/-- Runs another shell. -/
def runShell : (fuel : Nat) → (name : String) → (arguments : List String) → Run Unit
  | 0, _, _ => giveUp
  | fuel + 1, name, arguments => do
    let st ← get
    match Launch.ofArguments st name {} arguments with
    | .ok l => asProcess (·.forLaunch l) (runToEnd fuel l.text)
    | .error complaint =>
      emit st.sinks.err (launchFailure name complaint).toUTF8
      setStatus 2

/-- Sets variables one after the other. -/
def assign : (fuel : Nat) → (exports : Bool) → List (String × Word) → Run Unit
  | 0, _, _ => giveUp
  | _, _, [] => return
  | fuel + 1, exports, (name, w) :: rest => do
    let value := Part.text (← parts fuel w)
    modify fun st => if exports then st.exportVariable name (some value) else st.assign name value
    assign fuel exports rest

/-- Runs a simple command. Assignments without a command last. -/
def simple : (fuel : Nat) → (tested : Bool) → List (String × Word) → List Word →
    List Redirection → Run Unit
  | 0, _, _, _, _ => giveUp
  | fuel + 1, tested, assignments, words, redirections => do
    modify fun st => { st with outputStatus := none }
    let ps ← words.mapM (parts fuel)
    let fields := ps.flatMap (Fields.ofParts (← get).separators)
    match fields.flatMap (Fields.expand (← get).disk) with
    | [] => redirected fuel redirections do
      assign fuel false assignments
      modify fun st => { st with status := st.outputStatus.getD 0 }
    | ["exec"] => if !(← redirect fuel redirections) then throw (.ended (.exited 2))
    | name :: arguments => redirected fuel redirections do
      if assignments.isEmpty then call fuel tested name arguments
      else restoring (State.withVariablesOf (assignments.map (·.1))) do
        assign fuel true assignments
        call fuel tested name arguments

/-- Runs a script. Where the failure of a command is tested, it does not end the script. -/
def run : (fuel : Nat) → (tested : Bool) → Script → Run Unit
  | 0, _, _ => giveUp
  | fuel + 1, tested, s => do
    match s with
    | .skip => return
    | .simple line assignments words redirections =>
      modify fun st => { st with line }
      simple fuel tested assignments words redirections
      runPending fuel
      checkFailure tested
    | .sequence a b =>
      run fuel tested a
      run fuel tested b
    | .both a b =>
      run fuel true a
      if (← get).status = 0 then run fuel tested b
    | .either a b =>
      run fuel true a
      if (← get).status ≠ 0 then run fuel tested b
    | .negation a =>
      run fuel true a
      setStatus (if (← get).status = 0 then 1 else 0)
    | .pipe a b =>
      let input := (← get).input
      let bytes ← captured (isolated (run fuel tested a))
      modify fun st => { st with input := bytes }
      isolated (run fuel tested b)
      modify fun st => { st with input }
      checkFailure tested
    | .branch test yes no =>
      run fuel true test
      if (← get).status = 0 then run fuel tested yes
      else
        setStatus 0
        run fuel tested no
    | .choice subject patterns yes no =>
      let text := Part.text (← parts fuel subject)
      let ts ← patterns.mapM fun p => return patternOf (← parts fuel p)
      setStatus 0
      if ts.any (Glob.accepts · text.toList) then run fuel tested yes else run fuel tested no
    | .each name words body =>
      let ps ← words.mapM (parts fuel)
      let fields := ps.flatMap (Fields.ofParts (← get).separators)
      let values := fields.flatMap (Fields.expand (← get).disk)
      setStatus 0
      overValues (fun value => do
        modify fun st => st.assign name value
        run fuel tested body) values
    | .loop whileFails test body =>
      setStatus 0
      loop fuel tested whileFails test body
    | .group isolates body redirections =>
      redirected fuel redirections
        (if isolates then isolated (run fuel tested body) else run fuel tested body)
      checkFailure (tested || !isolates)
    | .define name body =>
      modify fun st => { st with functions := (name, body) :: st.functions, status := 0 }

/-- Runs what signals have made pending. -/
def runPending : (fuel : Nat) → Run Unit
  | 0 => giveUp
  | fuel + 1 => do
    let st ← get
    match st.pending with
    | [] => return
    | action :: others =>
      set { st with pending := others }
      runText fuel action
      setStatus st.status
      runPending fuel

/-- Runs a loop. Its status is that of its last round. -/
def loop : (fuel : Nat) → (tested whileFails : Bool) → (test body : Script) → Run Unit
  | 0, _, _, _, _ => giveUp
  | fuel + 1, tested, whileFails, test, body => do
    let { status, .. } ← get
    let after ← round do
      run fuel true test
      if ((← get).status == 0) == whileFails then
        setStatus status
        throw (.loops 1)
      run fuel tested body
    if after = .goOn then loop fuel tested whileFails test body

/-- Runs the script that a text holds. -/
def runText : (fuel : Nat) → (text : String) → Run Unit
  | 0, _ => giveUp
  | fuel + 1, text =>
    match Script.ofText? text with
    | none => refuse "Syntax error"
    | some script => run fuel false script

/-- Runs the script of a process, and then what is to be run at its end. -/
def runToEnd : (fuel : Nat) → (text : String) → Run Unit
  | 0, _ => giveUp
  | fuel + 1, text => do
    let result : Except Stop Unit ← ExceptT.mk (Except.ok <$> (runText fuel text).run)
    let st ← get
    match st.traps.lookup 0, finalStatus st result with
    | some action, .exited code =>
      set { st with traps := st.traps.filter (·.1 ≠ 0), status := code }
      runText fuel action
      throw (.ended (.exited code))
    | _, status => throw (.ended status)

end

/-- How many steps a script may take inside one another. -/
def maxDepth : Nat :=
  10000

/-- Starts a shell as a process of its own. -/
def start (name : String) (arguments : List String) (environment : Environment) :
    StateM Disk Finished := do
  let disk ← get
  let st : State := { disk, exported := environment, name, arguments }
  match Launch.ofArguments st name {} arguments with
  | .error complaint =>
    let stderr := launchFailure name complaint
    return { status := .exited 2, stdout := .empty, stderr := stderr.toUTF8 }
  | .ok l =>
    let (result, st) := (runToEnd maxDepth l.text).run (st.forLaunch l)
    set { st.disk with workingDir := disk.workingDir }
    return { status := finalStatus st result, stdout := st.stdout, stderr := st.stderr }

end JobBundler.Shell
