import ScriptMachine.Bytes.Utf8
import ScriptMachine.Engine.Step
import ScriptMachine.Runner.Config
import ScriptMachine.Runner.Options
import ScriptMachine.Runner.Report
import ScriptMachine.Text.HexText

/-! # The command

The command runs one script and reports the outcome. It serves one host service, which logs the item on
the top of the stack.

* `Command.service`: the service handler.
* `Command.traced`: a run that logs every instruction.
* `Command.run`: from options and files to an outcome.
-/

namespace ScriptMachine

namespace Command

/-! ### Errors -/

/-- Why the command fails. -/
inductive Error where
  /-- The configuration cannot be read. -/
  | configUnread (path : String)
  /-- The configuration is malformed. -/
  | configRejected (path : String)
  /-- The script on the command line is malformed. -/
  | scriptText (cause : Bytes.HexError)
  /-- The script cannot be read. -/
  | scriptUnread (path : String)
  /-- There is no script. -/
  | noScript
  /-- The message is malformed. -/
  | messageText (cause : Bytes.HexError)
  /-- The script cannot be loaded. -/
  | notLoaded (cause : Fault)
  /-- The run did not halt. -/
  | ended (status : Status)
  deriving DecidableEq, Repr

namespace Error

/-- What failed. -/
def summary : Error → String
  | configUnread path => "Failed to read config file " ++ path
  | configRejected path => "Failed to parse config file " ++ path
  | scriptText _ => "--script is not valid hex"
  | scriptUnread path => "Failed to read " ++ path
  | noScript => "either --script or --file is required"
  | messageText _ => "--message is not valid hex"
  | notLoaded cause => "failed to load script: " ++ cause.message
  | ended status => "execution ended in " ++ status.name

/-- Why it failed, where that is not said already. -/
def cause? : Error → Option String
  | configUnread _ | scriptUnread _ => some "No such file or directory (os error 2)"
  | configRejected _ => some "TOML parse error"
  | scriptText cause | messageText cause => some cause.message
  | noScript | notLoaded _ | ended _ => none

/-- The lines that tell of an error. -/
def lines (e : Error) : List String :=
  ("Error: " ++ e.summary) ::
    match e.cause? with
    | none => []
    | some cause => ["", "Caused by:", cause]

end Error

/-! ### The log -/

/-- The weight of a line of the log. -/
inductive Level where
  /-- The course of events. -/
  | info
  /-- Something is odd. -/
  | warn
  /-- Something failed. -/
  | error
  deriving DecidableEq, Repr

/-- The name of a level. -/
def Level.name : Level → String
  | info => "INFO"
  | warn => "WARN"
  | error => "ERROR"

/-- A line of the log: its level, the part of the command that speaks, and what it says. -/
def logLine (level : Level) (speaker text : String) : String :=
  level.name ++ " " ++ speaker ++ ": " ++ text

/-- The lines of the notes of a host, in the order in which the notes were taken. -/
def notes (journal : List Event) : List String :=
  journal.reverse.flatMap fun
    | .note text => text.splitOn "\n"
    | _ => []

/-! ### The host service -/

/-- The name of the logging service. -/
def logService : Bytes := Bytes.ofText "Neo.Runtime.Log"

/-- An item in the log: byte strings as text where they are one, all else as JSON. -/
def describe (h : Heap) : Item → String
  | .bytes _ data => (Utf8.text? data).getD data.toHex
  | x => (Report.item h x).compact

/-- The service handler: pops an item and logs it; all other services are unknown. -/
def service : InteropHandler := fun name =>
  if name != logService then
    .request (.note (logLine .warn "neovm" ("unknown interop " ++ Utf8.lossyText name))) fun _ =>
      .answer false
  else
    .request .pop fun
      | .item x =>
        .inspect fun s =>
          .request (.note (logLine .info "neovm::runtime" (describe s.heap x))) fun _ =>
            .answer true
      | .failed .noCurrentFrame => .answer false
      | .failed cause =>
        .request (.note (logLine .warn "neovm" ("Neo.Runtime.Log: " ++ cause.message))) fun _ =>
          .answer false
      | _ => .answer false

/-- The machine of a run. -/
def machine (config : Config) (message : Option Bytes) : Engine :=
  let e := Engine.new config.limits .standard
  { e with
    interop := some service
    state := { e.state with message := message.map fun data _ => data } }

/-! ### Runs -/

/-- The line that announces the next instruction, if a frame is left. -/
def announce (e : Engine) : List String :=
  match e.state.currentFrame? with
  | none => []
  | some f =>
    let name :=
      match f.currentByte? with
      | none => "RET (end of script)"
      | some byte => (OpCode.ofByte? byte).elim (Fault.byteText byte) OpCode.name
    let depth := e.depth
    let position := f.cursor
    let gas := e.state.session.gasConsumed
    [logLine .info "neovm::trace" (name ++ s!" depth={depth} position={position} gas={gas}")]

/-- The notes that were taken in the step from one machine to the next. -/
def newNotes (earlier later : Engine) : List String :=
  notes (later.state.journal.take (later.state.journal.length - earlier.state.journal.length))

/-- Steps until the machine has ended, at most `fuel` times, and logs every instruction. -/
def tracedWithin : (fuel : Nat) → Engine → List String → Engine × List String
  | 0, e, log => (e, log)
  | fuel + 1, e, log =>
    let next := e.step
    let log := (newNotes e next).reverse ++ (announce e).reverse ++ log
    if next.status.isFinal then
      (next, logLine .info "neovm::trace" ("stopped in " ++ next.status.name) :: log)
    else tracedWithin fuel next log

/-- Runs with a budget of gas and logs every instruction. -/
def traced (e : Engine) (gas : Nat) : Engine × List String :=
  let e := e.modifyState (·.setGasLimit gas)
  let (e, log) := tracedWithin e.stepBudget e []
  (e, log.reverse)

/-- Runs with a budget of gas and logs the notes of the host. -/
def plain (e : Engine) (gas : Nat) : Engine × List String :=
  let e := e.execute gas
  (e, notes e.state.journal)

/-! ### The command -/

/-- What the command leaves behind. -/
structure Outcome where
  /-- The report, if there was a run. -/
  report : Option Json := none
  /-- The lines of the log. -/
  log : List String := []
  /-- Why the command failed, if it did. -/
  error : Option Error := none
  deriving Repr

/-- The exit code: zero for success, one for a failure. -/
def Outcome.exitCode (o : Outcome) : UInt32 := if o.error.isSome then 1 else 0

/-- The exit code for options that are not understood. -/
def usageExitCode : UInt32 := 2

/-- The content of a file by its path, if the file exists. -/
abbrev Files := String → Option Bytes

/-- The configuration that the options ask for. -/
def config (options : Options) (files : Files) : Except Error Config := do
  let config ←
    match options.config with
    | none => .ok {}
    | some path =>
      match (files path).bind Utf8.text? with
      | none => .error (.configUnread path)
      | some text =>
        match Config.ofText? text with
        | none => .error (.configRejected path)
        | some config => .ok config
  return { config with gas := options.gas.getD config.gas }

/-- The script in a file: hexadecimal text is decoded, anything else is the script itself. -/
def scriptOfFile (content : Bytes) : Bytes :=
  match Utf8.text? content with
  | none => content
  | some text =>
    match Text.readHex text with
    | .ok data => data
    | .error _ => content

/-- The script that the options ask for. -/
def script (options : Options) (files : Files) : Except Error Bytes :=
  match options.script, options.file with
  | some text, _ => (Text.readHex text).mapError .scriptText
  | none, some path =>
    match files path with
    | none => .error (.scriptUnread path)
    | some content => .ok (scriptOfFile content)
  | none, none => .error .noScript

/-- The message that the options give. -/
def message (options : Options) : Except Error (Option Bytes) :=
  match options.message with
  | none => .ok none
  | some text => ((Text.readHex text).mapError .messageText).map some

/-- Loads and runs a script. -/
def runScript (config : Config) (script : Bytes) (message : Option Bytes) (trace : Bool) :
    Outcome :=
  let length := script.size
  let gas := config.gas
  let start :=
    logLine .info "neovm" (s!"running {length} byte script with gas budget {gas}")
  let e := machine config message
  match e.state.loadScript script returnAll with
  | (.error cause, _) =>
    { log := [start, logLine .error "neovm" ("failed to load script: " ++ cause.message)]
      error := some (.notLoaded cause) }
  | (.ok _, state) =>
    let e := { e with state }
    let (e, log) := if trace then traced e gas else plain e gas
    { report := some (Report.ofState e.state)
      log := start :: log
      error := if e.status.isHalted then none else some (.ended e.status) }

/-- Carries out a request for a run. -/
def run (options : Options) (files : Files) : Outcome :=
  let inputs := do
    let config ← config options files
    let script ← script options files
    let message ← message options
    return (config, script, message)
  match inputs with
  | .error error => { error := some error }
  | .ok (config, script, message) => runScript config script message options.trace

end Command

end ScriptMachine
