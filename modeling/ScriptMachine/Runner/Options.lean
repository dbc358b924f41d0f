/-! # Options of the command

The command takes options `--name value` or `--name=value`, and a switch `--trace`. An option that is
not given is taken from its variable in the environment.

* `Options.parse`: the options that arguments and environment denote.
-/

namespace ScriptMachine

/-- What the command is asked to run. -/
structure Options where
  /-- The script as hexadecimal text. -/
  script : Option String := none
  /-- The path of a file with the script. -/
  file : Option String := none
  /-- The budget of gas. -/
  gas : Option Nat := none
  /-- The path of a file with the configuration. -/
  config : Option String := none
  /-- The message to sign, as hexadecimal text. -/
  message : Option String := none
  /-- Whether every instruction is logged. -/
  trace : Bool := false
  deriving DecidableEq, Repr, Inhabited

namespace Options

/-- What the arguments ask for. -/
inductive Request where
  /-- A description of the command. -/
  | help
  /-- A run. -/
  | run (options : Options)
  deriving DecidableEq, Repr

/-- The options that take a value, with their variables. -/
def valued : List (String × String) :=
  [("script", "NEOVM_SCRIPT"), ("file", "NEOVM_FILE"), ("gas", "NEOVM_GAS"),
    ("config", "NEOVM_CONFIG"), ("message", "NEOVM_MESSAGE")]

/-- The variable of the switch. -/
def traceVariable : String := "NEOVM_TRACE"

/-- What was found among the arguments: the values by option, and the switch. -/
structure Found where
  /-- The values. -/
  values : List (String × String) := []
  /-- Whether the switch was given. -/
  trace : Bool := false

/-- Whether an argument is a value rather than an option. A single dash is a value. -/
def isValue (argument : String) : Bool :=
  !argument.startsWith "-" || argument == "-"

/-- Splits an argument at its first equals sign. -/
def splitArgument (argument : String) : String × Option String :=
  let cs := argument.toList
  let name := String.ofList (cs.takeWhile (· != '='))
  match cs.dropWhile (· != '=') with
  | [] => (name, none)
  | _ :: value => (name, some (String.ofList value))

/-- The name of an option that takes a value. -/
def optionName? (argument : String) : Option String :=
  (valued.find? fun option => "--" ++ option.1 == argument).map (·.1)

/-- Whether an argument asks for help. -/
def isHelp (argument : String) : Bool := argument == "--help" || argument.startsWith "-h"

/-- Reads arguments from the left. Nothing is returned on an argument that is unknown, repeated or
lacks its value, nor when something follows two dashes; a request for help ends the reading
(`some none`). -/
def scan : List String → Found → Option (Option Found)
  | [], found => some (some found)
  | argument :: rest, found =>
    if isHelp argument then some none
    else if argument == "--" then if rest.isEmpty then some (some found) else none
    else if argument == "--trace" then
      if found.trace then none else scan rest { found with trace := true }
    else
    let (label, attached) := splitArgument argument
    match optionName? label with
    | none => none
    | some name =>
      if (found.values.lookup name).isSome then none
      else
        match attached, rest with
        | some value, rest => scan rest { found with values := (name, value) :: found.values }
        | none, value :: rest =>
          if isValue value then scan rest { found with values := (name, value) :: found.values }
          else none
        | none, [] => none

/-- An unsigned 64-bit number in decimal digits, with an optional plus sign. -/
def gas? (text : String) : Option Nat :=
  let digits :=
    match text.toList with
    | '+' :: rest => rest
    | cs => cs
  if digits.isEmpty || !digits.all Char.isDigit then none
  else
    let n := digits.foldl (fun n c => 10 * n + (c.toNat - 48)) 0
    if n < 0x10000000000000000 then some n else none

/-- Checks an optional value. -/
def checked {α β : Type} (check : α → Option β) : Option α → Option (Option β)
  | none => some none
  | some value => (check value).map some

/-- A path, which must not be empty. -/
def path? (text : String) : Option String := if text.isEmpty then none else some text

/-- A switch in the environment. -/
def switch? (text : String) : Option Bool :=
  if text == "true" then some true else if text == "false" then some false else none

/-- The options that arguments and environment denote, if they are well formed and name at most one
script. -/
def parse (arguments : List String) (environment : String → Option String) : Option Request := do
  match ← scan arguments {} with
  | none => return .help
  | some found =>
    let value (name source : String) : Option String :=
      (found.values.lookup name).orElse fun _ => environment source
    let script := value "script" "NEOVM_SCRIPT"
    let file ← checked path? (value "file" "NEOVM_FILE")
    let gas ← checked gas? (value "gas" "NEOVM_GAS")
    let config ← checked path? (value "config" "NEOVM_CONFIG")
    let message := value "message" "NEOVM_MESSAGE"
    let trace ←
      if found.trace then some true
      else (checked switch? (environment traceVariable)).map (·.getD false)
    if script.isSome && file.isSome then none
    else return .run { script, file, gas, config, message, trace }

end Options

end ScriptMachine
