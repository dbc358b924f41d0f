import ScriptMachine.Runner.Command

/-! # The command line

Reads the options and the files that they name, runs the command, prints the report on standard output
and the log and the errors on standard error.
-/

namespace ScriptMachine

/-- The description of the command. -/
def helpText : String :=
  "Runs a legacy Neo VM script and prints the outcome as JSON\n\n" ++
  "Usage: neovm [OPTIONS]\n\n" ++
  "Options:\n" ++
  "      --script <HEX>   Script bytes as a hex string\n" ++
  "      --file <PATH>    Reads the script from a file holding raw bytecode or hex text\n" ++
  "      --gas <GAS>      Overrides the configured gas budget\n" ++
  "      --config <PATH>  Path to a TOML file with a gas value and a [limits] table\n" ++
  "      --message <HEX>  Message served to CHECKSIG and CHECKMULTISIG, as hex\n" ++
  "      --trace          Single-steps the script and logs every instruction\n" ++
  "  -h, --help           Print help"

/-- The content of a file, if it can be read. -/
def readFile? (path : String) : IO (Option Bytes) := do
  try
    let content ← IO.FS.readBinFile path
    return some content.data
  catch _ => return none

/-- The values of the variables of the command. -/
def readVariables : IO (List (String × String)) := do
  let mut values := []
  for name in Options.traceVariable :: Options.valued.map (·.2) do
    match ← IO.getEnv name with
    | some value => values := (name, value) :: values
    | none => pure ()
  return values

/-- The contents of the files that the options name. -/
def readFiles (options : Options) : IO (List (String × Bytes)) := do
  let mut contents := []
  for path in options.config.toList ++ options.file.toList do
    match ← readFile? path with
    | some content => contents := (path, content) :: contents
    | none => pure ()
  return contents

end ScriptMachine

open ScriptMachine in
/-- The command. -/
def main (arguments : List String) : IO UInt32 := do
  let environment ← readVariables
  match Options.parse arguments (fun name => environment.lookup name) with
  | none =>
    IO.eprintln "error: unexpected arguments\n\nFor more information, try '--help'."
    return Command.usageExitCode
  | some .help =>
    IO.println helpText
    return 0
  | some (.run options) =>
    let contents ← readFiles options
    let outcome := Command.run options fun path => contents.lookup path
    for line in outcome.log do IO.eprintln line
    if let some report := outcome.report then IO.println report.pretty
    if let some error := outcome.error then
      for line in error.lines do IO.eprintln line
    return outcome.exitCode
