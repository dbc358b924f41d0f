import ScriptMachine.Runner.LimitsTable
import ScriptMachine.Toml.Reader

/-! # Configuration of runs

A configuration is a budget of gas and the limits of the machine. It is written as a TOML document with
a number `gas` and a table `limits`, both optional.

* `Config.ofText?`: the configuration that a text denotes.
-/

namespace ScriptMachine

/-- The configuration of a run. -/
structure Config where
  /-- The budget of gas. -/
  gas : Nat := 10000000
  /-- The bounds of the machine. -/
  limits : Limits := .default
  deriving DecidableEq, Repr, Inhabited

namespace Config

/-- The configuration that a document denotes; unknown names are ignored. -/
def ofToml? (document : Toml) : Option Config := do
  let gas ←
    match document.get? "gas" with
    | none => some (Config.gas {})
    | some (.integer n) => Limits.size? n
    | some _ => none
  let limits ←
    match document.get? "limits" with
    | none => some Limits.default
    | some table => Limits.ofToml? table
  return { gas, limits }

/-- The configuration that a text denotes. -/
def ofText? (text : String) : Option Config := do ofToml? (← Toml.read? text)

end Config

end ScriptMachine
