import ScriptMachine.Json.Basic
import ScriptMachine.Limits
import ScriptMachine.Toml.Basic

/-! # Limits by name

Limits are written as a table of named numbers, or as a list of the numbers in the order of the names.
Names that are missing keep their defaults, and unknown names are ignored.

* `Limits.fields`: the numbers with their names.
* `Limits.ofJson?`, `Limits.ofToml?`: the limits that a value denotes.
-/

namespace ScriptMachine

namespace Limits

/-- The bounds with their names. -/
def fields (l : Limits) : List (String × Int) :=
  [("max_stack_size", l.maxStackSize), ("max_item_size", l.maxItemSize),
    ("max_invocation_stack_size", l.maxInvocationStackSize), ("max_array_size", l.maxArraySize),
    ("max_big_integer_size", l.maxBigIntegerSize), ("max_shl_shr", l.maxShift),
    ("min_shl_shr", l.minShift), ("max_syscall_name_size", l.maxSyscallNameSize)]

/-- The names in their order. -/
def names : List String := Limits.default.fields.map (·.1)

/-- What is written for a bound. -/
inductive Entry where
  /-- Nothing. -/
  | missing
  /-- A number. -/
  | number (n : Int)
  /-- Something else. -/
  | other
  deriving DecidableEq, Repr

/-- A size, if it has 64 bits. -/
def size? (n : Int) : Option Nat := if 0 ≤ n && n ≤ maxUInt64 then some n.toNat else none

/-- A shift amount, if it has 32 bits. -/
def shift? (n : Int) : Option Int := if -0x80000000 ≤ n && n < 0x80000000 then some n else none

/-- Sets the bound with a name; an unknown name changes nothing. -/
def assign (l : Limits) (name : String) (n : Int) : Option Limits :=
  match name with
  | "max_stack_size" => (size? n).map fun v => { l with maxStackSize := v }
  | "max_item_size" => (size? n).map fun v => { l with maxItemSize := v }
  | "max_invocation_stack_size" => (size? n).map fun v => { l with maxInvocationStackSize := v }
  | "max_array_size" => (size? n).map fun v => { l with maxArraySize := v }
  | "max_big_integer_size" => (size? n).map fun v => { l with maxBigIntegerSize := v }
  | "max_shl_shr" => (shift? n).map fun v => { l with maxShift := v }
  | "min_shl_shr" => (shift? n).map fun v => { l with minShift := v }
  | "max_syscall_name_size" => (size? n).map fun v => { l with maxSyscallNameSize := v }
  | _ => some l

/-- Sets bounds as written, one after the other. -/
def ofEntries (entries : List (String × Entry)) : Option Limits :=
  entries.foldlM (fun l entry =>
    match entry.2 with
    | .missing => some l
    | .number n => l.assign entry.1 n
    | .other => none) Limits.default

/-- The entries of a table. -/
def entriesByName (lookup : String → Entry) : List (String × Entry) :=
  names.map fun name => (name, lookup name)

/-- The entries of a list. -/
def entriesInOrder (items : List Entry) : List (String × Entry) := names.zip items

/-- What a JSON value says of a bound. -/
def Entry.ofJson : Json → Entry
  | .integer n => .number n
  | _ => .other

/-- The limits that a JSON value denotes; a list must not be longer than the list of names. -/
def ofJson? : Json → Option Limits
  | .list items =>
    if items.length ≤ names.length then ofEntries (entriesInOrder (items.map Entry.ofJson))
    else none
  | .object fields =>
    ofEntries (entriesByName fun name =>
      ((Json.object fields).get? name).elim .missing Entry.ofJson)
  | _ => none

/-- What a TOML value says of a bound. -/
def Entry.ofToml : Toml → Entry
  | .integer n => .number n
  | _ => .other

/-- The limits that a TOML value denotes. Items of a list past the last name are ignored, and a moment
is a table without known names. -/
def ofToml? : Toml → Option Limits
  | .list items => ofEntries (entriesInOrder (items.map Entry.ofToml))
  | .tables items => ofEntries (entriesInOrder (items.map Entry.ofToml))
  | .table _ entries =>
    ofEntries (entriesByName fun name => (entries.lookup name).elim .missing Entry.ofToml)
  | .moment => some Limits.default
  | _ => none

end Limits

end ScriptMachine
