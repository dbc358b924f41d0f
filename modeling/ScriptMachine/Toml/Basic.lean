/-! # TOML documents

The values of TOML, and the rules by which tables may be written piecewise. A document adds entries
under dotted keys and opens tables by headers; what was written once cannot be written again.

* `Toml.descend`: changes the table at the end of a path.
* `Toml.define`: adds an entry under a dotted key.
* `Toml.openTable`, `Toml.openElement`: the effect of a header.
-/

namespace ScriptMachine

/-- How a table came to be, which decides what may be added to it. -/
inductive TableForm where
  /-- Written between braces, and thereby complete. -/
  | inline
  /-- Opened by its own header, or the document itself. -/
  | header
  /-- Passed through by a longer header. -/
  | implied
  /-- Passed through by a dotted key. -/
  | dotted
  deriving DecidableEq, Repr, Inhabited

/-- A TOML value. -/
inductive Toml where
  /-- A truth value. -/
  | boolean (value : Bool)
  /-- An integer. -/
  | integer (value : Int)
  /-- Any other number. -/
  | real
  /-- A date, a time, or both. -/
  | moment
  /-- A text. -/
  | text (value : String)
  /-- A list of values. -/
  | list (items : List Toml)
  /-- A table. -/
  | table (form : TableForm) (entries : List (String × Toml))
  /-- A list of tables that were opened by headers, the latest one first. -/
  | tables (items : List Toml)
  deriving Repr, Inhabited

namespace Toml

/-- A document without entries. -/
def empty : Toml := .table .header []

/-- The entries of a table; nothing else has any. -/
def entries : Toml → List (String × Toml)
  | .table _ entries => entries
  | _ => []

/-- The value under a name. -/
def get? (t : Toml) (name : String) : Option Toml := t.entries.lookup name

/-- Puts a value under a name, in the place of the one that stands there. -/
def put (entries : List (String × Toml)) (name : String) (value : Toml) : List (String × Toml) :=
  if entries.any (·.1 == name) then
    entries.map fun entry => if entry.1 == name then (name, value) else entry
  else entries ++ [(name, value)]

/-- Changes the table at the end of a path. Tables that are missing on the way are made, with the given
form. Dotted keys pass through no table that was opened by a header, and nothing passes through a
complete table. -/
def descend (form : TableForm) (change : Toml → Option Toml) : List String → Toml → Option Toml
  | [], t => change t
  | name :: path, .table own entries =>
    match entries.lookup name with
    | none => (descend form change path (.table form [])).map (.table own <| put entries name ·)
    | some (.table child rest) =>
      if child = .inline || (form = .dotted && child = .header) then none
      else (descend form change path (.table child rest)).map (.table own <| put entries name ·)
    | some (.tables (latest :: earlier)) =>
      (descend form change path latest).map fun latest =>
        .table own (put entries name (.tables (latest :: earlier)))
    | some _ => none
  | _ :: _, _ => none

/-- Adds an entry that is not there yet. -/
def add (name : String) (value : Toml) : Toml → Option Toml
  | .table form entries =>
    if entries.any (·.1 == name) then none else some (.table form (put entries name value))
  | _ => none

/-- Adds an entry under a dotted key, given by the names before the last one and the last one. -/
def define (path : List String) (name : String) (value : Toml) (t : Toml) : Option Toml :=
  let place : Toml → Option Toml
    | .table form entries =>
      if !path.isEmpty && form ≠ .dotted then none else add name value (.table form entries)
    | _ => none
  descend .dotted place path t

/-- Opens the table that a header names. A table is opened once, but it may have been passed through by
longer headers before. -/
def openTable (path : List String) (name : String) (document : Toml) : Option Toml :=
  let place : Toml → Option Toml
    | .table form entries =>
      match entries.lookup name with
      | none => some (.table form (put entries name (.table .header [])))
      | some (.table .implied rest) =>
        some (.table form (put entries name (.table .header rest)))
      | some _ => none
    | _ => none
  descend .implied place path document

/-- Opens another table in the list that a header names. -/
def openElement (path : List String) (name : String) (document : Toml) : Option Toml :=
  let place : Toml → Option Toml
    | .table form entries =>
      match entries.lookup name with
      | none => some (.table form (put entries name (.tables [.table .header []])))
      | some (.tables items) =>
        some (.table form (put entries name (.tables (.table .header [] :: items))))
      | some _ => none
    | _ => none
  descend .implied place path document

/-- Adds an entry in the table that the latest header opened. -/
def defineIn (current path : List String) (name : String) (value : Toml) (document : Toml) :
    Option Toml :=
  descend .implied (define path name value) current document

end Toml

end ScriptMachine
