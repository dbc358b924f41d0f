import ScriptMachine.Json.Basic
import ScriptMachine.Bytes.Basic

/-! # JSON text

Two ways to write a JSON value: on one line without blanks, and over several lines with an indentation
of two blanks for every level.

* `Json.compact`: one line.
* `Json.pretty`: several lines.
-/

namespace ScriptMachine

namespace Json

/-- Writes a character of a text: quotes, backslashes and control characters are escaped. -/
def writeChar (out : String) (c : Char) : String :=
  if c == '"' then out ++ "\\\""
  else if c == '\\' then out ++ "\\\\"
  else if c == '\n' then out ++ "\\n"
  else if c == '\r' then out ++ "\\r"
  else if c == '\t' then out ++ "\\t"
  else if c.toNat == 8 then out ++ "\\b"
  else if c.toNat == 12 then out ++ "\\f"
  else if c.toNat < 32 then out ++ "\\u00" ++ Bytes.toHex #[UInt8.ofNat c.toNat]
  else out.push c

/-- Writes a text in quotes. -/
def writeText (out : String) (s : String) : String :=
  (s.toList.foldl writeChar (out.push '"')).push '"'

mutual

/-- Writes a value on one line. -/
def writeCompact (out : String) : Json → String
  | .null => out ++ "null"
  | .boolean value => out ++ if value then "true" else "false"
  | .integer value => out ++ s!"{value}"
  | .real numeral => out ++ numeral
  | .text value => writeText out value
  | .list items => (writeCompactItems (out.push '[') true items).push ']'
  | .object fields => (writeCompactFields (out.push '\x7b') true fields).push '\x7d'

/-- Writes the items of a list on one line. -/
def writeCompactItems (out : String) (first : Bool) : List Json → String
  | [] => out
  | x :: rest =>
    writeCompactItems (writeCompact (if first then out else out.push ',') x) false rest

/-- Writes the fields of an object on one line. -/
def writeCompactFields (out : String) (first : Bool) : List (String × Json) → String
  | [] => out
  | (name, x) :: rest =>
    let out := (writeText (if first then out else out.push ',') name).push ':'
    writeCompactFields (writeCompact out x) false rest

end

/-- A value on one line. -/
def compact (j : Json) : String := writeCompact "" j

/-- Starts a line at a level of indentation. -/
def writeLine (out : String) (level : Nat) : String :=
  (List.replicate (2 * level) ' ').foldl String.push (out.push '\n')

mutual

/-- Writes a value over several lines. -/
def writePretty (out : String) (level : Nat) : Json → String
  | .list [] => out ++ "[]"
  | .list (x :: rest) =>
    (writeLine (writePrettyItems (out.push '[') (level + 1) true (x :: rest)) level).push ']'
  | .object [] => out ++ "\x7b\x7d"
  | .object (x :: rest) =>
    (writeLine (writePrettyFields (out.push '\x7b') (level + 1) true (x :: rest)) level).push
      '\x7d'
  | .null => out ++ "null"
  | .boolean value => out ++ if value then "true" else "false"
  | .integer value => out ++ s!"{value}"
  | .real numeral => out ++ numeral
  | .text value => writeText out value

/-- Writes the items of a list, each on lines of its own. -/
def writePrettyItems (out : String) (level : Nat) (first : Bool) : List Json → String
  | [] => out
  | x :: rest =>
    let out := writeLine (if first then out else out.push ',') level
    writePrettyItems (writePretty out level x) level false rest

/-- Writes the fields of an object, each on lines of its own. -/
def writePrettyFields (out : String) (level : Nat) (first : Bool) :
    List (String × Json) → String
  | [] => out
  | (name, x) :: rest =>
    let out := writeText (writeLine (if first then out else out.push ',') level) name ++ ": "
    writePrettyFields (writePretty out level x) level false rest

end

/-- A value over several lines. -/
def pretty (j : Json) : String := writePretty "" 0 j

end Json

end ScriptMachine
