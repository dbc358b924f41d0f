/-! # Dates and times in TOML

A moment is a date, a time of day, or both with an optional offset. Only its form and the ranges of its
parts matter here.

* `Toml.isDate`, `Toml.isTime`, `Toml.isMoment`: the texts that denote moments.
-/

namespace ScriptMachine

namespace Toml

/-- Reads exactly `count` digits as a number. -/
def digits? : (count : Nat) → List Char → Nat → Option (Nat × List Char)
  | 0, cs, n => some (n, cs)
  | count + 1, c :: cs, n =>
    if c.isDigit then digits? count cs (10 * n + (c.toNat - 48)) else none
  | _ + 1, [], _ => none

/-- The number of days of a month. -/
def daysOfMonth (year month : Nat) : Nat :=
  if month == 2 then
    if year % 4 == 0 && (year % 100 != 0 || year % 400 == 0) then 29 else 28
  else if month == 4 || month == 6 || month == 9 || month == 11 then 30
  else 31

/-- Reads a date and returns what follows it. -/
def date? (cs : List Char) : Option (List Char) := do
  let (year, cs) ← digits? 4 cs 0
  let '-' :: cs := cs | none
  let (month, cs) ← digits? 2 cs 0
  let '-' :: cs := cs | none
  let (day, cs) ← digits? 2 cs 0
  if 1 ≤ month && month ≤ 12 && 1 ≤ day && day ≤ daysOfMonth year month then some cs else none

/-- Reads a time of day and returns what follows it. -/
def time? (cs : List Char) : Option (List Char) := do
  let (hour, cs) ← digits? 2 cs 0
  let ':' :: cs := cs | none
  let (minute, cs) ← digits? 2 cs 0
  let ':' :: cs := cs | none
  let (second, cs) ← digits? 2 cs 0
  if 23 < hour || 59 < minute || 60 < second then none
  else
    match cs with
    | '.' :: rest =>
      if (rest.takeWhile Char.isDigit).isEmpty then none else some (rest.dropWhile Char.isDigit)
    | _ => some cs

/-- Whether characters are an offset from universal time, or none. -/
def isOffset : List Char → Bool
  | [] | ['Z'] | ['z'] => true
  | sign :: cs =>
    (sign == '+' || sign == '-') &&
      match digits? 2 cs 0 with
      | some (hour, ':' :: cs) =>
        match digits? 2 cs 0 with
        | some (minute, []) => hour ≤ 23 && minute ≤ 59
        | _ => false
      | _ => false

/-- Whether characters are a date alone. -/
def isDate (cs : List Char) : Bool := date? cs == some []

/-- Whether characters are a time of day with an optional offset. -/
def isZonedTime (cs : List Char) : Bool :=
  match time? cs with
  | some rest => isOffset rest
  | none => false

/-- Whether characters are a date, a time of day, or a date and a time that `T` divides. -/
def isMoment (cs : List Char) : Bool :=
  time? cs == some [] ||
    match date? cs with
    | some [] => true
    | some (mark :: rest) => (mark == 'T' || mark == 't') && isZonedTime rest
    | none => false

end Toml

end ScriptMachine
