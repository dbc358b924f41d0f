import ScriptMachine.Json.Basic
import ScriptMachine.Bytes.Basic

/-! # Reading JSON

A reader of JSON text. Every function takes the characters that are left and returns what it has read
with the characters after it. The nesting is bounded by the length of the text.

* `Json.read?`: the value that a text denotes.
-/

namespace ScriptMachine

namespace Json

/-- Skips white space. -/
def skipBlanks (cs : List Char) : List Char :=
  cs.dropWhile fun c => c == ' ' || c == '\t' || c == '\n' || c == '\r'

/-- The value of four hexadecimal digits. -/
def readUnit? : List Char → Option (Nat × List Char)
  | a :: b :: c :: d :: rest =>
    [a, b, c, d].foldlM (fun n ch =>
      if ch.toNat < 128 then (Bytes.hexValue? (UInt8.ofNat ch.toNat)).map fun v => 16 * n + v.toNat
      else none) 0 |>.map (·, rest)
  | _ => none

/-- Reads the rest of a text after its opening quote; `out` is what was read before. -/
def readText? : (fuel : Nat) → List Char → String → Option (String × List Char)
  | 0, _, _ => none
  | fuel + 1, cs, out =>
    match cs with
    | [] => none
    | '"' :: rest => some (out, rest)
    | '\\' :: 'u' :: rest =>
      match readUnit? rest with
      | none => none
      | some (high, rest) =>
        if 0xD800 ≤ high && high < 0xDC00 then
          match rest with
          | '\\' :: 'u' :: rest =>
            match readUnit? rest with
            | some (low, rest) =>
              if 0xDC00 ≤ low && low < 0xE000 then
                readText? fuel rest
                  (out.push (Char.ofNat (0x10000 + 0x400 * (high - 0xD800) + (low - 0xDC00))))
              else none
            | none => none
          | _ => none
        else if 0xDC00 ≤ high && high < 0xE000 then none
        else readText? fuel rest (out.push (Char.ofNat high))
    | '\\' :: c :: rest =>
      match c with
      | '"' | '\\' | '/' => readText? fuel rest (out.push c)
      | 'b' => readText? fuel rest (out.push (Char.ofNat 8))
      | 'f' => readText? fuel rest (out.push (Char.ofNat 12))
      | 'n' => readText? fuel rest (out.push '\n')
      | 'r' => readText? fuel rest (out.push '\r')
      | 't' => readText? fuel rest (out.push '\t')
      | _ => none
    | c :: rest => if c.toNat < 32 then none else readText? fuel rest (out.push c)

/-- The number that decimal digits denote. -/
def decimalValue (digits : List Char) : Nat :=
  digits.foldl (fun n c => 10 * n + (c.toNat - 48)) 0

/-- Whether digits are the integral part of a numeral: no zero leads. -/
def isIntegral : List Char → Bool
  | [] => false
  | ['0'] => true
  | '0' :: _ => false
  | _ => true

/-- Whether characters are the fraction and the exponent of a numeral. -/
def isTail (cs : List Char) : Bool :=
  let afterFraction :=
    match cs with
    | '.' :: rest => if (rest.takeWhile Char.isDigit).isEmpty then ['.'] else rest.dropWhile Char.isDigit
    | _ => cs
  match afterFraction with
  | [] => true
  | e :: rest =>
    let digits :=
      match rest with
      | '+' :: ds => ds
      | '-' :: ds => ds
      | _ => rest
    (e == 'e' || e == 'E') && !digits.isEmpty && digits.all Char.isDigit

/-- The value of a numeral. -/
def number? (numeral : List Char) : Option Json :=
  let (negative, cs) :=
    match numeral with
    | '-' :: cs => (true, cs)
    | _ => (false, numeral)
  let digits := cs.takeWhile Char.isDigit
  let rest := cs.dropWhile Char.isDigit
  if !isIntegral digits then none
  else if rest.isEmpty then
    let n := decimalValue digits
    if !negative then some (.integer n)
    else if n == 0 then some (.real (String.ofList numeral))
    else some (.integer (-n))
  else if isTail rest then some (.real (String.ofList numeral))
  else none

/-- Whether a character can stand in a numeral. -/
def isNumeralChar (c : Char) : Bool :=
  c.isDigit || c == '-' || c == '+' || c == '.' || c == 'e' || c == 'E'

mutual

/-- Reads a value. -/
def readValue? : (fuel : Nat) → List Char → Option (Json × List Char)
  | 0, _ => none
  | fuel + 1, cs =>
    match skipBlanks cs with
    | 'n' :: 'u' :: 'l' :: 'l' :: rest => some (.null, rest)
    | 't' :: 'r' :: 'u' :: 'e' :: rest => some (.boolean true, rest)
    | 'f' :: 'a' :: 'l' :: 's' :: 'e' :: rest => some (.boolean false, rest)
    | '"' :: rest => (readText? (rest.length + 1) rest "").map fun r => (.text r.1, r.2)
    | '[' :: rest =>
      match skipBlanks rest with
      | ']' :: rest => some (.list [], rest)
      | rest => readItems? fuel rest []
    | '\x7b' :: rest =>
      match skipBlanks rest with
      | '\x7d' :: rest => some (.object [], rest)
      | rest => readFields? fuel rest []
    | rest =>
      (number? (rest.takeWhile isNumeralChar)).map (·, rest.dropWhile isNumeralChar)

/-- Reads the items of a list up to its end; the items before are given, the latest one first. -/
def readItems? : (fuel : Nat) → List Char → List Json → Option (Json × List Char)
  | 0, _, _ => none
  | fuel + 1, cs, before =>
    match readValue? fuel cs with
    | none => none
    | some (x, rest) =>
      match skipBlanks rest with
      | ',' :: rest => readItems? fuel rest (x :: before)
      | ']' :: rest => some (.list (x :: before).reverse, rest)
      | _ => none

/-- Reads the fields of an object up to its end; the fields before are given, the latest one first. -/
def readFields? : (fuel : Nat) → List Char → List (String × Json) → Option (Json × List Char)
  | 0, _, _ => none
  | fuel + 1, cs, before =>
    match skipBlanks cs with
    | '"' :: rest =>
      match readText? (rest.length + 1) rest "" with
      | none => none
      | some (name, rest) =>
        match skipBlanks rest with
        | ':' :: rest =>
          match readValue? fuel rest with
          | none => none
          | some (x, rest) =>
            match skipBlanks rest with
            | ',' :: rest => readFields? fuel rest ((name, x) :: before)
            | '\x7d' :: rest => some (.object ((name, x) :: before).reverse, rest)
            | _ => none
        | _ => none
    | _ => none

end

/-- The value that a text denotes. -/
def read? (text : String) : Option Json :=
  let cs := text.toList
  match readValue? (2 * cs.length + 2) cs with
  | some (j, rest) => if (skipBlanks rest).isEmpty then some j else none
  | none => none

end Json

end ScriptMachine
