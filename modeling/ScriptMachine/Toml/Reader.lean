import ScriptMachine.Bytes.Basic
import ScriptMachine.Toml.Basic
import ScriptMachine.Toml.Moment

/-! # Reading TOML

A reader of TOML documents. Every function takes the characters that are left and returns what it has
read with the characters after it; nothing is returned when the text is no TOML.

* `Toml.scalar?`: the value of a word: a truth value, a number or a moment.
* `Toml.readValue?`: a value.
* `Toml.read?`: the document that a text denotes.
-/

namespace ScriptMachine

namespace Toml

/-! ### Blanks and comments -/

/-- Skips blanks within a line. -/
def skipSpace (cs : List Char) : List Char := cs.dropWhile fun c => c == ' ' || c == '\t'

/-- Whether a character is allowed in comments and on one line of a text. -/
def isPlain (c : Char) : Bool := c == '\t' || (32 ≤ c.toNat && c.toNat != 127)

/-- Skips a comment, if one starts here. -/
def skipComment : List Char → List Char
  | '#' :: rest => rest.dropWhile isPlain
  | cs => cs

/-- Reads the end of a line. -/
def lineEnd? : List Char → Option (List Char)
  | '\n' :: rest => some rest
  | '\r' :: '\n' :: rest => some rest
  | _ => none

/-- Skips blanks, comments and ends of lines. -/
def skipLines : (fuel : Nat) → List Char → List Char
  | 0, cs => cs
  | fuel + 1, cs =>
    let rest := skipComment (skipSpace cs)
    match lineEnd? rest with
    | some rest => skipLines fuel rest
    | none => rest

/-! ### Words -/

/-- Whether characters are digits of a base, with single underscores between them. -/
def areDigits (isDigit : Char → Bool) : List Char → Bool
  | [] => false
  | [c] => isDigit c
  | '_' :: _ => false
  | c :: '_' :: rest => isDigit c && areDigits isDigit rest
  | c :: rest => isDigit c && areDigits isDigit rest

/-- The number that digits of a base denote. -/
def valueIn (base : Nat) (digits : List Char) : Nat :=
  digits.foldl (fun n c =>
    if c == '_' then n
    else base * n + ((Bytes.hexValue? (UInt8.ofNat c.toNat)).getD 0).toNat) 0

/-- Whether digits are the integral part of a decimal numeral: no zero leads. -/
def isDecimal (digits : List Char) : Bool :=
  areDigits Char.isDigit digits &&
    match digits with
    | '0' :: _ :: _ => false
    | _ => true

/-- A number, if it has 64 bits. -/
def integer64? (n : Int) : Option Toml :=
  if -0x8000000000000000 ≤ n && n < 0x8000000000000000 then some (.integer n) else none

/-- The value of a numeral with a mark for its base. -/
def based? (base : Nat) (isDigit : Char → Bool) (digits : List Char) : Option Toml :=
  if areDigits isDigit digits then integer64? (valueIn base digits) else none

/-- Whether characters are an exponent. -/
def isExponent : List Char → Bool
  | e :: rest =>
    let digits :=
      match rest with
      | '+' :: ds => ds
      | '-' :: ds => ds
      | _ => rest
    (e == 'e' || e == 'E') && areDigits Char.isDigit digits
  | [] => false

/-- Whether characters are a fraction and an optional exponent, or an exponent alone. -/
def isRealTail : List Char → Bool
  | '.' :: rest =>
    let inFraction := fun c : Char => c.isDigit || c == '_'
    areDigits Char.isDigit (rest.takeWhile inFraction) &&
      ((rest.dropWhile inFraction).isEmpty || isExponent (rest.dropWhile inFraction))
  | cs => isExponent cs

/-- The value of a decimal numeral with an optional sign. -/
def decimal? (word : List Char) : Option Toml :=
  let (negative, cs) :=
    match word with
    | '-' :: cs => (true, cs)
    | '+' :: cs => (false, cs)
    | _ => (false, word)
  if cs == ['i', 'n', 'f'] || cs == ['n', 'a', 'n'] then some .real
  else
    let inNumeral := fun c : Char => c.isDigit || c == '_'
    let digits := cs.takeWhile inNumeral
    let rest := cs.dropWhile inNumeral
    if !isDecimal digits then none
    else if rest.isEmpty then
      let n : Int := valueIn 10 digits
      integer64? (if negative then -n else n)
    else if isRealTail rest then some .real
    else none

/-- Whether a character is a hexadecimal digit. -/
def isHexDigit (c : Char) : Bool :=
  c.isDigit || ('a' ≤ c && c ≤ 'f') || ('A' ≤ c && c ≤ 'F')

/-- The value of a word. -/
def scalar? (word : List Char) : Option Toml :=
  match word with
  | ['t', 'r', 'u', 'e'] => some (.boolean true)
  | ['f', 'a', 'l', 's', 'e'] => some (.boolean false)
  | '0' :: 'x' :: digits => based? 16 isHexDigit digits
  | '0' :: 'o' :: digits => based? 8 (fun c => '0' ≤ c && c ≤ '7') digits
  | '0' :: 'b' :: digits => based? 2 (fun c => c == '0' || c == '1') digits
  | _ => if isMoment word then some .moment else decimal? word

/-- Whether a character can stand in a word. -/
def isWordChar (c : Char) : Bool :=
  c.isAlphanum || c == '_' || c == '+' || c == '-' || c == '.' || c == ':'

/-- Reads a word. A date may be followed by a blank and a time. -/
def readScalar? (cs : List Char) : Option (Toml × List Char) :=
  let word := cs.takeWhile isWordChar
  let rest := cs.dropWhile isWordChar
  match rest with
  | ' ' :: c :: more =>
    if isDate word && c.isDigit then
      if isZonedTime ((c :: more).takeWhile isWordChar) then
        some (.moment, (c :: more).dropWhile isWordChar)
      else none
    else (scalar? word).map (·, rest)
  | _ => (scalar? word).map (·, rest)

/-! ### Texts -/

/-- The character that digits after an escape denote. -/
def escaped? (count : Nat) (cs : List Char) (out : String) : Option (String × List Char) :=
  let digits := cs.take count
  if digits.length == count && digits.all isHexDigit then
    let n := valueIn 16 digits
    if n < 0xD800 || (0xE000 ≤ n && n < 0x110000) then
      some (out.push (Char.ofNat n), cs.drop count)
    else none
  else none

/-- Reads an escape after its backslash. -/
def readEscape? (cs : List Char) (out : String) : Option (String × List Char) :=
  match cs with
  | 'b' :: rest => some (out.push (Char.ofNat 8), rest)
  | 't' :: rest => some (out.push '\t', rest)
  | 'n' :: rest => some (out.push '\n', rest)
  | 'f' :: rest => some (out.push (Char.ofNat 12), rest)
  | 'r' :: rest => some (out.push '\r', rest)
  | '"' :: rest => some (out.push '"', rest)
  | '\\' :: rest => some (out.push '\\', rest)
  | 'u' :: rest => escaped? 4 rest out
  | 'U' :: rest => escaped? 8 rest out
  | _ => none

/-- Reads a text on one line up to its closing mark. -/
def readLineText? (mark : Char) : (fuel : Nat) → List Char → String → Option (String × List Char)
  | 0, _, _ => none
  | fuel + 1, cs, out =>
    match cs with
    | [] => none
    | c :: rest =>
      if c == mark then some (out, rest)
      else if c == '\\' && mark == '"' then
        match readEscape? rest out with
        | some (out, rest) => readLineText? mark fuel rest out
        | none => none
      else if isPlain c then readLineText? mark fuel rest (out.push c)
      else none

/-- Skips blanks and ends of lines after a backslash at the end of a line. -/
def skipFolded : (fuel : Nat) → List Char → List Char
  | 0, cs => cs
  | fuel + 1, cs =>
    let rest := skipSpace cs
    match lineEnd? rest with
    | some rest => skipFolded fuel rest
    | none => rest

/-- Closes a text over several lines: up to two of the marks before the last three belong to it. -/
def closeLines (mark : Char) (cs : List Char) (out : String) : String × List Char :=
  match cs with
  | a :: b :: rest =>
    if a == mark && b == mark then ((out.push mark).push mark, rest)
    else if a == mark then (out.push mark, b :: rest)
    else (out, cs)
  | [a] => if a == mark then (out.push mark, []) else (out, cs)
  | [] => (out, cs)

/-- Reads a text over several lines up to its three closing marks. -/
def readLinesText? (mark : Char) : (fuel : Nat) → List Char → String → Option (String × List Char)
  | 0, _, _ => none
  | fuel + 1, cs, out =>
    match cs with
    | [] => none
    | c :: rest =>
      if c == mark && rest.take 2 == [mark, mark] then some (closeLines mark (rest.drop 2) out)
      else if c == '\\' && mark == '"' then
        match lineEnd? (skipSpace rest) with
        | some folded => readLinesText? mark fuel (skipFolded fuel folded) out
        | none =>
          match readEscape? rest out with
          | some (out, rest) => readLinesText? mark fuel rest out
          | none => none
      else
        match lineEnd? cs with
        | some rest => readLinesText? mark fuel rest (out.push '\n')
        | none => if isPlain c then readLinesText? mark fuel rest (out.push c) else none

/-- Reads a text of any kind after its first mark. -/
def readText? (mark : Char) (cs : List Char) : Option (String × List Char) :=
  if cs.take 2 == [mark, mark] then
    let body := cs.drop 2
    let body := (lineEnd? body).getD body
    readLinesText? mark (body.length + 1) body ""
  else readLineText? mark (cs.length + 1) cs ""

/-! ### Keys -/

/-- Whether a character can stand in a bare key. -/
def isKeyChar (c : Char) : Bool := c.isAlphanum || c == '_' || c == '-'

/-- Reads one part of a key. -/
def readKeyPart? (cs : List Char) : Option (String × List Char) :=
  match cs with
  | '"' :: rest => readLineText? '"' (rest.length + 1) rest ""
  | '\'' :: rest => readLineText? '\'' (rest.length + 1) rest ""
  | _ =>
    let part := cs.takeWhile isKeyChar
    if part.isEmpty then none else some (String.ofList part, cs.dropWhile isKeyChar)

/-- Reads a key: its parts before the last one, the last one, and what follows it. -/
def readKey? : (fuel : Nat) → List Char → List String → Option (List String × String × List Char)
  | 0, _, _ => none
  | fuel + 1, cs, before =>
    match readKeyPart? (skipSpace cs) with
    | none => none
    | some (part, rest) =>
      match skipSpace rest with
      | '.' :: rest => readKey? fuel rest (before ++ [part])
      | rest => some (before, part, rest)

/-! ### Values -/

mutual

/-- Reads a value. -/
def readValue? : (fuel : Nat) → List Char → Option (Toml × List Char)
  | 0, _ => none
  | fuel + 1, cs =>
    match cs with
    | '"' :: rest => (readText? '"' rest).map fun r => (.text r.1, r.2)
    | '\'' :: rest => (readText? '\'' rest).map fun r => (.text r.1, r.2)
    | '[' :: rest => readItems? fuel rest []
    | '\x7b' :: rest =>
      match skipSpace rest with
      | '\x7d' :: rest => some (.table .inline [], rest)
      | rest => readEntries? fuel rest (.table .implied [])
    | _ => readScalar? cs

/-- Reads the items of a list up to its end; the items before are given, the latest one first. -/
def readItems? : (fuel : Nat) → List Char → List Toml → Option (Toml × List Char)
  | 0, _, _ => none
  | fuel + 1, cs, before =>
    match skipLines (cs.length + 1) cs with
    | ']' :: rest => some (.list before.reverse, rest)
    | cs =>
      match readValue? fuel cs with
      | none => none
      | some (x, rest) =>
        match skipLines (rest.length + 1) rest with
        | ',' :: rest => readItems? fuel rest (x :: before)
        | ']' :: rest => some (.list (x :: before).reverse, rest)
        | _ => none

/-- Reads the entries of a table between braces up to its end and adds them to those before. -/
def readEntries? : (fuel : Nat) → List Char → Toml → Option (Toml × List Char)
  | 0, _, _ => none
  | fuel + 1, cs, before =>
    match readKey? (cs.length + 1) cs [] with
    | some (path, name, '=' :: rest) =>
      match readValue? fuel (skipSpace rest) with
      | none => none
      | some (x, rest) =>
        match define path name x before, skipSpace rest with
        | some t, ',' :: rest => readEntries? fuel rest t
        | some t, '\x7d' :: rest => some (.table .inline t.entries, rest)
        | _, _ => none
    | _ => none

end

/-! ### Documents -/

/-- A document under way: what was read, and the path of the table that is open. -/
structure Draft where
  /-- The document so far. -/
  document : Toml := .empty
  /-- The path of the open table. -/
  current : List String := []

/-- Reads the end of a line, possibly after a comment; the end of the document ends a line too. -/
def endOfLine? (cs : List Char) : Option (List Char) :=
  match skipComment (skipSpace cs) with
  | [] => some []
  | cs => lineEnd? cs

/-- Reads one line that is not blank. -/
def readLine? (d : Draft) (cs : List Char) : Option (Draft × List Char) :=
  match cs with
  | '[' :: '[' :: rest =>
    match readKey? (rest.length + 1) rest [] with
    | some (path, name, ']' :: ']' :: rest) => do
      let document ← openElement path name d.document
      let rest ← endOfLine? rest
      some (⟨document, path ++ [name]⟩, rest)
    | _ => none
  | '[' :: rest =>
    match readKey? (rest.length + 1) rest [] with
    | some (path, name, ']' :: rest) => do
      let document ← openTable path name d.document
      let rest ← endOfLine? rest
      some (⟨document, path ++ [name]⟩, rest)
    | _ => none
  | _ =>
    match readKey? (cs.length + 1) cs [] with
    | some (path, name, '=' :: rest) => do
      let (x, rest) ← readValue? (2 * rest.length + 2) (skipSpace rest)
      let document ← defineIn d.current path name x d.document
      let rest ← endOfLine? rest
      some ({ d with document }, rest)
    | _ => none

/-- Reads lines up to the end of the text. -/
def readLines? : (fuel : Nat) → Draft → List Char → Option Toml
  | 0, _, _ => none
  | fuel + 1, d, cs =>
    match skipLines (cs.length + 1) cs with
    | [] => some d.document
    | cs =>
      match readLine? d cs with
      | none => none
      | some (d, rest) => readLines? fuel d rest

/-- The document that a text denotes; a byte order mark in front of it is skipped. -/
def read? (text : String) : Option Toml :=
  let cs := text.toList
  let cs :=
    match cs with
    | c :: rest => if c.toNat == 0xFEFF then rest else cs
    | [] => cs
  readLines? (cs.length + 1) {} cs

end Toml

end ScriptMachine
