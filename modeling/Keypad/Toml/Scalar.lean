import Keypad.Decimal.Numeral
import Keypad.Json.Parser
import Keypad.Toml.Basic

/-!
# Texts, numbers and dates of TOML

Readers for the values that hold no others.  Each takes a text from its front and gives back what
follows.

## Main definitions

* `Toml.quoted?`: the four kinds of quoted text
* `Toml.number?`: numbers, whole or not, and dates and times
-/

namespace Keypad.Toml

/-- Blanks within a line. -/
def isBlank (c : Char) : Bool := c == ' ' || c == '\t'

/-- Characters that may stand for themselves: all but the control characters. -/
def isPlain (c : Char) : Bool := c == '\t' || (decide (0x20 ≤ c.toNat) && c.toNat != 0x7F)

def skipBlanks (t : Text) : Text := t.dropWhile isBlank

/-- What follows a line break. -/
def newline? : Text → Option Text
  | '\n' :: rest => some rest
  | '\r' :: '\n' :: rest => some rest
  | _ => none

/-! ## Quoted texts -/

/-- The character of a one-letter escape. -/
def shortEscape? : Char → Option Char
  | 'b' => some '\x08'
  | 't' => some '\t'
  | 'n' => some '\n'
  | 'f' => some '\x0c'
  | 'r' => some '\r'
  | '"' => some '"'
  | '\\' => some '\\'
  | _ => none

/-- The character with a code given in hexadecimal digits. -/
def coded? (digits : Text) : Option Char := do
  let n ← Json.hexNumber? digits
  if n < 0xD800 ∨ (0xE000 ≤ n ∧ n < 0x110000) then return Char.ofNat n else none

/-- A text in double quotes on one line, after its opening quote. -/
def basic? : Text → Option (Text × Text)
  | [] => none
  | '"' :: rest => some ([], rest)
  | '\\' :: 'u' :: a :: b :: c :: d :: rest => do
    let ch ← coded? [a, b, c, d]
    let (t, rest) ← basic? rest
    return (ch :: t, rest)
  | '\\' :: 'U' :: a :: b :: c :: d :: e :: f :: g :: h :: rest => do
    let ch ← coded? [a, b, c, d, e, f, g, h]
    let (t, rest) ← basic? rest
    return (ch :: t, rest)
  | '\\' :: c :: rest => do
    let ch ← shortEscape? c
    let (t, rest) ← basic? rest
    return (ch :: t, rest)
  | c :: rest =>
    if isPlain c && c != '\\' then do
      let (t, rest) ← basic? rest
      return (c :: t, rest)
    else none

/-- A text in single quotes on one line, after its opening quote. -/
def literal? (t : Text) : Option (Text × Text) :=
  let content := t.takeWhile fun c => isPlain c && c != '\''
  match t.dropWhile fun c => isPlain c && c != '\'' with
  | '\'' :: rest => some (content, rest)
  | _ => none

/-- The end of a text over several lines, after three closing quotes: up to two more quotes belong
to the text. -/
def closing (quote : Char) : Text → Text × Text
  | a :: b :: rest =>
    if a = quote ∧ b = quote then ([a, b], rest)
    else if a = quote then ([a], b :: rest)
    else ([], a :: b :: rest)
  | [a] => if a = quote then ([a], []) else ([], [a])
  | [] => ([], [])

/-- Whether only blanks follow on the line. -/
def endsLine (t : Text) : Bool := (newline? (skipBlanks t)).isSome

/-- A text in double quotes over several lines, after its opening quotes.  A backslash at the end
of a line drops all blanks and line breaks that follow; `dropping` says whether it is doing so. -/
def longBasic? (dropping : Bool) : Text → Option (Text × Text)
  | [] => none
  | '"' :: '"' :: '"' :: rest => some (closing '"' rest)
  | '\\' :: 'u' :: a :: b :: c :: d :: rest => do
    let ch ← coded? [a, b, c, d]
    let (t, rest) ← longBasic? false rest
    return (ch :: t, rest)
  | '\\' :: 'U' :: a :: b :: c :: d :: e :: f :: g :: h :: rest => do
    let ch ← coded? [a, b, c, d, e, f, g, h]
    let (t, rest) ← longBasic? false rest
    return (ch :: t, rest)
  | '\r' :: '\n' :: rest => do
    let (t, rest) ← longBasic? dropping rest
    return (if dropping then t else '\n' :: t, rest)
  | '\\' :: c :: rest =>
    if endsLine (c :: rest) then longBasic? true (c :: rest)
    else do
      let ch ← shortEscape? c
      let (t, rest) ← longBasic? false rest
      return (ch :: t, rest)
  | c :: rest =>
    if dropping && (isBlank c || c == '\n') then longBasic? true rest
    else if (isPlain c && c != '\\') || c == '\n' then do
      let (t, rest) ← longBasic? false rest
      return (c :: t, rest)
    else none

/-- A text in single quotes over several lines, after its opening quotes. -/
def longLiteral? : Text → Option (Text × Text)
  | [] => none
  | '\'' :: '\'' :: '\'' :: rest => some (closing '\'' rest)
  | '\r' :: '\n' :: rest => do
    let (t, rest) ← longLiteral? rest
    return ('\n' :: t, rest)
  | c :: rest =>
    if isPlain c || c == '\n' then do
      let (t, rest) ← longLiteral? rest
      return (c :: t, rest)
    else none

/-- A quoted text of any kind.  A line break directly after three opening quotes is dropped. -/
def quoted? : Text → Option (Text × Text)
  | '"' :: '"' :: '"' :: rest => longBasic? false ((newline? rest).getD rest)
  | '\'' :: '\'' :: '\'' :: rest => longLiteral? ((newline? rest).getD rest)
  | '"' :: rest => basic? rest
  | '\'' :: rest => literal? rest
  | _ => none

/-! ## Numbers -/

/-- A run of digits in which single underscores may stand between digits, without these. -/
def digitRun? (isDigit : Char → Bool) : Text → Option (Text × Text)
  | [] => none
  | d :: rest =>
    if isDigit d then
      match rest with
      | '_' :: next :: rest =>
        if isDigit next then
          (digitRun? isDigit (next :: rest)).map fun r => (d :: r.1, r.2)
        else some ([d], '_' :: next :: rest)
      | rest =>
        match digitRun? isDigit rest with
        | some (digits, rest) => some (d :: digits, rest)
        | none => some ([d], rest)
    else none

/-- The sign of a number as written. -/
def sign : Text → Text × Text
  | '+' :: rest => (['+'], rest)
  | '-' :: rest => (['-'], rest)
  | t => ([], t)

/-- The whole part of a decimal number; no digit follows a leading zero. -/
def wholePart? : Text → Option (Text × Text)
  | '0' :: rest => some (['0'], rest)
  | t => digitRun? Char.isDigit t

/-- A fraction with its point. -/
def fractionPart? : Text → Option (Text × Text)
  | '.' :: rest => (digitRun? Char.isDigit rest).map fun r => ('.' :: r.1, r.2)
  | _ => none

/-- An exponent with its mark. -/
def exponentPart? : Text → Option (Text × Text)
  | e :: rest =>
    if e = 'e' ∨ e = 'E' then
      let (s, rest) := sign rest
      (digitRun? Char.isDigit rest).map fun r => (e :: s ++ r.1, r.2)
    else none
  | [] => none

/-- The fraction, the exponent or both that make a number a real one. -/
def realPart? (t : Text) : Option (Text × Text) :=
  match exponentPart? t with
  | some part => some part
  | none => do
    let (places, rest) ← fractionPart? t
    match exponentPart? rest with
    | some (e, rest) => return (places ++ e, rest)
    | none => return (places, rest)

/-- Infinity or not-a-number by name. -/
def namedReal? (negative : Bool) (t : Text) : Option (Value × Text) :=
  match Text.dropStart? "inf".toList t with
  | some rest => some (.real (.infinite negative), rest)
  | none => (Text.dropStart? "nan".toList t).map fun rest => (.real .nan, rest)

/-- A real number.  One above the greatest finite value is refused. -/
def real? (t : Text) : Option (Value × Text) :=
  let (s, unsigned) := sign t
  match namedReal? (s == ['-']) unsigned with
  | some result => some result
  | none => do
    let (whole, rest) ← wholePart? unsigned
    let (places, rest) ← realPart? rest
    let x ← Numeral.read? (s ++ whole ++ places)
    if x = .infinite false then none else return (.real x, rest)

/-- The greatest integer. -/
def integerBound : Nat := 2 ^ 63 - 1

/-- The number written by digits in a base. -/
def digitsIn (base : Nat) (digits : Text) : Nat :=
  digits.foldl (fun n c => n * base + (Json.hexDigit? c).getD 0) 0

/-- A whole number in a base other than ten, after its mark. -/
def radix? (base : Nat) (t : Text) : Option (Value × Text) := do
  let (digits, rest) ← digitRun? (fun c => (Json.hexDigit? c).any (· < base)) t
  if digitsIn base digits ≤ integerBound then return (.integer (digitsIn base digits), rest)
  else none

/-- A whole number within 64 bits. -/
def integer? : Text → Option (Value × Text)
  | '0' :: 'x' :: rest => radix? 16 rest
  | '0' :: 'o' :: rest => radix? 8 rest
  | '0' :: 'b' :: rest => radix? 2 rest
  | t => do
    let (s, unsigned) := sign t
    let (digits, rest) ← wholePart? unsigned
    let n := wholeOf digits
    if s = ['-'] then
      if n ≤ integerBound + 1 then return (.integer (-(n : Int)), rest) else none
    else if n ≤ integerBound then return (.integer n, rest)
    else none

/-! ## Dates and times -/

/-- Exactly `count` digits with a value between two bounds, as written. -/
def field? (count low high : Nat) (t : Text) : Option (Text × Text) :=
  let digits := t.take count
  if digits.length = count ∧ digits.all Char.isDigit ∧ low ≤ wholeOf digits ∧
      wholeOf digits ≤ high then
    some (digits, t.drop count)
  else none

/-- One given character. -/
def mark? (c : Char) : Text → Option Text
  | d :: rest => if d = c then some rest else none
  | [] => none

/-- The number of days in a month. -/
def daysIn (year month : Nat) : Nat :=
  if month = 2 then
    if year % 4 = 0 ∧ (year % 100 ≠ 0 ∨ year % 400 = 0) then 29 else 28
  else if month = 4 ∨ month = 6 ∨ month = 9 ∨ month = 11 then 30
  else 31

/-- A date as written. -/
def date? (t : Text) : Option (Text × Text) := do
  let (year, rest) ← field? 4 0 9999 t
  let (month, rest) ← field? 2 1 12 (← mark? '-' rest)
  let (day, rest) ← field? 2 1 (daysIn (wholeOf year) (wholeOf month)) (← mark? '-' rest)
  return (year ++ '-' :: month ++ '-' :: day, rest)

/-- The fraction of a second as written, empty if there is none. -/
def secondFraction (t : Text) : Text × Text :=
  match t with
  | '.' :: rest =>
    let digits := rest.takeWhile Char.isDigit
    if digits.isEmpty then ([], t) else ('.' :: digits, rest.dropWhile Char.isDigit)
  | _ => ([], t)

/-- A time of day as written; a minute may have a leap second. -/
def time? (t : Text) : Option (Text × Text) := do
  let (hour, rest) ← field? 2 0 23 t
  let (minute, rest) ← field? 2 0 59 (← mark? ':' rest)
  let (second, rest) ← field? 2 0 60 (← mark? ':' rest)
  let (fraction, rest) := secondFraction rest
  return (hour ++ ':' :: minute ++ ':' :: second ++ fraction, rest)

/-- The offset of a time from universal time as written. -/
def offset? : Text → Option (Text × Text)
  | c :: rest =>
    if c = 'Z' ∨ c = 'z' then some ([c], rest)
    else if c = '+' ∨ c = '-' then do
      let (hour, rest) ← field? 2 0 23 rest
      let (minute, rest) ← field? 2 0 59 (← mark? ':' rest)
      return (c :: hour ++ ':' :: minute, rest)
    else none
  | [] => none

/-- The time after a date, with its separator and offset; nothing if there is none. -/
def timeAfterDate (t : Text) : Text × Text :=
  match t with
  | c :: rest =>
    if c = 'T' ∨ c = 't' ∨ c = ' ' then
      match time? rest with
      | some (time, rest) =>
        match offset? rest with
        | some (offset, rest) => (c :: time ++ offset, rest)
        | none => (c :: time, rest)
      | none => ([], t)
    else ([], t)
  | [] => ([], t)

/-- A date, a time, or both. -/
def moment? (t : Text) : Option (Value × Text) :=
  match date? t with
  | some (date, rest) =>
    let (time, rest) := timeAfterDate rest
    some (.moment (date ++ time), rest)
  | none => (time? t).map fun r => (.moment r.1, r.2)

/-- A value that starts with a digit or a sign. -/
def number? (t : Text) : Option (Value × Text) :=
  match moment? t with
  | some result => some result
  | none =>
    match real? t with
    | some result => some result
    | none => integer? t

end Keypad.Toml
