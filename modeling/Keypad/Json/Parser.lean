import Keypad.Json.Basic

/-!
# Reading JSON

A JSON text is one value with blanks around its tokens.  Nesting is not limited: the length of the
text bounds it.

## Main definitions

* `Json.parse?`

## Main results

* `parse?_nil`: the empty text is no value
-/

namespace Keypad

namespace Json

/-- The blanks of JSON. -/
def isGap (c : Char) : Bool := c == ' ' || c == '\n' || c == '\t' || c == '\r'

def skipGaps (t : Text) : Text := t.dropWhile isGap

/-- The value of a hexadecimal digit. -/
def hexDigit? (c : Char) : Option Nat :=
  if c.isDigit then some (c.toNat - '0'.toNat)
  else if 'a' ≤ c ∧ c ≤ 'f' then some (c.toNat - 'a'.toNat + 10)
  else if 'A' ≤ c ∧ c ≤ 'F' then some (c.toNat - 'A'.toNat + 10)
  else none

/-- The number written by hexadecimal digits. -/
def hexNumber? (digits : Text) : Option Nat :=
  digits.foldl (fun n c => do return (← n) * 16 + (← hexDigit? c)) (some 0)

/-- The characters of a sequence of code units, in which an escaped character beyond the first
plane stands as a pair of surrogates; `none` if one of a pair is missing. -/
def joinSurrogates : List Nat → Option Text
  | [] => some []
  | n :: rest =>
    if 0xD800 ≤ n ∧ n < 0xDC00 then
      match rest with
      | [] => none
      | low :: rest =>
        if 0xDC00 ≤ low ∧ low < 0xE000 then
          (joinSurrogates rest).map
            (Char.ofNat (0x10000 + (n - 0xD800) * 0x400 + (low - 0xDC00)) :: ·)
        else none
    else if 0xDC00 ≤ n ∧ n < 0xE000 then none
    else (joinSurrogates rest).map (Char.ofNat n :: ·)

/-- The code unit of a one-letter escape. -/
def shortEscape? : Char → Option Nat
  | '"' => some '"'.toNat
  | '\\' => some '\\'.toNat
  | '/' => some '/'.toNat
  | 'b' => some 8
  | 'f' => some 12
  | 'n' => some 10
  | 'r' => some 13
  | 't' => some 9
  | _ => none

/-- The code units of a quoted text up to its closing quote, and what follows it.  Control
characters have to be escaped. -/
def quoted? : Text → Option (List Nat × Text)
  | [] => none
  | '"' :: rest => some ([], rest)
  | '\\' :: 'u' :: a :: b :: c :: d :: rest => do
    let n ← hexNumber? [a, b, c, d]
    let (units, rest) ← quoted? rest
    return (n :: units, rest)
  | '\\' :: c :: rest => do
    let n ← shortEscape? c
    let (units, rest) ← quoted? rest
    return (n :: units, rest)
  | c :: rest =>
    if c.toNat < 0x20 ∨ c = '\\' then none
    else do
      let (units, rest) ← quoted? rest
      return (c.toNat :: units, rest)

/-- The digits after a point, if there is one; a point needs digits. -/
def fraction? : Text → Option (Option Text × Text)
  | '.' :: rest =>
    let digits := rest.takeWhile Char.isDigit
    if digits.isEmpty then none else some (some digits, rest.dropWhile Char.isDigit)
  | t => some (none, t)

/-- A sign before the digits of an exponent. -/
def exponentSign : Text → Bool × Text
  | '-' :: rest => (true, rest)
  | '+' :: rest => (false, rest)
  | t => (false, t)

/-- The exponent, if there is one; it needs digits. -/
def exponent? (t : Text) : Option (Option Int × Text) :=
  match t with
  | e :: rest =>
    if e = 'e' ∨ e = 'E' then
      let (negative, rest) := exponentSign rest
      let digits := rest.takeWhile Char.isDigit
      if digits.isEmpty then none
      else
        let n : Int := wholeOf digits
        some (some (if negative then -n else n), rest.dropWhile Char.isDigit)
    else some (none, t)
  | [] => some (none, [])

/-- A number without its sign.  No digit follows a leading zero. -/
def unsigned? (negative : Bool) (t : Text) : Option (Json × Text) := do
  let whole := t.takeWhile Char.isDigit
  if whole.isEmpty || (decide (1 < whole.length) && whole.head? == some '0') then none
  else
    let (fraction, rest) ← fraction? (t.dropWhile Char.isDigit)
    let (exponent, rest) ← exponent? rest
    return (.number (Number.ofParts negative whole fraction exponent), rest)

/-- The items of a list after its opening bracket or a comma, by a reader for one value; `limit`
bounds their number. -/
def items? (value? : Text → Option (Json × Text)) : (limit : Nat) → Text →
    Option (List Json × Text)
  | 0, _ => none
  | limit + 1, t => do
    let (item, rest) ← value? t
    match skipGaps rest with
    | ']' :: rest => return ([item], rest)
    | ',' :: rest =>
      let (items, rest) ← items? value? limit rest
      return (item :: items, rest)
    | _ => none

/-- The fields of a record after its opening brace or a comma. -/
def fields? (value? : Text → Option (Json × Text)) : (limit : Nat) → Text →
    Option (List (Option Text × Json) × Text)
  | 0, _ => none
  | limit + 1, t =>
    match skipGaps t with
    | '"' :: rest => do
      let (units, rest) ← quoted? rest
      match skipGaps rest with
      | ':' :: rest =>
        let (item, rest) ← value? rest
        let field := (joinSurrogates units, item)
        match skipGaps rest with
        | '}' :: rest => return ([field], rest)
        | ',' :: rest =>
          let (fields, rest) ← fields? value? limit rest
          return (field :: fields, rest)
        | _ => none
      | _ => none
    | _ => none

/-- One value with blanks before it, and what follows; `depth` bounds the nesting. -/
def value? : (depth : Nat) → Text → Option (Json × Text)
  | 0, _ => none
  | depth + 1, t =>
    match skipGaps t with
    | '"' :: rest => do
      let (units, rest) ← quoted? rest
      return (.text (joinSurrogates units), rest)
    | '[' :: rest =>
      match skipGaps rest with
      | ']' :: rest => some (.list [], rest)
      | _ => (items? (value? depth) rest.length rest).map fun r => (.list r.1, r.2)
    | '{' :: rest =>
      match skipGaps rest with
      | '}' :: rest => some (.record [], rest)
      | _ => (fields? (value? depth) rest.length rest).map fun r => (.record r.1, r.2)
    | '-' :: rest => unsigned? true rest
    | 't' :: rest => (Text.dropStart? "rue".toList rest).map fun r => (.boolean true, r)
    | 'f' :: rest => (Text.dropStart? "alse".toList rest).map fun r => (.boolean false, r)
    | 'n' :: rest => (Text.dropStart? "ull".toList rest).map fun r => (.null, r)
    | rest => unsigned? false rest

/-- The value of a JSON text. -/
def parse? (t : Text) : Option Json := do
  let (value, rest) ← value? (t.length + 1) t
  if (skipGaps rest).isEmpty then return value else none

@[simp] theorem parse?_nil : parse? [] = none := rfl

end Json

end Keypad
