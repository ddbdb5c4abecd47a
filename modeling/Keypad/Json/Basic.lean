import Keypad.Decimal.Basic

/-!
# JSON values

Values of a JSON text as far as its readers tell them apart: a whole number is not the same as a
number with a point, and a text or number may be well formed and yet have no value here.

## Main definitions

* `Json`, `Json.Number`
* `Json.Number.ofParts`: the value of a written number
* `Json.members?`: a record's fields, given by name or by position
-/

namespace Keypad

/-- A JSON number. -/
inductive Json.Number where
  /-- Written as a whole number within 64 bits. -/
  | integer (value : Int)
  /-- Any other number. -/
  | real (value : Binary64)
  /-- Well formed, but beyond the finite values. -/
  | outOfRange
  deriving DecidableEq, Repr

/-- A JSON value.  A text without content is well formed, but its escapes name half of a
surrogate pair. -/
inductive Json where
  | null
  | boolean (value : Bool)
  | number (value : Json.Number)
  | text (content : Option Text)
  | list (items : List Json)
  | record (fields : List (Option Text × Json))

namespace Json

namespace Number

/-- The greatest significand that is kept: digits are taken while they fit 64 bits. -/
def significandBound : Nat := 2 ^ 64 - 1

/-- Takes digits into a significand while they fit: the significand, and how many were taken. -/
def takeDigits (significand : Nat) : Text → Nat × Nat
  | [] => (significand, 0)
  | d :: rest =>
    let next := significand * 10 + wholeOf [d]
    if significandBound < next then (significand, 0)
    else
      let (total, taken) := takeDigits next rest
      (total, taken + 1)

/-- A power of ten, to the nearest value. -/
def powerOfTen (n : Nat) : Binary64 := Decimal.toBinary64 ⟨false, 1, n⟩

/-- The largest exponent of a finite power of ten. -/
def greatestPower : Nat := 308

/-- Scales a value by `10 ^ exponent`, in steps of at most `10 ^ 308`, each rounded; `none` beyond
the finite values.  Two steps down take every significand to zero, so `steps` may be small. -/
def scale? : (steps : Nat) → Binary64 → (exponent : Int) → Option Binary64
  | 0, x, _ => some x
  | steps + 1, x, exponent =>
    if exponent.natAbs ≤ greatestPower then
      if 0 ≤ exponent then
        let y := x.mul (powerOfTen exponent.toNat)
        if y.isFinite then some y else none
      else some (x.div (powerOfTen exponent.natAbs))
    else if x.isZero then some x
    else if 0 ≤ exponent then none
    else scale? steps (x.div (powerOfTen greatestPower)) (exponent + greatestPower)

/-- A number from the digits of its parts.  Without fraction and exponent it is whole if it fits
64 bits; minus zero is not whole.  Any other is its significand, cut to 64 bits and rounded,
scaled by a power of ten. -/
def ofParts (negative : Bool) (whole : Text) (fraction : Option Text)
    (exponent : Option Int) : Number :=
  let (head, taken) := takeDigits 0 whole
  let dropped := whole.length - taken
  let sign (x : Binary64) : Binary64 := if negative then x.neg else x
  let scaled (significand : Nat) (e : Int) : Number :=
    match scale? 4 (.ofNat significand) e with
    | some x => .real (sign x)
    | none => .outOfRange
  match fraction, exponent with
  | none, none =>
    if 0 < dropped then scaled head dropped
    else if !negative then .integer head
    else if head = 0 ∨ 2 ^ 63 < head then .real (sign (.ofNat head))
    else .integer (-(head : Int))
  | _, _ =>
    let (significand, places) := takeDigits head (fraction.getD [])
    scaled significand ((dropped : Int) - places + exponent.getD 0)

end Number

/-! ## Access -/

/-- The content of a text. -/
def text? : Json → Option Text
  | .text content => content
  | _ => none

def boolean? : Json → Option Bool
  | .boolean value => some value
  | _ => none

/-- Any number within the finite range, as its nearest value. -/
def real? : Json → Option Binary64
  | .number (.integer n) => some (.ofInt n)
  | .number (.real x) => some x
  | _ => none

/-- A whole number from 0 to 255. -/
def byte? : Json → Option UInt8
  | .number (.integer n) => if 0 ≤ n ∧ n < 256 then some (UInt8.ofNat n.toNat) else none
  | _ => none

def list? : Json → Option (List Json)
  | .list items => some items
  | _ => none

/-- A choice without content, by its name alone or as a record of the name and null. -/
def choice? : Json → Option Text
  | .text content => content
  | .record [(name, .null)] => name
  | _ => none

/-- An optional value, null standing for none. -/
def nullable? {α : Type} (read? : Json → Option α) : Json → Option (Option α)
  | .null => some none
  | j => (read? j).map some

/-- The fields of a record that carry one of the given names, in order. -/
def named (names : List Text) (fields : List (Option Text × Json)) : List Json :=
  (fields.filter fun field => field.1.any names.contains).map (·.2)

/-- The one field that carries one of the given names, `some none` if there is none; twice the
same field is refused. -/
def field? (names : List Text) (fields : List (Option Text × Json)) : Option (Option Json) :=
  match named names fields with
  | [] => some none
  | [value] => some (some value)
  | _ => none

/-- The fields of a record, each known by some names, or the items of a list in their order.
Unknown fields are ignored; a list may be shorter than the record if `short` is set.  A field
that is missing is none. -/
def members? (names : List (List Text)) (short : Bool) : Json → Option (List (Option Json))
  | .record fields =>
    if fields.all fun field => field.1.isSome then names.mapM (field? · fields) else none
  | .list items =>
    if items.length = names.length ∨ (short = true ∧ items.length < names.length) then
      some (items.map some ++ List.replicate (names.length - items.length) none)
    else none
  | _ => none

/-- A field that has to be there. -/
def required? {α : Type} (read? : Json → Option α) (field : Option Json) : Option α :=
  field.bind read?

/-- A field that may be missing or null. -/
def optional? {α : Type} (read? : Json → Option α) : Option Json → Option (Option α)
  | none => some none
  | some j => nullable? read? j

end Json

end Keypad
