import Keypad.Toml.Scalar

/-!
# Reading TOML

## Main definitions

* `Toml.key?`, `Toml.value?`, `Toml.statements?`
* `Toml.parse?`: the table a document denotes

## Main results

* `parse?_nil`: the empty document is the empty table
-/

namespace Keypad.Toml

/-- Arrays and inline tables nest less deeply than this. -/
def nestingLimit : Nat := 80

/-- Dotted keys have fewer parts than this. -/
def keyLimit : Nat := 80

/-- The rest of a line from a comment on; the line break stays. -/
def skipComment : Text → Text
  | '#' :: rest => rest.dropWhile isPlain
  | t => t

/-- What follows the end of a line, blanks and a comment before it aside. -/
def lineEnd? (t : Text) : Option Text :=
  match skipComment (skipBlanks t) with
  | [] => some []
  | rest => newline? rest

/-- Skips blanks, line breaks and comments; `limit` bounds the number of lines. -/
def skipLines : (limit : Nat) → Text → Text
  | 0, t => t
  | limit + 1, t =>
    match newline? (skipComment (skipBlanks t)) with
    | some rest => skipLines limit rest
    | none => skipBlanks t

/-- Skips as many lines as there are. -/
def skipGaps (t : Text) : Text := skipLines t.length t

/-! ## Keys -/

/-- The characters of a key without quotes. -/
def isKeyChar (c : Char) : Bool := c.isAlphanum || c == '-' || c == '_'

/-- One part of a key. -/
def simpleKey? : Text → Option (Text × Text)
  | '"' :: rest => basic? rest
  | '\'' :: rest => literal? rest
  | t =>
    let key := t.takeWhile isKeyChar
    if key.isEmpty then none else some (key, t.dropWhile isKeyChar)

/-- The parts of a dotted key with blanks around them; `limit` bounds their number. -/
def keyParts? : (limit : Nat) → Text → Option (List Text × Text)
  | 0, _ => none
  | limit + 1, t => do
    let (part, rest) ← simpleKey? (skipBlanks t)
    match skipBlanks rest with
    | '.' :: rest =>
      let (parts, rest) ← keyParts? limit rest
      return (part :: parts, rest)
    | rest => return ([part], rest)

/-- A key as its path and last part. -/
def key? (t : Text) : Option (List Text × Text × Text) := do
  let (parts, rest) ← keyParts? (keyLimit - 1) t
  return (parts.dropLast, ← parts.getLast?, rest)

/-! ## Values -/

/-- The items of an array after its bracket or a comma, by a reader for one value.  The last item
may be followed by a comma. -/
def items? (value? : Text → Option (Value × Text)) : (limit : Nat) → Text →
    Option (List Value × Text)
  | 0, _ => none
  | limit + 1, t =>
    match skipGaps t with
    | ']' :: rest => some ([], rest)
    | t => do
      let (item, rest) ← value? t
      match skipGaps rest with
      | ',' :: rest =>
        let (items, rest) ← items? value? limit rest
        return (item :: items, rest)
      | ']' :: rest => return ([item], rest)
      | _ => none

/-- A key and its value, by a reader for values. -/
def keyValue? (value? : Text → Option (Value × Text)) (t : Text) :
    Option (List Text × Text × Value × Text) := do
  let (path, key, rest) ← key? t
  match rest with
  | '=' :: rest =>
    let (value, rest) ← value? (skipBlanks rest)
    return (path, key, value, rest)
  | _ => none

/-- The entries of an inline table after its brace or a comma, added to those before. -/
def pairs? (value? : Text → Option (Value × Text)) : (limit : Nat) → Entries → Text →
    Option (Entries × Text)
  | 0, _, _ => none
  | limit + 1, entries, t => do
    let (path, key, value, rest) ← keyValue? value? t
    let entries ← assign? entries path key value
    match skipBlanks rest with
    | ',' :: rest => pairs? value? limit entries rest
    | '}' :: rest => return (entries, rest)
    | _ => none

/-- A value; `depth` is how deep arrays and inline tables may still nest. -/
def value? : (depth : Nat) → Text → Option (Value × Text)
  | 0, t => scalar? t
  | depth + 1, '[' :: rest =>
    (items? (value? depth) (rest.length + 1) rest).map fun r => (.list r.1, r.2)
  | depth + 1, '{' :: rest =>
    match skipBlanks rest with
    | '}' :: rest => some (.table .inline [], rest)
    | _ =>
      (pairs? (value? depth) (rest.length + 1) [] rest).map fun r => (.table .inline r.1, r.2)
  | _ + 1, t => scalar? t
where
  /-- A value that holds no others. -/
  scalar? (t : Text) : Option (Value × Text) :=
    match t with
    | '"' :: _ | '\'' :: _ => (quoted? t).map fun r => (.text r.1, r.2)
    | 't' :: _ => (Text.dropStart? "true".toList t).map fun rest => (.boolean true, rest)
    | 'f' :: _ => (Text.dropStart? "false".toList t).map fun rest => (.boolean false, rest)
    | 'i' :: _ | 'n' :: _ => namedReal? false t
    | _ => number? t

/-! ## Documents -/

/-- A header line after its first bracket. -/
def header? : Text → Option (Statement × Text)
  | '[' :: rest => do
    let (path, key, rest) ← key? rest
    match rest with
    | ']' :: ']' :: rest => return (.rowHeader path key, ← lineEnd? rest)
    | _ => none
  | t => do
    let (path, key, rest) ← key? t
    match rest with
    | ']' :: rest => return (.header path key, ← lineEnd? rest)
    | _ => none

/-- An assignment on a line of its own. -/
def assignment? (t : Text) : Option (Statement × Text) := do
  let (path, key, value, rest) ← keyValue? (value? (nestingLimit - 1)) t
  return (.assignment path key value, ← lineEnd? rest)

/-- The statements of the remaining lines; `limit` bounds their number. -/
def statements? : (limit : Nat) → Text → Option (List Statement)
  | 0, _ => none
  | limit + 1, t =>
    match skipBlanks t with
    | [] => some []
    | '#' :: rest => (lineEnd? ('#' :: rest)).bind (statements? limit)
    | '[' :: rest => do
      let (statement, rest) ← header? rest
      return statement :: (← statements? limit rest)
    | rest =>
      match newline? rest with
      | some rest => statements? limit rest
      | none => do
        let (statement, rest) ← assignment? rest
        return statement :: (← statements? limit rest)

/-- A document without the byte order mark it may start with. -/
def dropMark : Text → Text
  | '\uFEFF' :: rest => rest
  | t => t

/-- The table that a document denotes. -/
def parse? (t : Text) : Option Entries := do
  build? (← statements? (t.length + 1) (dropMark t))

@[simp] theorem parse?_nil : parse? [] = some [] := rfl

end Keypad.Toml
